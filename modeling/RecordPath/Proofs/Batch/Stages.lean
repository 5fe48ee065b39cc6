import RecordPath.Proofs.Batch.Alone

/-!
A batch does what its items do alone, in stages: the writes without queries one after another, then
the writes with queries in their order, each one only if no write of the batch was done on its
record before. All reads see the memory as it was.
-/

namespace RecordPath

def Memory.adopt (memory : Memory) (key : Key) (other : Memory) : Memory :=
  { memory with records := fun k => if k = key then other.records k else memory.records k }

namespace Batch

structure Stage where
  memory : Memory
  /-- The keys that writes were done on, the last one first. -/
  written : List Key

inductive Turn where
  | taken (result : ItemResult)
  | waiting (item : Item)

namespace Stage

def first (config : ClientConfig) (time : UInt64) (stage : Stage) (item : Item) : Turn × Stage :=
  if item.isNativeWrite then
    let (result, memory) := alone config time stage.memory item
    let written := if result.state = .failed then stage.written else item.key :: stage.written
    (.taken result, ⟨memory, written⟩)
  else (.waiting item, stage)

def second (config : ClientConfig) (time : UInt64) (before : Memory) (stage : Stage) :
    Turn → ItemResult × Stage
  | .taken result => (result, stage)
  | .waiting item =>
      let (result, after) := alone config time before item
      if item.operation = .get ∨ result.state = .failed then (result, stage)
      else if item.key ∈ stage.written then
        (item.failing (.conflict item.key.text (before.generation item.key)), stage)
      else (result, ⟨stage.memory.adopt item.key after, item.key :: stage.written⟩)

end Stage

def staged (config : ClientConfig) (time : UInt64) (items : List Item) (memory : Memory) :
    List ItemResult × Memory :=
  let (turns, stage) := thread (Stage.first config time) ⟨memory, []⟩ items
  let (results, stage) := thread (Stage.second config time memory) stage turns
  (results, stage.memory)

variable {config : ClientConfig} {time : UInt64} {item : Item} {memory before : Memory}
  {stage : Stage}

/-- By every write that was done a record is one generation further, and where none was done it is
as it was. -/
structure Stage.Tracks (before : Memory) (stage : Stage) : Prop where
  clock : stage.memory.clock = before.clock
  kept : ∀ key, key ∉ stage.written → stage.memory.records key = before.records key
  generation : ∀ key, stage.memory.generation key =
    before.generation key + .ofNat (stage.written.count key)

namespace Stage.Tracks

theorem start (memory : Memory) : Tracks memory ⟨memory, []⟩ where
  clock := rfl
  kept := fun _ _ => rfl
  generation := fun key => by
    rw [List.count_nil]
    exact (UInt32.add_zero _).symm

theorem write {key : Key} {operations : List FieldOperation} {expected : Option UInt32}
    {view : View} (h : Tracks before stage)
    (done : (stage.memory.write key operations expected).1 = .ok view) :
    Tracks before ⟨(stage.memory.write key operations expected).2, key :: stage.written⟩ where
  clock := (Memory.write_clock ..).trans h.clock
  kept := fun other unwritten => by
    rw [List.mem_cons, not_or] at unwritten
    exact (Memory.write_records_of_ne unwritten.1).trans (h.kept other unwritten.2)
  generation := fun other => by
    by_cases ho : other = key
    · subst ho
      rw [Memory.write_generation done, h.generation, List.count_cons_self, UInt32.ofNat_add,
        UInt32.add_assoc]
      rfl
    · rw [Memory.write_generation_of_ne ho, h.generation, List.count_cons_of_ne (Ne.symm ho)]

theorem generation_ne {key : Key} (h : Tracks before stage) (written : key ∈ stage.written)
    (bound : stage.written.length < Memory.generations) :
    stage.memory.generation key ≠ before.generation key := by
  rw [h.generation]
  have positive : stage.written.count key ≠ 0 := Nat.ne_of_gt (List.count_pos_iff.2 written)
  exact Memory.add_ofNat_ne positive (Nat.lt_of_le_of_lt List.count_le_length bound)

end Stage.Tracks

theorem first_native (config : ClientConfig) (time : UInt64) (h : item.isNativeWrite = true)
    (tracks : stage.Tracks before) :
    (stage.first config time item).1 = .taken (alone config time stage.memory item).1 ∧
      (stage.first config time item).2.memory = (alone config time stage.memory item).2 ∧
      (stage.first config time item).2.Tracks before ∧
      (stage.first config time item).2.written.length ≤ stage.written.length + 1 := by
  have settled := Slot.settled_sendFirst config h stage.memory
  have first : stage.first config time item =
      (.taken (alone config time stage.memory item).1, ⟨(alone config time stage.memory item).2,
        if (alone config time stage.memory item).1.state = .failed then stage.written
        else item.key :: stage.written⟩) := by
    rw [Stage.first, if_pos h]
  rw [first, alone_native config time h]
  rcases settled.outcome with ⟨state, same⟩ | ⟨state, operations, view, done, after⟩
  · have failed : ((Slot.prepare config item).sendFirst stage.memory).1.result.state = .failed :=
      state
    rw [if_pos failed, same]
    exact ⟨rfl, rfl, tracks, Nat.le_succ _⟩
  · have succeeded :
        ((Slot.prepare config item).sendFirst stage.memory).1.result.state ≠ .failed := state
    rw [if_neg succeeded, after]
    exact ⟨rfl, rfl, tracks.write done, Nat.le_refl _⟩

inductive Matched (config : ClientConfig) (before : Memory) : List Slot → List Turn → Prop
  | nil : Matched config before [] []
  | taken {slot : Slot} {slots : List Slot} {turns : List Turn} :
      slot.fetched = none → slot.request = none → Matched config before slots turns →
      Matched config before (slot :: slots) (.taken slot.result :: turns)
  | waiting {item : Item} {slots : List Slot} {turns : List Turn} :
      item.isNativeWrite = false → Matched config before slots turns →
      Matched config before
        ((Slot.prepare config item).fetchFrom before :: slots) (.waiting item :: turns)

def waitingCount : List Turn → Nat
  | [] => 0
  | .taken _ :: turns => waitingCount turns
  | .waiting _ :: turns => waitingCount turns + 1

theorem thread_first (config : ClientConfig) (time : UInt64) (items : List Item) :
    ∀ {stage : Stage}, stage.Tracks before →
    (thread Slot.sendFirst stage.memory
      ((items.map (Slot.prepare config)).map (Slot.fetchFrom before))).2 =
        (thread (Stage.first config time) stage items).2.memory ∧
    Matched config before
      (thread Slot.sendFirst stage.memory
        ((items.map (Slot.prepare config)).map (Slot.fetchFrom before))).1
      (thread (Stage.first config time) stage items).1 ∧
    (thread (Stage.first config time) stage items).2.Tracks before ∧
    (thread (Stage.first config time) stage items).2.written.length +
        waitingCount (thread (Stage.first config time) stage items).1 ≤
      stage.written.length + items.length := by
  induction items with
  | nil => exact fun tracks => ⟨rfl, .nil, tracks, Nat.le_refl _⟩
  | cons item items ih =>
      intro stage tracks
      rw [List.map_cons, List.map_cons, thread_cons, thread_cons, List.length_cons]
      cases h : item.isNativeWrite with
      | true =>
          have settled := Slot.settled_sendFirst config h stage.memory
          obtain ⟨turn, memory, next, length⟩ := first_native config time h tracks
          obtain ⟨memories, matched, last, total⟩ := ih next
          rw [alone_native config time h] at turn memory
          rw [Slot.prepare_native h, turn, ← memory]
          refine ⟨memories, .taken settled.fetched settled.request matched, last, ?_⟩
          simp only [waitingCount]
          omega
      | false =>
          have waits : stage.first config time item = (.waiting item, stage) := by
            rw [Stage.first, h]
            rfl
          obtain ⟨memories, matched, last, total⟩ := ih tracks
          rw [Slot.sendFirst_other h, waits]
          refine ⟨memories, .waiting h matched, last, ?_⟩
          simp only [waitingCount]
          omega

structure Agrees (before : Memory) (stage : Stage) (slot : Slot) (turn : ItemResult × Stage) :
    Prop where
  result : (slot.sendSecond stage.memory).1.result = turn.1
  memory : (slot.sendSecond stage.memory).2 = turn.2.memory
  tracks : turn.2.Tracks before
  length : turn.2.written.length ≤ stage.written.length + 1

theorem agrees_idle {slot : Slot} (tracks : stage.Tracks before)
    (idle : ∀ memory, slot.sendSecond memory = (slot, memory))
    (alone : alone config time before item = (slot.result, before))
    (still : item.operation = .get ∨ slot.state = .failed) :
    Agrees before stage slot (stage.second config time before (.waiting item)) := by
  have second : stage.second config time before (.waiting item) = (slot.result, stage) := by
    simp only [Stage.second, alone]
    exact if_pos still
  rw [second]
  exact ⟨by rw [idle], by rw [idle], tracks, Nat.le_succ _⟩

theorem agrees_bound {slot : Slot} {operations : List FieldOperation} {view : View}
    (tracks : stage.Tracks before) (bound : stage.written.length < Memory.generations)
    (request : slot.request =
      some (.operate item.key operations (some (before.generation item.key))))
    (same : slot.item = item) (write : item.operation ≠ .get) (state : slot.state ≠ .failed)
    (done : (before.write item.key operations (some (before.generation item.key))).1 = .ok view)
    (alone : alone config time before item = slot.finish before) :
    Agrees before stage slot (stage.second config time before (.waiting item)) := by
  rw [Slot.finish, Slot.sendSecond_of_operate request, done, Slot.takeSecond_ok state] at alone
  have goes : ¬ (item.operation = .get ∨ ItemState.secondStepDone = .failed) := by
    rintro (get | failed)
    · exact write get
    · cases failed
  -- Where the batch has written the generation differs; elsewhere the record is the one fetched.
  by_cases written : item.key ∈ stage.written
  · have second : stage.second config time before (.waiting item) =
        (item.failing (.conflict item.key.text (before.generation item.key)), stage) := by
      simp only [Stage.second, alone]
      exact (if_neg goes).trans (if_pos written)
    have sent : slot.sendSecond stage.memory =
        (slot.fail (.conflict item.key.text (before.generation item.key)), stage.memory) := by
      rw [Slot.sendSecond_of_operate request,
        Memory.write_of_stale (tracks.generation_ne written bound), Slot.takeSecond_error state]
      rfl
    rw [second]
    refine ⟨?_, by rw [sent], tracks, Nat.le_succ _⟩
    rw [sent, ← same]
    rfl
  · have second : stage.second config time before (.waiting item) =
        ((slot.written .secondStepDone).result,
          ⟨stage.memory.adopt item.key
            (before.write item.key operations (some (before.generation item.key))).2,
            item.key :: stage.written⟩) := by
      simp only [Stage.second, alone]
      exact (if_neg goes).trans (if_neg written)
    have congr := @Memory.write_congr stage.memory before item.key operations
      (some (before.generation item.key)) (tracks.kept item.key written) tracks.clock
    obtain ⟨reply, record⟩ := congr
    have adopted : (stage.memory.write item.key operations
        (some (before.generation item.key))).2 = stage.memory.adopt item.key
          (before.write item.key operations (some (before.generation item.key))).2 := by
      refine Memory.eq_of_records ?_ (Memory.write_clock ..)
      funext key
      by_cases hk : key = item.key
      · simp only [Memory.adopt, hk, if_true, record]
      · simp only [Memory.adopt, hk, if_false, Memory.write_records_of_ne hk]
    have sent : slot.sendSecond stage.memory = (slot.written .secondStepDone,
        stage.memory.adopt item.key
          (before.write item.key operations (some (before.generation item.key))).2) := by
      rw [Slot.sendSecond_of_operate request, reply, done, Slot.takeSecond_ok state, adopted]
    rw [second]
    refine ⟨by rw [sent], by rw [sent], ?_, Nat.le_refl _⟩
    rw [← adopted]
    exact tracks.write (reply.trans done)

theorem agrees_waiting (config : ClientConfig) (time : UInt64) (h : item.isNativeWrite = false)
    (tracks : stage.Tracks before) (bound : stage.written.length < Memory.generations) :
    Agrees before stage
      (((Slot.prepare config item).fetchFrom before).evaluated time)
      (stage.second config time before (.waiting item)) := by
  have waiting := Slot.waiting_evaluated config time h before
  have alone := alone_other config time h before
  generalize ((Slot.prepare config item).fetchFrom before).evaluated time = slot
    at waiting alone ⊢
  cases waiting with
  | idle request still =>
      have idle (memory : Memory) : slot.sendSecond memory = (slot, memory) :=
        Slot.sendSecond_of_none request
      rw [Slot.finish, idle] at alone
      exact agrees_idle tracks idle alone still
  | poisoned code request state =>
      have idle (memory : Memory) : slot.sendSecond memory = (slot, memory) :=
        Slot.sendSecond_of_failed request state
      rw [Slot.finish, idle] at alone
      exact agrees_idle tracks idle alone (.inr state)
  | bound operations request same write state values =>
      obtain ⟨result, hw⟩ := values
      obtain ⟨view, done⟩ := Memory.write_of_current hw
      exact agrees_bound tracks bound request same write state done alone

theorem thread_second {slots : List Slot} {turns : List Turn}
    (matched : Matched config before slots turns) :
    ∀ {stage : Stage}, stage.Tracks before →
      stage.written.length + waitingCount turns ≤ Memory.generations →
      (thread Slot.sendSecond stage.memory (slots.map (Slot.evaluated time))).1.map
          Slot.result = (thread (Stage.second config time before) stage turns).1 ∧
        (thread Slot.sendSecond stage.memory (slots.map (Slot.evaluated time))).2 =
          (thread (Stage.second config time before) stage turns).2.memory := by
  induction matched with
  | nil => exact fun _ _ => ⟨rfl, rfl⟩
  | taken fetched request _ ih =>
      intro stage tracks bound
      obtain ⟨results, memories⟩ := ih tracks bound
      rw [List.map_cons, Slot.evaluated_of_fetched fetched, thread_cons,
        Slot.sendSecond_of_none request, thread_cons, List.map_cons, results, memories]
      exact ⟨rfl, rfl⟩
  | @waiting item slots turns native _ ih =>
      intro stage tracks bound
      -- The bound leaves room for a write of every item that still waits.
      rw [waitingCount] at bound
      have agrees := agrees_waiting config time native tracks (by omega)
      have length := agrees.length
      obtain ⟨results, memories⟩ := ih agrees.tracks (by omega)
      rw [List.map_cons, thread_cons, thread_cons, List.map_cons, agrees.result, agrees.memory,
        results, memories]
      exact ⟨rfl, rfl⟩

theorem run_staged (config : ClientConfig) (time : UInt64) {items : List Item} (memory : Memory)
    (h : items.length < Memory.generations) :
    (perform config items).run (Memory.storeAt time) memory = staged config time items memory := by
  obtain ⟨memories, matched, tracks, total⟩ :=
    thread_first config time items (Stage.Tracks.start memory)
  have bound : (thread (Stage.first config time) ⟨memory, []⟩ items).2.written.length +
      waitingCount (thread (Stage.first config time) ⟨memory, []⟩ items).1 ≤ Memory.generations :=
    Nat.le_trans total (by rw [List.length_nil]; omega)
  obtain ⟨results, last⟩ := thread_second matched tracks bound
  rw [run_perform, run_secondRound]
  rw [firstRound, memories, results, last]
  rfl

theorem alone_native_failed (h : item.isNativeWrite = true)
    (failed : (alone config time memory item).1.state = .failed) :
    (alone config time memory item).2 = memory := by
  have settled := Slot.settled_sendFirst config h memory
  rw [alone_native config time h] at failed ⊢
  rcases settled.outcome with ⟨-, same⟩ | ⟨state, -⟩
  · exact same
  · exact absurd failed state

def Turn.isIdle : Turn → Bool
  | .taken result => result.state = .failed
  | .waiting _ => true

theorem first_idle (config : ClientConfig) (time : UInt64) (stage : Stage) (item : Item)
    (idle : (stage.first config time item).1.isIdle = true) :
    (stage.first config time item).2 = stage := by
  unfold Stage.first at idle ⊢
  split at idle
  · rename_i h
    have failed : (alone config time stage.memory item).1.state = .failed := of_decide_eq_true idle
    simp only [h, if_true, failed, alone_native_failed h failed]
  · rename_i h
    simp only [h, Bool.false_eq_true, if_false]

theorem second_idle (config : ClientConfig) (time : UInt64) (before : Memory) (stage : Stage)
    (turn : Turn) (failed : (stage.second config time before turn).1.state = .failed) :
    (stage.second config time before turn).2 = stage := by
  cases turn with
  | taken result => rfl
  | waiting item =>
      simp only [Stage.second] at failed ⊢
      split
      · rfl
      · rename_i goes
        split
        · rfl
        · rename_i unwritten
          rw [if_neg goes, if_neg unwritten] at failed
          exact absurd (.inr failed) goes

theorem isIdle_of_second (config : ClientConfig) (time : UInt64) (before : Memory)
    (stage : Stage) {turn : Turn}
    (failed : (stage.second config time before turn).1.state = .failed) : turn.isIdle = true := by
  cases turn with
  | taken result => exact decide_eq_true failed
  | waiting item => rfl

theorem staged_eraseIdx (config : ClientConfig) (time : UInt64) (items : List Item)
    (memory : Memory) (i : Nat) {result : ItemResult}
    (h : (staged config time items memory).1[i]? = some result) (failed : result.state = .failed) :
    staged config time (items.eraseIdx i) memory =
      ((staged config time items memory).1.eraseIdx i, (staged config time items memory).2) := by
  have hr : (thread (Stage.second config time memory)
      (thread (Stage.first config time) ⟨memory, []⟩ items).2
      (thread (Stage.first config time) ⟨memory, []⟩ items).1).1[i]? = some result := h
  have hturn := hr
  rw [getElem?_thread] at hturn
  obtain ⟨turn, ht, rfl⟩ := Option.map_eq_some_iff.1 hturn
  have first := thread_eraseIdx (fun turn => turn.isIdle = true) (first_idle config time)
    ⟨memory, []⟩ items i turn ht (isIdle_of_second config time memory _ failed)
  have second := thread_eraseIdx (fun result => result.state = .failed)
    (second_idle config time memory) _ _ i _ hr failed
  simp only [staged, first, second]

theorem run_perform_staged (config : ClientConfig) (time : UInt64) (items : List Item)
    (memory : Memory) (h : items.length < Memory.generations) :
    (perform config items).run (Memory.storeAt time) memory = staged config time items memory ∧
      ∀ (i : Nat) (result : ItemResult), (staged config time items memory).1[i]? = some result →
        result.state = .failed →
        (perform config (items.eraseIdx i)).run (Memory.storeAt time) memory =
          ((staged config time items memory).1.eraseIdx i,
            (staged config time items memory).2) := by
  refine ⟨run_staged config time memory h, fun i result hi failed => ?_⟩
  have fewer : (items.eraseIdx i).length < Memory.generations :=
    Nat.lt_of_le_of_lt (List.length_eraseIdx_le ..) h
  rw [run_staged config time memory fewer, staged_eraseIdx config time items memory i hi failed]

/-- The put without a query goes first, so the first put with one finds its record changed. -/
theorem run_perform_staged_conflict :
    let one : Key := ⟨"test", "documents", "1"⟩
    let two : Key := ⟨"test", "documents", "2"⟩
    let document : Json := .obj [("a", .array [.nat 1, .nat 2])]
    let memory := ((Memory.empty 7).seed one [("doc", document)]).seed two [("doc", document)]
    let items : List Item := [
      ⟨one, ["doc"], "$.a[*]", .put (.nat 9)⟩,
      ⟨two, ["doc"], "$.a[*]", .put (.nat 9)⟩,
      ⟨one, ["doc"], "$.a[0]", .put (.nat 5)⟩,
      ⟨one, ["doc"], "$.a[*]", .get⟩]
    (perform .standard items).run (Memory.storeAt 9) memory = staged .standard 9 items memory ∧
      (staged .standard 9 items memory).1.map ItemResult.state =
        [.failed, .secondStepDone, .firstStepDone, .secondStepDone] ∧
      (perform .standard (items.eraseIdx 0)).run (Memory.storeAt 9) memory =
        ((staged .standard 9 items memory).1.eraseIdx 0, (staged .standard 9 items memory).2) := by
  intro one two document memory items
  have few : items.length < Memory.generations := by decide
  have states : (staged .standard 9 items memory).1.map ItemResult.state =
      [.failed, .secondStepDone, .firstStepDone, .secondStepDone] := by decide +kernel
  obtain ⟨whole, erased⟩ := run_perform_staged .standard 9 items memory few
  cases hs : (staged .standard 9 items memory).1 with
  | nil => rw [hs] at states; cases states
  | cons result rest =>
      rw [hs] at states
      refine ⟨whole, states, ?_⟩
      rw [← hs]
      exact erased 0 result (by rw [hs]; rfl) (List.cons.inj states).1

end Batch

end RecordPath
