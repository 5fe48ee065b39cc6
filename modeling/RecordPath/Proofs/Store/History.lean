import RecordPath.Proofs.Store.Writes

namespace RecordPath

namespace FieldOperation

variable {bins changed : Members Json} {field name : String} {value : Json}
  {operation : FieldOperation} {operations : List FieldOperation} {values : List Json}
  {e : StoreError}

inductive Applied : Members Json → List FieldOperation → List Json → Members Json → Prop
  | nil (bins : Members Json) : Applied bins [] [] bins
  | cons {bins next changed : Members Json} {operation : FieldOperation}
      {rest : List FieldOperation} {value : Json} {values : List Json} :
      write bins operation = .ok (value, next) → Applied next rest values changed →
      Applied bins (operation :: rest) (value :: values) changed

inductive Fails : Members Json → List FieldOperation → StoreError → Prop
  | here {bins : Members Json} {operation : FieldOperation} {e : StoreError}
      (rest : List FieldOperation) :
      write bins operation = .error e → Fails bins (operation :: rest) e
  | later {bins next : Members Json} {operation : FieldOperation} {rest : List FieldOperation}
      {value : Json} {e : StoreError} :
      write bins operation = .ok (value, next) → Fails next rest e →
      Fails bins (operation :: rest) e

theorem writeAll_cases (bins : Members Json) (operations : List FieldOperation) :
    (∃ values changed, writeAll bins operations = .ok (values, changed) ∧
      Applied bins operations values changed) ∨
    ∃ e, writeAll bins operations = .error e ∧ Fails bins operations e := by
  induction operations generalizing bins with
  | nil => exact .inl ⟨[], bins, rfl, .nil bins⟩
  | cons operation rest ih =>
      cases hw : write bins operation with
      | error e => exact .inr ⟨e, by simp only [writeAll, hw], .here rest hw⟩
      | ok result =>
          obtain ⟨value, next⟩ := result
          rcases ih next with ⟨values, changed, hr, applied⟩ | ⟨e, hr, fails⟩
          · refine .inl ⟨value :: values, changed, ?_, .cons hw applied⟩
            simp only [writeAll, hw, hr]
            rfl
          · refine .inr ⟨e, ?_, .later hw fails⟩
            simp only [writeAll, hw, hr]
            rfl

theorem applied_of_writeAll (h : writeAll bins operations = .ok (values, changed)) :
    Applied bins operations values changed := by
  rcases writeAll_cases bins operations with ⟨_, _, written, applied⟩ | ⟨e, failed, -⟩
  · cases written.symm.trans h
    exact applied
  · cases failed.symm.trans h

theorem fails_of_writeAll (h : writeAll bins operations = .error e) :
    Fails bins operations e := by
  rcases writeAll_cases bins operations with ⟨_, _, written, -⟩ | ⟨_, failed, fails⟩
  · cases written.symm.trans h
  · cases failed.symm.trans h
    exact fails

theorem Applied.length_eq (h : Applied bins operations values changed) :
    values.length = operations.length := by
  induction h with
  | nil => rfl
  | cons _ _ ih => rw [List.length_cons, ih, List.length_cons]

theorem get?_clearField_of_ne (h : name ≠ field) :
    Members.get? name (clearField bins field) = Members.get? name bins := by
  unfold clearField
  split
  · rfl
  · split
    · exact Members.get?_insert_of_ne h _ bins
    · exact Members.get?_erase_of_ne h bins

theorem get?_writeInside_of_ne {root : Json} {context : Location} {action : WriteAction}
    (written : writeInside bins field root context action = .ok (value, changed))
    (h : name ≠ field) : Members.get? name changed = Members.get? name bins := by
  unfold writeInside at written
  split at written
  · cases written
  · split at written
    · cases written
    · cases written
      exact Members.get?_insert_of_ne h _ bins

theorem get?_writeAbsent_of_ne {context : Location} {action : WriteAction}
    (written : writeAbsent bins field context action = .ok (value, changed))
    (h : name ≠ field) : Members.get? name changed = Members.get? name bins := by
  unfold writeAbsent at written
  split at written
  · cases written
    rfl
  · split at written
    · exact get?_writeInside_of_ne written h
    · cases written
  · cases written

theorem get?_writeField_of_ne {context : Location} {action : WriteAction}
    (written : writeField bins field context action = .ok (value, changed))
    (h : name ≠ field) : Members.get? name changed = Members.get? name bins := by
  unfold writeField at written
  split at written
  · cases written
    exact Members.get?_insert_of_ne h _ bins
  · cases written
    exact get?_clearField_of_ne h
  · split at written
    · exact get?_writeInside_of_ne written h
    · exact get?_writeAbsent_of_ne written h

theorem get?_write_of_ne (written : write bins operation = .ok (value, changed))
    (h : name ≠ operation.field) : Members.get? name changed = Members.get? name bins := by
  unfold write at written
  split at written
  · cases hr : readInWrite bins operation.field operation.context _ with
    | error e =>
        rw [hr] at written
        cases written
    | ok found =>
        rw [hr] at written
        cases written
        rfl
  · exact get?_writeField_of_ne written h

theorem Applied.get?_of_not_mem (applied : Applied bins operations values changed)
    (h : name ∉ operations.map FieldOperation.field) :
    Members.get? name changed = Members.get? name bins := by
  induction applied with
  | nil => rfl
  | cons written _ ih =>
      rw [List.map_cons, List.mem_cons, not_or] at h
      rw [ih h.2, get?_write_of_ne written h.1]

end FieldOperation

inductive StoreCall where
  | read (request : ReadRequest)
  | write (key : Key) (operations : List FieldOperation) (expected : Option UInt32)
  | batchRead (requests : List ReadRequest)
  | batchWrite (requests : List WriteRequest)
  | setClock (clock : UInt64)

inductive StoreRequest where
  | read (request : ReadRequest)
  | write (request : WriteRequest)
  | setClock (clock : UInt64)

structure Served where
  request : StoreRequest
  reply : Option Reply
  clock : UInt64

namespace StoreCall

def requests : StoreCall → List StoreRequest
  | .read request => [.read request]
  | .write key operations expected => [.write (.operate key operations expected)]
  | .batchRead requests => requests.map .read
  | .batchWrite requests => requests.map .write
  | .setClock clock => [.setClock clock]

end StoreCall

namespace Served

def isWriteTo (key : Key) (served : Served) : Bool :=
  match served.request, served.reply with
  | .write (.operate other _ _), some (.ok _) => decide (other = key)
  | _, _ => false

end Served

namespace Memory

variable {memory next final : Memory} {key : Key} {operations : List FieldOperation}
  {expected : Option UInt32} {served : Served} {run : List Served}

def perform (memory : Memory) : StoreCall → List Reply × Memory
  | .read request =>
      let (reply, memory) := store.read request.key request.operations memory
      ([reply], memory)
  | .write key operations expected =>
      let (reply, memory) := store.write key operations expected memory
      ([reply], memory)
  | .batchRead requests => store.batchRead requests memory
  | .batchWrite requests => store.batchWrite requests memory
  | .setClock clock => ([], { memory with clock })

def performAll (memory : Memory) : List StoreCall → List (List Reply) × Memory
  | [] => ([], memory)
  | call :: calls =>
      let (replies, memory) := memory.perform call
      let (rest, memory) := memory.performAll calls
      (replies :: rest, memory)

def fields (memory : Memory) (key : Key) : Members Json :=
  ((memory.records key).getD .absent).bins

def lastUpdate? (memory : Memory) (key : Key) : Option UInt64 :=
  (memory.records key).map fun record => record.stamp.lastUpdate

structure Effect (memory : Memory) (key : Key) (operations : List FieldOperation) (view : View)
    (next : Memory) : Prop where
  applied : FieldOperation.Applied (memory.fields key) operations view.values (next.fields key)
  one : view.values.length = operations.length
  stamp : view.stamp = ⟨memory.generation key + 1, memory.clock⟩
  record : next.records key = some ⟨next.fields key, view.stamp⟩
  unnamed : ∀ name, name ∉ operations.map FieldOperation.field →
    next.bin? key name = memory.bin? key name
  others : ∀ other, other ≠ key → next.records other = memory.records other
  clock : next.clock = memory.clock

def IsCurrent (memory : Memory) (key : Key) (expected : Option UInt32) : Prop :=
  ∀ generation, expected = some generation → memory.generation key = generation

inductive Step : Memory → Served → Memory → Prop
  | read (memory : Memory) (request : ReadRequest) :
      Step memory
        ⟨.read request, some (memory.read request.key request.operations), memory.clock⟩ memory
  | rejected (memory : Memory) (key : Key) (code : Int) :
      Step memory
        ⟨.write (.reject key code), some (.error (.refused key.text code)), memory.clock⟩ memory
  | stale {memory : Memory} {key : Key} {generation : UInt32} (operations : List FieldOperation) :
      memory.generation key ≠ generation →
      Step memory ⟨.write (.operate key operations (some generation)),
        some (.error (.stale key.text (memory.generation key) generation)), memory.clock⟩ memory
  | failed {memory : Memory} {key : Key} {operations : List FieldOperation}
      {expected : Option UInt32} {e : StoreError} :
      memory.IsCurrent key expected → FieldOperation.Fails (memory.fields key) operations e →
      Step memory
        ⟨.write (.operate key operations expected), some (.error e), memory.clock⟩ memory
  | written {memory next : Memory} {key : Key} {operations : List FieldOperation}
      {expected : Option UInt32} {view : View} :
      memory.IsCurrent key expected → Effect memory key operations view next →
      Step memory ⟨.write (.operate key operations expected), some (.ok view), memory.clock⟩ next
  | setClock (memory : Memory) (clock : UInt64) :
      Step memory ⟨.setClock clock, none, memory.clock⟩ { memory with clock }

inductive Run : Memory → List Served → Memory → Prop
  | nil (memory : Memory) : Run memory [] memory
  | cons {memory next final : Memory} {served : Served} {rest : List Served} :
      Step memory served next → Run next rest final → Run memory (served :: rest) final

section Step

theorem isCurrent_of_not_stale (h : memory.isStale key expected = false) :
    memory.IsCurrent key expected := by
  rintro generation rfl
  exact bne_eq_false_iff_eq.1 h

theorem bin?_eq (memory : Memory) (key : Key) (name : String) :
    memory.bin? key name = Members.get? name (memory.fields key) := by
  rw [bin?, fields]
  cases memory.records key <;> rfl

theorem effect_set {values : List Json} {changed : Members Json}
    (h : FieldOperation.Applied (memory.fields key) operations values changed) :
    Effect memory key operations ⟨values, memory.nextStamp ((memory.records key).getD .absent)⟩
      (memory.set key ⟨changed, memory.nextStamp ((memory.records key).getD .absent)⟩) := by
  have record := memory.set_records_self key
    ⟨changed, memory.nextStamp ((memory.records key).getD .absent)⟩
  have after : (memory.set key
      ⟨changed, memory.nextStamp ((memory.records key).getD .absent)⟩).fields key = changed := by
    rw [fields, record]
    rfl
  refine ⟨?_, h.length_eq, rfl, ?_, fun name hn => ?_, fun other ho => ?_, rfl⟩
  · rw [after]
    exact h
  · rw [after]
    exact record
  · rw [bin?_eq, bin?_eq, after]
    exact h.get?_of_not_mem hn
  · exact set_records_of_ne ho

theorem step_write (memory : Memory) (key : Key) (operations : List FieldOperation)
    (expected : Option UInt32) :
    Step memory ⟨.write (.operate key operations expected),
        some (memory.write key operations expected).1, memory.clock⟩
      (memory.write key operations expected).2 := by
  rcases write_cases memory key operations expected with
    ⟨stale, hw⟩ | ⟨e, current, fails, hw⟩ | ⟨values, changed, current, applies, hw⟩
  · rw [hw]
    cases expected with
    | none => cases stale
    | some generation => exact .stale operations (bne_iff_ne.1 stale)
  · rw [hw]
    exact .failed (isCurrent_of_not_stale current) (FieldOperation.fails_of_writeAll fails)
  · rw [hw]
    exact .written (isCurrent_of_not_stale current)
      (effect_set (FieldOperation.applied_of_writeAll applies))

theorem step_answer (memory : Memory) (request : WriteRequest) :
    Step memory ⟨.write request, some (memory.answer request).1, memory.clock⟩
      (memory.answer request).2 := by
  cases request with
  | operate key operations expected => exact step_write memory key operations expected
  | reject key code => exact .rejected memory key code

theorem Run.append {more : List Served} {last : Memory} (first : Run memory run final)
    (second : Run final more last) : Run memory (run ++ more) last := by
  induction first with
  | nil => exact second
  | cons step _ ih => exact .cons step (ih second)

end Step

section Calls

def Serves (memory : Memory) (requests : List StoreRequest) (replies : List Reply)
    (final : Memory) (run : List Served) : Prop :=
  Run memory run final ∧ run.map Served.request = requests ∧
    run.filterMap Served.reply = replies

theorem serves_reads (memory : Memory) (requests : List ReadRequest) :
    ∃ run, Serves memory (requests.map .read)
      (requests.map fun request => memory.read request.key request.operations) memory run := by
  induction requests with
  | nil => exact ⟨[], .nil memory, rfl, rfl⟩
  | cons request rest ih =>
      obtain ⟨run, steps, asked, replies⟩ := ih
      refine ⟨_ :: run, .cons (.read memory request) steps, ?_, ?_⟩
      · rw [List.map_cons, List.map_cons, asked]
      · simp only [List.filterMap_cons, replies, List.map_cons]

theorem serves_answerAll (memory : Memory) (requests : List WriteRequest) :
    ∃ run, Serves memory (requests.map .write) (memory.answerAll requests).1
      (memory.answerAll requests).2 run := by
  induction requests generalizing memory with
  | nil => exact ⟨[], .nil memory, rfl, rfl⟩
  | cons request rest ih =>
      obtain ⟨run, steps, asked, replies⟩ := ih (memory.answer request).2
      refine ⟨_ :: run, .cons (step_answer memory request) steps, ?_, ?_⟩
      · rw [List.map_cons, List.map_cons, asked]
      · simp only [List.filterMap_cons, replies]
        rfl

theorem serves_perform (memory : Memory) (call : StoreCall) :
    ∃ run, Serves memory call.requests (memory.perform call).1 (memory.perform call).2 run := by
  cases call with
  | read request => exact ⟨[_], .cons (.read memory request) (.nil memory), rfl, rfl⟩
  | write key operations expected =>
      exact ⟨[_], .cons (step_write memory key operations expected) (.nil _), rfl, rfl⟩
  | batchRead requests => exact serves_reads memory requests
  | batchWrite requests => exact serves_answerAll memory requests
  | setClock clock => exact ⟨[_], .cons (.setClock memory clock) (.nil _), rfl, rfl⟩

theorem serves_performAll (memory : Memory) (calls : List StoreCall) :
    ∃ run, Serves memory (calls.flatMap StoreCall.requests) (memory.performAll calls).1.flatten
      (memory.performAll calls).2 run := by
  induction calls generalizing memory with
  | nil => exact ⟨[], .nil memory, rfl, rfl⟩
  | cons call calls ih =>
      obtain ⟨first, steps, asked, replies⟩ := serves_perform memory call
      obtain ⟨rest, more, others, answers⟩ := ih (memory.perform call).2
      refine ⟨first ++ rest, steps.append more, ?_, ?_⟩
      · rw [List.map_append, asked, others, List.flatMap_cons]
      · rw [List.filterMap_append, replies, answers]
        rfl

end Calls

section Count

theorem lastUpdate?_congr (h : next.records key = memory.records key) :
    next.lastUpdate? key = memory.lastUpdate? key := by
  rw [lastUpdate?, h, lastUpdate?]

theorem Step.cases_of_key (h : Step memory served next) (key : Key) :
    (served.isWriteTo key = false ∧ next.records key = memory.records key) ∨
    (served.isWriteTo key = true ∧ next.generation key = memory.generation key + 1 ∧
      next.lastUpdate? key = some served.clock) := by
  cases h with
  | read => exact .inl ⟨rfl, rfl⟩
  | rejected => exact .inl ⟨rfl, rfl⟩
  | stale => exact .inl ⟨rfl, rfl⟩
  | failed => exact .inl ⟨rfl, rfl⟩
  | setClock => exact .inl ⟨rfl, rfl⟩
  | @written _ other operations expected view current effect =>
      by_cases hk : other = key
      · subst hk
        refine .inr ⟨decide_eq_true rfl, ?_, ?_⟩
        · rw [generation, effect.record, Option.getD_some, effect.stamp]
        · rw [lastUpdate?, effect.record, Option.map_some, effect.stamp]
      · exact .inl ⟨decide_eq_false hk, effect.others key fun e => hk e.symm⟩

theorem Run.generation (h : Run memory run final) (key : Key) :
    (final.generation key).toNat =
      ((memory.generation key).toNat + run.countP (Served.isWriteTo key)) % generations := by
  induction h with
  | nil memory => exact (Nat.mod_eq_of_lt (memory.generation key).toNat_lt).symm
  | @cons memory next final served rest step _ ih =>
      rcases step.cases_of_key key with ⟨other, same⟩ | ⟨here, grown, -⟩
      · rw [ih, generation_congr same, List.countP_cons_of_neg (by simp [other])]
      · rw [ih, grown, List.countP_cons_of_pos here, UInt32.toNat_add, UInt32.toNat_one,
          generations, Nat.mod_add_mod]
        congr 1
        omega

theorem Run.lastUpdate? (h : Run memory run final) (key : Key) :
    final.lastUpdate? key =
      ((run.filter (Served.isWriteTo key)).getLast?.map Served.clock).or
        (memory.lastUpdate? key) := by
  induction h with
  | nil => rfl
  | @cons memory next final served rest step _ ih =>
      rcases step.cases_of_key key with ⟨other, same⟩ | ⟨here, -, time⟩
      · rw [ih, lastUpdate?_congr same, List.filter_cons_of_neg (by simp [other])]
      · rw [ih, time, List.filter_cons_of_pos here, List.getLast?_cons]
        cases (rest.filter (Served.isWriteTo key)).getLast? <;> rfl

end Count

theorem performAll_run (memory : Memory) (calls : List StoreCall) :
    ∃ run, Run memory run (memory.performAll calls).2 ∧
      run.map Served.request = calls.flatMap StoreCall.requests ∧
      run.filterMap Served.reply = (memory.performAll calls).1.flatten ∧
      ∀ key,
        ((memory.performAll calls).2.generation key).toNat =
          ((memory.generation key).toNat + run.countP (Served.isWriteTo key)) % generations ∧
        (memory.performAll calls).2.lastUpdate? key =
          ((run.filter (Served.isWriteTo key)).getLast?.map Served.clock).or
            (memory.lastUpdate? key) := by
  obtain ⟨run, steps, asked, replies⟩ := serves_performAll memory calls
  exact ⟨run, steps, asked, replies, fun key => ⟨steps.generation key, steps.lastUpdate? key⟩⟩

end Memory

end RecordPath
