import RecordPath.Proofs.Batch.Rounds
import RecordPath.Proofs.Members
import RecordPath.Proofs.Outcomes
import RecordPath.Proofs.Store.WriteBack
import RecordPath.Proofs.Store.Writes

namespace RecordPath

namespace Item

def isNative (item : Item) : Bool :=
  match Path.compile item.path with
  | .ok compiled => compiled.residual.isNone
  | .error _ => false

def isNativeWrite (item : Item) : Bool :=
  item.operation.isWrite && item.isNative

end Item

namespace Batch

inductive Planned (item : Item) : Plan → Prop
  | read (operations : List FieldOperation) : item.operation = .get → item.isNative = true →
      operations.length = item.fields.length → Planned item (.read operations)
  | write (operations : List FieldOperation) : item.isNativeWrite = true →
      Planned item (.write operations)
  | twoPhase (steps : Location) (residual : Residual) : item.isNative = false →
      Planned item
        (.twoPhase (item.fields.map (Native.fetchFor item.operation steps)) steps residual)

theorem planned {config : ClientConfig} {item : Item} {planned : Plan}
    (h : plan config item = .ok planned) : Planned item planned := by
  unfold plan at h
  split at h
  · cases h
  · rename_i compiled hc
    split at h
    · cases h
    · split at h
      · rename_i hr
        have native : item.isNative = true := by
          simp only [Item.isNative, hc, hr, Option.isNone_none]
        cases hm : item.fields.mapM fun field =>
            Native.build field compiled.native item.operation config.listPut with
        | error e => simp only [hm, Except.map] at h; cases h
        | ok operations =>
            simp only [hm, Except.map] at h
            cases write : item.operation.isWrite with
            | false =>
                simp only [write, Bool.false_eq_true, if_false] at h
                cases h
                exact .read operations (item.operation.isWrite_eq_false_iff.1 write) native
                  (Outcomes.length_of_mapM hm)
            | true =>
                simp only [write, if_true] at h
                cases h
                exact .write operations (by rw [Item.isNativeWrite, write, native]; rfl)
      · rename_i residual hr
        have native : item.isNative = false := by
          simp only [Item.isNative, hc, hr, Option.isNone_some]
        simp only [Native.mapM_fetch] at h
        cases h
        exact .twoPhase compiled.native residual native

namespace Slot

def fresh (item : Item) (plan : Option Plan) : Slot :=
  ⟨item, plan, .pending, [], none, none⟩

inductive Prepared (item : Item) : Slot → Prop
  | failed (e : DocumentError) : Prepared item ((fresh item none).fail e)
  | read (operations : List FieldOperation) : item.operation = .get →
      Prepared item (fresh item (some (.read operations)))
  | write (operations : List FieldOperation) : item.isNativeWrite = true →
      Prepared item (fresh item (some (.write operations)))
  | twoPhase (steps : Location) (residual : Residual) : item.isNative = false →
      Prepared item (fresh item (some
        (.twoPhase (item.fields.map (Native.fetchFor item.operation steps)) steps residual)))

theorem prepared (config : ClientConfig) (item : Item) : Prepared item (prepare config item) := by
  rw [prepare]
  cases hp : Batch.plan config item with
  | error e => exact .failed e
  | ok plan =>
      cases planned hp with
      | read operations get native _ => exact .read operations get
      | write operations native => exact .write operations native
      | twoPhase steps residual native => exact .twoPhase steps residual native

variable {config : ClientConfig} {item : Item} {slot : Slot} {memory : Memory} {now : UInt64}

theorem fetchFrom_of_none (h : slot.readRequest? = none) : slot.fetchFrom memory = slot := by
  simp only [fetchFrom, h]

theorem evaluated_of_fetched (h : slot.fetched = none) : slot.evaluated now = slot := by
  unfold evaluated
  split
  · rename_i hf
    rw [h] at hf
    cases hf
  · rfl

theorem takeSecond_ok (state : slot.state ≠ .failed) (view : View) :
    slot.takeSecond (.ok view) = slot.written .secondStepDone := by
  simp only [takeSecond, if_neg state]

theorem takeSecond_error (state : slot.state ≠ .failed) (e : StoreError) :
    slot.takeSecond (.error e) = slot.fail e.classify := by
  simp only [takeSecond, if_neg state]

theorem sendSecond_of_none (h : slot.request = none) : slot.sendSecond memory = (slot, memory) := by
  simp only [sendSecond, send, h]

theorem sendSecond_of_failed {key : Key} {code : Int} (h : slot.request = some (.reject key code))
    (state : slot.state = .failed) : slot.sendSecond memory = (slot, memory) := by
  simp only [sendSecond, send, h, Memory.answer, takeSecond, state, if_true]

theorem sendSecond_of_operate {key : Key} {operations : List FieldOperation}
    {expected : Option UInt32} (h : slot.request = some (.operate key operations expected)) :
    slot.sendSecond memory =
      (slot.takeSecond (memory.write key operations expected).1,
        (memory.write key operations expected).2) := by
  simp only [sendSecond, send, h, Memory.answer]

theorem sendFirst_of_none (h : slot.writeRequest? = none) :
    slot.sendFirst memory = (slot, memory) := by
  simp only [sendFirst, send, h]

structure Settled (item : Item) (memory : Memory) (slot : Slot) (after : Memory) : Prop where
  fetched : slot.fetched = none
  request : slot.request = none
  outcome : (slot.state = .failed ∧ after = memory) ∨
    slot.state ≠ .failed ∧ ∃ operations view, (memory.write item.key operations none).1 = .ok view ∧
      after = (memory.write item.key operations none).2

theorem prepare_native (h : item.isNativeWrite = true) (before : Memory) :
    (prepare config item).fetchFrom before = prepare config item := by
  have prepared := prepared config item
  generalize prepare config item = slot at prepared ⊢
  rw [Item.isNativeWrite, Bool.and_eq_true] at h
  refine fetchFrom_of_none ?_
  cases prepared with
  | failed e => rfl
  | read operations get => rw [get] at h; cases h.1
  | write operations native => rfl
  | twoPhase steps residual native => rw [native] at h; cases h.2

theorem settled_sendFirst (config : ClientConfig) (h : item.isNativeWrite = true)
    (memory : Memory) :
    Settled item memory ((prepare config item).sendFirst memory).1
      ((prepare config item).sendFirst memory).2 := by
  have prepared := prepared config item
  generalize prepare config item = slot at prepared ⊢
  rw [Item.isNativeWrite, Bool.and_eq_true] at h
  cases prepared with
  | failed e => exact ⟨rfl, rfl, .inl ⟨rfl, rfl⟩⟩
  | read operations get => rw [get] at h; cases h.1
  | write operations native =>
      have sent : (fresh item (some (.write operations))).sendFirst memory =
          ((fresh item (some (.write operations))).takeWrite
            (memory.write item.key operations none).1,
            (memory.write item.key operations none).2) := rfl
      rw [sent]
      cases hr : (memory.write item.key operations none).1 with
      | error e => exact ⟨rfl, rfl, .inl ⟨rfl, Memory.write_error hr⟩⟩
      | ok view => exact ⟨rfl, rfl, .inr ⟨by rintro ⟨⟩, operations, view, hr, rfl⟩⟩
  | twoPhase steps residual native => rw [native] at h; cases h.2

theorem sendFirst_other (h : item.isNativeWrite = false) (before memory : Memory) :
    ((prepare config item).fetchFrom before).sendFirst memory =
      ((prepare config item).fetchFrom before, memory) := by
  have prepared := prepared config item
  generalize prepare config item = slot at prepared ⊢
  refine sendFirst_of_none ?_
  rw [writeRequest?_fetchFrom]
  cases prepared with
  | write operations native => rw [native] at h; cases h
  | _ => rfl

theorem writes_cons_ok (steps : Location) (field : String) (value : Json)
    (rest : List (String × Outcome)) :
    writes steps ((field, .ok value) :: rest) =
      (Native.writeBack steps field value :: (writes steps rest).1, (writes steps rest).2) := by
  simp only [writes, Except.bind, Native.storeSubtree_eq]

theorem writes_cons_error (steps : Location) (field : String) (e : DocumentError)
    (rest : List (String × Outcome)) :
    writes steps ((field, .error e) :: rest) =
      ((writes steps rest).1, (field, e) :: (writes steps rest).2) := by
  simp only [writes, Except.bind]

theorem mem_writes_errors {steps : Location} {field : String} {e : DocumentError}
    {outcomes : List (String × Outcome)} :
    (field, e) ∈ (writes steps outcomes).2 ↔ (field, .error e) ∈ outcomes := by
  induction outcomes with
  | nil => exact iff_of_false List.not_mem_nil List.not_mem_nil
  | cons outcome rest ih =>
      obtain ⟨other, result⟩ := outcome
      cases result with
      | error e' => simp [writes_cons_error, ih]
      | ok value => simp [writes_cons_ok, ih]

theorem writes_mapValues (steps : Location) (outputs : List (String × Json)) :
    writes steps (Members.mapValues .ok outputs) =
      (outputs.map fun output => Native.writeBack steps output.1 output.2, []) := by
  induction outputs with
  | nil => rfl
  | cons output rest ih => rw [Members.mapValues_cons, writes_cons_ok, ih, List.map_cons]

theorem exists_outputs {outcomes : List (String × Outcome)}
    (h : ∀ field e, (field, .error e) ∉ outcomes) :
    ∃ outputs : List (String × Json), outcomes = Members.mapValues .ok outputs := by
  induction outcomes with
  | nil => exact ⟨[], rfl⟩
  | cons outcome rest ih =>
      obtain ⟨field, result⟩ := outcome
      obtain ⟨outputs, rfl⟩ := ih fun other e he => h other e (List.mem_cons_of_mem _ he)
      cases result with
      | error e => exact absurd List.mem_cons_self (h field e)
      | ok value => exact ⟨(field, value) :: outputs, rfl⟩

inductive Waiting (item : Item) (before : Memory) (slot : Slot) : Prop
  | idle : slot.request = none → item.operation = .get ∨ slot.state = .failed →
      Waiting item before slot
  | poisoned (code : Int) : slot.request = some (.reject item.key code) → slot.state = .failed →
      Waiting item before slot
  | bound (operations : List FieldOperation) :
      slot.request = some (.operate item.key operations (some (before.generation item.key))) →
      slot.item = item → item.operation ≠ .get → slot.state ≠ .failed →
      (∃ result, FieldOperation.writeAll
        ((before.records item.key).getD .absent).bins operations = .ok result) →
      Waiting item before slot

theorem waiting_evaluateWrite {steps : Location} {view : View} {outcomes : List (String × Outcome)}
    {record : Record} (item_eq : slot.item = item) (write : item.operation ≠ .get)
    (state : slot.state ≠ .failed) (found : memory.records item.key = some record)
    (stamp : view.stamp = record.stamp)
    (fetched : ∀ field ∈ outcomes.map Prod.fst,
      ∃ value, FieldOperation.read record.bins (Native.strictFetch field steps) = .ok value) :
    Waiting item memory (slot.evaluateWrite steps view.stamp outcomes) := by
  unfold evaluateWrite
  split
  · rename_i operations hw
    have succeeded (field : String) (e : DocumentError) : (field, .error e) ∉ outcomes := by
      intro failed
      have listed : (field, e) ∈ (writes steps outcomes).2 := mem_writes_errors.2 failed
      rw [hw] at listed
      cases listed
    obtain ⟨outputs, rfl⟩ := exists_outputs succeeded
    rw [writes_mapValues] at hw
    have operations_eq : operations =
        outputs.map fun output => Native.writeBack steps output.1 output.2 :=
      (congrArg Prod.fst hw).symm
    rw [Members.map_fst_mapValues] at fetched
    have done : ∃ result, FieldOperation.writeAll record.bins
        (outputs.map fun output => Native.writeBack steps output.1 output.2) = .ok result :=
      Native.writeAll_of_fetch steps outputs fun output ho =>
        fetched output.1 (List.mem_map_of_mem ho)
    have generation : memory.generation item.key = view.stamp.generation := by
      rw [Memory.generation, found, stamp]
      rfl
    refine .bound operations ?_ item_eq write state ?_
    · rw [generation, ← item_eq]
      rfl
    · rw [found, operations_eq]
      exact done
  · refine .poisoned poisoned ?_ rfl
    rw [← item_eq]
    rfl

theorem waiting_evaluate {steps : Location} {residual : Residual} {view : View}
    (item_eq : slot.item = item) (state : slot.state ≠ .failed) (idle : slot.request = none)
    (h : memory.read item.key (item.fields.map (Native.fetchFor item.operation steps)) =
      .ok view) :
    Waiting item memory (slot.evaluate steps residual view now) := by
  obtain ⟨record, found, stamp, values⟩ := Memory.read_ok h
  simp only [evaluate, item_eq]
  split
  · rename_i write
    refine waiting_evaluateWrite item_eq (item.operation.isWrite_iff.1 write) state found stamp ?_
    intro field hf
    have listed : field ∈ item.fields := by
      rw [List.map_map] at hf
      obtain ⟨pair, hp, rfl⟩ := List.mem_map.1 hf
      exact (List.of_mem_zip hp).1
    rw [Memory.readAll_eq_mapM] at values
    have fetched := Outcomes.exists_of_mapM values _ (List.mem_map_of_mem listed)
    simpa only [Native.fetchFor, write, if_true] using fetched
  · rename_i read
    have get := item.operation.isWrite_eq_false_iff.1 (Bool.eq_false_iff.2 read)
    exact .idle idle (.inl get)

theorem waiting_evaluated (config : ClientConfig) (time : UInt64) (h : item.isNativeWrite = false)
    (before : Memory) :
    Waiting item before (((prepare config item).fetchFrom before).evaluated time) := by
  have prepared := prepared config item
  generalize prepare config item = slot at prepared ⊢
  cases prepared with
  | failed e =>
      rw [fetchFrom_of_none rfl, evaluated_of_fetched rfl]
      exact .idle rfl (.inr rfl)
  | read operations get =>
      have sent : (fresh item (some (.read operations))).fetchFrom before =
          (fresh item (some (.read operations))).takeRead (before.read item.key operations) := rfl
      rw [sent]
      cases before.read item.key operations with
      | error e => exact .idle rfl (.inl get)
      | ok view => exact .idle rfl (.inl get)
  | write operations native => rw [native] at h; cases h
  | twoPhase steps residual native =>
      have sent (fetches : List FieldOperation) :
          (fresh item (some (.twoPhase fetches steps residual))).fetchFrom before =
            (fresh item (some (.twoPhase fetches steps residual))).takeRead
              (before.read item.key fetches) := rfl
      rw [sent]
      cases hr : before.read item.key
          (item.fields.map (Native.fetchFor item.operation steps)) with
      | error e => exact .idle rfl (.inr rfl)
      | ok view => exact waiting_evaluate rfl (by rintro ⟨⟩) rfl hr

end Slot

end Batch

end RecordPath
