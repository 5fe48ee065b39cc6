import RecordPath.Client.Single
import RecordPath.Proofs.Batch.Slots

namespace RecordPath

namespace Item

def failing (item : Item) (e : DocumentError) : ItemResult :=
  ⟨item.key, .failed, Members.ofList (item.fields.map fun field => (field, .error e))⟩

def done (item : Item) (state : ItemState) : ItemResult :=
  ⟨item.key, state, Members.mapValues .ok (Client.nulls item.fields)⟩

end Item

namespace Batch

def alone (config : ClientConfig) (time : UInt64) (memory : Memory) (item : Item) :
    ItemResult × Memory :=
  let (results, memory) := (perform config [item]).run (Memory.storeAt time) memory
  (results.headD (Slot.prepare config item).result, memory)

namespace Slot

variable {slot : Slot} {item : Item}

theorem result_fail (same : slot.item = item) (e : DocumentError) :
    (slot.fail e).result = item.failing e := by
  rw [← same]
  rfl

theorem report_succeed (slot : Slot) (values : List Json) (state : ItemState) :
    (slot.succeed values state).report =
      Members.mapValues .ok (Members.ofList (slot.item.fields.zip values)) := by
  have pairs : slot.item.fields.zip (values.map Except.ok) =
      (Members.mapValues .ok (slot.item.fields.zip values) : Report) := by
    rw [List.zip_map_right]
    rfl
  rw [succeed, pairs, Members.ofList_mapValues]

theorem result_succeed (same : slot.item = item) (values : List Json) (state : ItemState) :
    (slot.succeed values state).result =
      ⟨item.key, state, Members.mapValues .ok (Members.ofList (item.fields.zip values))⟩ := by
  rw [result, report_succeed, same]
  simp only [succeed, same]

theorem result_written (same : slot.item = item) (state : ItemState) :
    (slot.written state).result = item.done state := by
  have names : item.fields.zip (item.fields.map fun _ => Json.null) =
      item.fields.map fun field => (field, Json.null) :=
    List.map_prod_left_eq_zip.symm
  rw [written, result_succeed same, same, names, Item.done, Client.nulls]

end Slot

variable {config : ClientConfig} {time : UInt64} {item : Item} {memory : Memory}

def Slot.pass (time : UInt64) (memory : Memory) (slot : Slot) : ItemResult × Memory :=
  let first := (slot.fetchFrom memory).sendFirst memory
  (first.1.evaluated time).finish first.2

theorem alone_eq_pass (config : ClientConfig) (time : UInt64) (memory : Memory) (item : Item) :
    alone config time memory item = (Slot.prepare config item).pass time memory := by
  rw [alone, run_perform, run_secondRound]
  rfl

theorem alone_native (config : ClientConfig) (time : UInt64) (h : item.isNativeWrite = true)
    (memory : Memory) :
    alone config time memory item =
      (((Slot.prepare config item).sendFirst memory).1.result,
        ((Slot.prepare config item).sendFirst memory).2) := by
  have settled := Slot.settled_sendFirst config h memory
  rw [alone_eq_pass, Slot.pass, Slot.prepare_native h,
    Slot.evaluated_of_fetched settled.fetched, Slot.finish,
    Slot.sendSecond_of_none settled.request]

theorem alone_other (config : ClientConfig) (time : UInt64) (h : item.isNativeWrite = false)
    (memory : Memory) :
    alone config time memory item =
      (((Slot.prepare config item).fetchFrom memory).evaluated time).finish memory := by
  rw [alone_eq_pass, Slot.pass, Slot.sendFirst_other h]

theorem alone_of_error {e : DocumentError} (h : plan config item = .error e) :
    alone config time memory item = (item.failing e, memory) := by
  have prepared : Slot.prepare config item = (Slot.fresh item none).fail e := by
    rw [Slot.prepare, h]
    rfl
  rw [alone_eq_pass, prepared]
  rfl

theorem prepare_of_plan {planned : Plan} (h : plan config item = .ok planned) :
    Slot.prepare config item = Slot.fresh item (some planned) := by
  rw [Slot.prepare, h]
  rfl

theorem alone_of_write {operations : List FieldOperation}
    (h : plan config item = .ok (.write operations)) :
    (∃ e, memory.write item.key operations none = (.error e, memory) ∧
      alone config time memory item = (item.failing e.classify, memory)) ∨
    ∃ view after, memory.write item.key operations none = (.ok view, after) ∧
      alone config time memory item = (item.done .firstStepDone, after) := by
  rw [alone_eq_pass, prepare_of_plan h, Slot.pass]
  have sent : ((Slot.fresh item (some (.write operations))).fetchFrom memory).sendFirst memory =
      ((Slot.fresh item (some (.write operations))).takeWrite
        (memory.write item.key operations none).1,
        (memory.write item.key operations none).2) := rfl
  rw [sent]
  cases hr : (memory.write item.key operations none).1 with
  | error e =>
      have same := Memory.write_error hr
      refine .inl ⟨e, Prod.ext hr same, ?_⟩
      rw [same]
      exact Prod.ext (Slot.result_fail rfl _) rfl
  | ok view =>
      refine .inr ⟨view, (memory.write item.key operations none).2, Prod.ext hr rfl, ?_⟩
      exact Prod.ext (Slot.result_written rfl _) rfl

theorem alone_of_read {operations : List FieldOperation}
    (h : plan config item = .ok (.read operations)) :
    (∃ e, memory.read item.key operations = .error e ∧
      alone config time memory item = (item.failing e.classify, memory)) ∨
    ∃ view, memory.read item.key operations = .ok view ∧
      alone config time memory item =
        (⟨item.key, .firstStepDone,
          Members.mapValues .ok (Members.ofList (item.fields.zip view.values))⟩, memory) := by
  rw [alone_eq_pass, prepare_of_plan h, Slot.pass]
  have sent : (Slot.fresh item (some (.read operations))).fetchFrom memory =
      (Slot.fresh item (some (.read operations))).takeRead
        (memory.read item.key operations) := rfl
  rw [sent]
  cases memory.read item.key operations with
  | error e => exact .inl ⟨e, rfl, rfl⟩
  | ok view =>
      exact .inr ⟨view, rfl, Prod.ext (Slot.result_succeed rfl view.values .firstStepDone) rfl⟩

def holding (item : Item) (fetches : List FieldOperation) (steps : Location) (residual : Residual)
    (view : View) : Slot :=
  ⟨item, some (.twoPhase fetches steps residual), .firstStepDone, [], some view, none⟩

theorem alone_of_twoPhase {fetches : List FieldOperation} {steps : Location} {residual : Residual}
    (h : plan config item = .ok (.twoPhase fetches steps residual)) :
    (∃ e, memory.read item.key fetches = .error e ∧
      alone config time memory item = (item.failing e.classify, memory)) ∨
    ∃ view, memory.read item.key fetches = .ok view ∧
      alone config time memory item =
        Slot.finish memory ((holding item fetches steps residual view).evaluate steps residual
          view time) := by
  rw [alone_eq_pass, prepare_of_plan h, Slot.pass]
  have sent : (Slot.fresh item (some (.twoPhase fetches steps residual))).fetchFrom memory =
      (Slot.fresh item (some (.twoPhase fetches steps residual))).takeRead
        (memory.read item.key fetches) := rfl
  rw [sent]
  cases memory.read item.key fetches with
  | error e => exact .inl ⟨e, rfl, rfl⟩
  | ok view => exact .inr ⟨view, rfl, rfl⟩

end Batch

end RecordPath
