import RecordPath.Proofs.Batch.Slots
import RecordPath.Proofs.Client.Uninterrupted

namespace RecordPath.Batch

variable {memory : Memory} {key : Key}

theorem get?_poisonedReport (fields : List String) (field : String) :
    ∀ (errors : Members DocumentError) (report : Report),
      Members.get? field (Slot.poisonedReport fields errors report) =
        match fields.count field with
        | 0 => Members.get? field report
        | 1 => some (.error ((Members.get? field errors).getD (.itemAborted poisoned)))
        | _ => some (.error (.itemAborted poisoned)) := by
  induction fields with
  | nil => exact fun _ _ => rfl
  | cons name rest ih =>
      intro errors report
      rw [Slot.poisonedReport, ih]
      by_cases hn : field = name
      · -- This listing takes the error out, so a later one does not find it.
        subst hn
        rw [List.count_cons_self, Members.get?_insert_self, Members.get?_erase_self]
        rcases rest.count field with _ | _ | _ <;> rfl
      · rw [List.count_cons_of_ne (Ne.symm hn), Members.get?_insert_of_ne hn,
          Members.get?_erase_of_ne hn]

theorem evaluateWrite_of_error {slot : Slot} {steps : Location} {stamp : Stamp} {field : String}
    {e : DocumentError} {results : List (String × Outcome)} (h : (field, .error e) ∈ results) :
    slot.evaluateWrite steps stamp results =
      slot.poison (Members.ofList (Slot.writes steps results).2) := by
  have failed : (field, e) ∈ (Slot.writes steps results).2 := Slot.mem_writes_errors.2 h
  unfold Slot.evaluateWrite
  split
  · rename_i hw
    rw [hw] at failed
    cases failed
  · rename_i hw
    rw [hw]

theorem evaluateWrite_mapValues {slot : Slot} {steps : Location} {stamp : Stamp}
    {outputs : List (String × Json)} :
    slot.evaluateWrite steps stamp (Members.mapValues .ok outputs) =
      { slot with request := some ((Guard.capture slot.item.key stamp).request
        (outputs.map fun output => Native.writeBack steps output.1 output.2)) } := by
  simp only [Slot.evaluateWrite, Slot.writes_mapValues]

def Coherent (results : List (String × Outcome)) : Prop :=
  ∀ field outcome other, (field, outcome) ∈ results → (field, other) ∈ results → outcome = other

theorem coherent_outcomes {residual : Residual} {record : RecordContext} {fields : List String}
    {operation : Operation} {steps : Location} {view : View}
    (h : memory.read key (fields.map (Native.fetchFor operation steps)) = .ok view) :
    Coherent (Client.outcomes residual record operation (fields.zip view.values)) := by
  obtain ⟨value, hv⟩ := Client.exists_values_of_read h
  have pairs : fields.zip view.values = fields.map fun field => (field, value field) := by
    rw [hv]
    exact List.map_prod_left_eq_zip.symm
  rw [pairs, Client.outcomes, Members.mapValues, List.map_map]
  intro field outcome other ho hp
  obtain ⟨name, -, hn⟩ := List.mem_map.1 ho
  obtain ⟨name', -, hn'⟩ := List.mem_map.1 hp
  cases hn
  cases hn'
  rfl

theorem get?_poisoned_iff {steps : Location} {fields : List String}
    {results : List (String × Outcome)} {field : String} {e : DocumentError}
    (coherent : Coherent results) (ofQuery : e.isOfQuery = true) :
    Members.get? field (Slot.poisonedReport fields
        (Members.ofList (Slot.writes steps results).2) []) = some (.error e) ↔
      fields.count field = 1 ∧ (field, .error e) ∈ results := by
  have aborted : e ≠ .itemAborted poisoned := by
    rintro rfl
    cases ofQuery
  have own : Members.get? field (Members.ofList (Slot.writes steps results).2) = some e ↔
      (field, .error e) ∈ results := by
    constructor
    · exact fun h => Slot.mem_writes_errors.1 (Members.mem_of_get?_ofList h)
    · intro h
      refine Members.get?_ofList_of_mem (Slot.mem_writes_errors.2 h) fun e' he => ?_
      exact Except.error.inj (coherent field _ _ (Slot.mem_writes_errors.1 he) h)
  rw [get?_poisonedReport, ← own]
  generalize Members.get? field (Members.ofList (Slot.writes steps results).2) = error?
  rcases fields.count field with _ | _ | n
  · simp [Members.get?]
  · cases error? with
    | none => simp [Ne.symm aborted]
    | some e' => simp
  · simp [Ne.symm aborted]

end RecordPath.Batch
