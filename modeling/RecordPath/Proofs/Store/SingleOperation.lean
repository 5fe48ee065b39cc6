import RecordPath.Proofs.Store.Addressing
import RecordPath.Proofs.Store.History

namespace RecordPath

namespace Memory

open FieldOperation

variable {memory : Memory} {key : Key} {field : String} {steps : Location}
  {bins other : Members Json} {root : Json} {record : Record} {single : FieldOperation}

def value? (memory : Memory) (key : Key) (field : String) (steps : Location) : Option Json :=
  (memory.records key).bind fun record => (document record.bins field).get? steps

def written (memory : Memory) (key : Key) (bins : Members Json) : Memory :=
  memory.set key ⟨bins, memory.nextStamp ((memory.records key).getD .absent)⟩

structure SameBeside (key : Key) (field : String) (before after : Memory) : Prop where
  records : ∀ other, other ≠ key → after.records other = before.records other
  fields : ∀ name, name ≠ field → after.bin? key name = before.bin? key name

def SameBins (a b : Memory) : Prop :=
  ∀ key, (a.records key).map Record.bins = (b.records key).map Record.bins

theorem fields_written : (memory.written key bins).fields key = bins := by
  rw [fields, written, set_records_self]
  rfl

theorem value?_written :
    (memory.written key bins).value? key field steps = (document bins field).get? steps := by
  rw [value?, written, set_records_self]
  rfl

theorem get?_of_value? (there : memory.value? key field steps = some root) :
    (document (memory.fields key) field).get? steps = some root := by
  obtain ⟨record, found, read⟩ := Option.bind_eq_some_iff.1 there
  rw [fields, found]
  exact read

theorem value?_of_inside (inside : steps ≠ []) :
    memory.value? key field steps = (document (memory.fields key) field).get? steps := by
  rw [value?, fields]
  cases memory.records key with
  | some record => rfl
  | none =>
      cases steps with
      | nil => exact absurd rfl inside
      | cons step rest => cases step <;> rfl

theorem value?_of_present (present : memory.bin? key field = some root) :
    memory.value? key field steps = root.get? steps := by
  obtain ⟨record, found, there⟩ := Option.bind_eq_some_iff.1 present
  rw [value?, found, Option.bind_some, document_of_present there]

theorem sameBeside_refl (key : Key) (field : String) (memory : Memory) :
    SameBeside key field memory memory :=
  ⟨fun _ _ => rfl, fun _ _ => rfl⟩

theorem sameBeside_written
    (kept : ∀ name, name ≠ field → Members.get? name bins = Members.get? name (memory.fields key)) :
    SameBeside key field memory (memory.written key bins) where
  records _ apart := set_records_of_ne apart
  fields name apart := by rw [bin?_eq, bin?_eq, fields_written, kept name apart]

theorem sameBins_written_written :
    (memory.written key bins).SameBins ((memory.written key other).written key bins) := by
  intro k
  by_cases same : k = key
  · subst same
    rw [written, written, set_records_self, set_records_self]
    rfl
  · rw [written, written, set_records_of_ne same, set_records_of_ne same, written,
      set_records_of_ne same]

theorem sameBins_written_fields (found : memory.records key = some record) :
    memory.SameBins (memory.written key (memory.fields key)) := by
  intro k
  by_cases same : k = key
  · subst same
    rw [written, set_records_self, fields, found]
    rfl
  · rw [written, set_records_of_ne same]

theorem read_single (reads : single.action.isWrite = false) :
    memory.read key [single] =
      match memory.records key with
      | none => .error (.missingRecord key.text)
      | some record => (FieldOperation.read record.bins single).map fun value =>
          ⟨[value], record.stamp⟩ := by
  simp only [read, List.find?, reads]
  cases memory.records key with
  | none => rfl
  | some record =>
      simp only [readAll]
      cases FieldOperation.read record.bins single <;> rfl

theorem write_single :
    memory.write key [single] none =
      match FieldOperation.write (memory.fields key) single with
      | .error e => (.error e, memory)
      | .ok (answer, bins) =>
          (.ok ⟨[answer], memory.nextStamp ((memory.records key).getD .absent)⟩,
            memory.written key bins) := by
  simp only [write, isStale, Bool.false_eq_true, if_false, writeAll, fields]
  cases FieldOperation.write ((memory.records key).getD .absent).bins single <;> rfl

end Memory

end RecordPath
