import Mathlib.Control.Monad.Basic
import RecordPath.Proofs.Store.SingleOperation

namespace RecordPath

namespace ReadAction

def isLookup : ReadAction → Bool
  | .mapLookup _ => true
  | .listLookup _ => true
  | _ => false

end ReadAction

namespace FieldOperation

variable {bins : Members Json} {field : String} {context : Location} {action : ReadAction}

def LooksUpAbsent (bins : Members Json) (field : String) (context : Location)
    (action : ReadAction) : Prop :=
  Members.get? field bins = none ∧ context = [] ∧ action.isLookup = true

theorem readInWrite_of_present {root : Json} (there : Members.get? field bins = some root) :
    readInWrite bins field context action = readField bins field context action := by
  simp only [readInWrite, readField, there]

theorem readInWrite_of_looksUpAbsent (absent : LooksUpAbsent bins field context action) :
    readInWrite bins field context action = .error (.missingField field) ∧
      readField bins field context action = .ok .null := by
  obtain ⟨absent, rfl, lookup⟩ := absent
  cases action <;> simp_all [ReadAction.isLookup, readInWrite, readField, readsAbsent]

theorem readInWrite_of_absent (absent : Members.get? field bins = none)
    (other : ¬ LooksUpAbsent bins field context action) :
    readInWrite bins field context action = readField bins field context action := by
  have plain : context = [] → action.isLookup = false := fun root =>
    Bool.eq_false_iff.2 fun lookup => other ⟨absent, root, lookup⟩
  cases context with
  | nil =>
      have := plain rfl
      cases action <;> simp_all [ReadAction.isLookup, readInWrite, readField, readsAbsent]
  | cons step rest =>
      cases action <;> simp [readInWrite, readField, readsAbsent, absent]

theorem readInWrite_eq_readField_iff :
    readInWrite bins field context action = readField bins field context action ↔
      ¬ LooksUpAbsent bins field context action := by
  constructor
  · intro same absent
    obtain ⟨fails, reads⟩ := readInWrite_of_looksUpAbsent absent
    rw [fails, reads] at same
    cases same
  · intro other
    cases there : Members.get? field bins with
    | none => exact readInWrite_of_absent there other
    | some root => exact readInWrite_of_present there

end FieldOperation

namespace Memory

open FieldOperation

variable {memory : Memory} {key : Key} {record : Record}

theorem read_read (found : memory.records key = some record) (field : String)
    (context : Location) (action : ReadAction) :
    (memory.read key [⟨field, context, .read action⟩]).map View.values =
      (readField record.bins field context action).map fun value => [value] := by
  rw [read_single rfl, found]
  simp only [FieldOperation.read]
  cases readField record.bins field context action <;> rfl

theorem write_read (found : memory.records key = some record) (field : String)
    (context : Location) (action : ReadAction) :
    (memory.write key [⟨field, context, .read action⟩] none).1.map View.values =
        (readInWrite record.bins field context action).map (fun value => [value]) ∧
      memory.SameBins (memory.write key [⟨field, context, .read action⟩] none).2 := by
  have bins : record.bins = memory.fields key := by
    rw [fields, found]
    rfl
  rw [write_single, bins]
  simp only [FieldOperation.write]
  cases readInWrite (memory.fields key) field context action with
  | error e => exact ⟨rfl, fun _ => rfl⟩
  | ok value => exact ⟨rfl, sameBins_written_fields found⟩

theorem map_singleton_inj {a b : Except StoreError Json} :
    a.map (fun value => [value]) = b.map (fun value => [value]) ↔ a = b := by
  cases a <;> cases b <;> simp [Except.map]

theorem write_read_agree_iff (found : memory.records key = some record) (field : String)
    (context : Location) (action : ReadAction) :
    let operation : FieldOperation := ⟨field, context, .read action⟩
    let written := memory.write key [operation] none
    let read := memory.read key [operation]
    (written.1.map View.values = read.map View.values ↔
      ¬ LooksUpAbsent record.bins field context action) ∧
    (LooksUpAbsent record.bins field context action →
      read.map View.values = .ok [.null] ∧
        written.1.map View.values = .error (.missingField field)) ∧
    memory.SameBins written.2 := by
  intro operation written read
  obtain ⟨answer, kept⟩ := write_read found field context action
  refine ⟨?_, fun absent => ?_, kept⟩
  · rw [answer, read_read found field context action, map_singleton_inj,
      readInWrite_eq_readField_iff]
  · obtain ⟨fails, reads⟩ := readInWrite_of_looksUpAbsent absent
    rw [answer, read_read found field context action, fails, reads]
    exact ⟨rfl, rfl⟩

theorem write_read_agree_present :
    let key : Key := ⟨"test", "documents", "1"⟩
    let memory := (Memory.empty 7).seed key [("doc", .obj [("a", .array [.nat 1])])]
    let operation : FieldOperation := ⟨"doc", [.key "a"], .read (.listLookup 3)⟩
    ∃ record, memory.records key = some record ∧
      ¬ LooksUpAbsent record.bins "doc" [.key "a"] (.listLookup 3) ∧
      (memory.write key [operation] none).1.map View.values =
        (memory.read key [operation]).map View.values := by
  intro key memory operation
  have found : memory.records key = some ⟨Members.ofList [("doc", .obj [("a", .array [.nat 1])])],
    ⟨1, 7⟩⟩ := rfl
  have present : ¬ LooksUpAbsent (Members.ofList [("doc", Json.obj [("a", .array [.nat 1])])]) "doc"
      [.key "a"] (.listLookup 3) := fun absent => List.cons_ne_nil _ _ absent.2.1
  have agree := write_read_agree_iff found "doc" [.key "a"] (.listLookup 3)
  exact ⟨_, found, present, agree.1.2 present⟩

/-- The field is null for the read, and missing for the write. -/
theorem not_write_read_agree_absent :
    let key : Key := ⟨"test", "documents", "1"⟩
    let memory := (Memory.empty 7).seed key [("doc", .obj [("a", .nat 1)])]
    let operation : FieldOperation := ⟨"other", [], .read (.mapLookup "a")⟩
    memory.read key [operation] = .ok ⟨[.null], ⟨1, 7⟩⟩ ∧
      (memory.write key [operation] none).1 = .error (.missingField "other") ∧
      (memory.write key [operation] none).1.map View.values ≠
        (memory.read key [operation]).map View.values := by
  intro key memory operation
  have reads : memory.read key [operation] = .ok ⟨[.null], ⟨1, 7⟩⟩ := by decide +kernel
  have fails : (memory.write key [operation] none).1 = .error (.missingField "other") := by
    decide +kernel
  refine ⟨reads, fails, ?_⟩
  rw [reads, fails]
  exact nofun

end Memory

end RecordPath
