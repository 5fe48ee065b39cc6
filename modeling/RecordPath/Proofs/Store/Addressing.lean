import RecordPath.Proofs.Json.Shell
import RecordPath.Proofs.Store.Removal
import RecordPath.Proofs.Store.WriteBack

namespace RecordPath

namespace FieldOperation

variable {bins changed : Members Json} {field : String} {root value answer : Json}
  {context : Location} {action : WriteAction}

theorem document_insert (bins : Members Json) (field : String) (value : Json) :
    document (Members.insert field value bins) field = value := by
  rw [document, Members.get?_insert_self, Option.getD_some]

theorem document_of_present (there : Members.get? field bins = some root) :
    document bins field = root := by
  rw [document, there, Option.getD_some]

theorem exists_present_of_get? {found : Json}
    (there : (document bins field).get? context = some found) (solid : found ≠ .null) :
    ∃ root, Members.get? field bins = some root ∧ root.get? context = some found := by
  cases present : Members.get? field bins with
  | some root => exact ⟨root, rfl, by rwa [document_of_present present] at there⟩
  | none =>
      rw [document, present, Option.getD_none] at there
      cases context with
      | nil => exact absurd (Option.some.inj there).symm solid
      | cons step rest => cases step <;> cases there

theorem writeInside_eq_ok_iff :
    writeInside bins field root context action = .ok (answer, changed) ↔
      ∃ target new, root.get? context = some target ∧
        writeValue target action = .ok (answer, new) ∧
        changed = Members.insert field (root.update (fun _ => new) context) bins := by
  constructor
  · intro h
    unfold writeInside at h
    split at h
    · cases h
    · rename_i target located
      split at h
      · cases h
      · rename_i written
        cases h
        exact ⟨target, _, get?_of_locate located, written, rfl⟩
  · rintro ⟨target, new, there, written, rfl⟩
    simp only [writeInside, locate_of_get? there, written]

def IsInside : WriteAction → Bool
  | .whole _ => false
  | .clear => false
  | _ => true

theorem write_of_present (there : Members.get? field bins = some root)
    (inside : IsInside action = true) :
    write bins ⟨field, context, .write action⟩ = writeInside bins field root context action := by
  cases action <;> try cases inside
  all_goals cases context <;> simp only [write, writeField, there]

theorem write_present_iff (there : Members.get? field bins = some root)
    (inside : IsInside action = true) :
    (∃ answer, write bins ⟨field, context, .write action⟩ = .ok (answer, changed)) ↔
      ∃ target new, root.get? context = some target ∧
        (∃ answer, writeValue target action = .ok (answer, new)) ∧
        changed = Members.insert field (root.update (fun _ => new) context) bins := by
  simp only [write_of_present there inside, writeInside_eq_ok_iff]
  constructor
  · rintro ⟨answer, target, new, found, written, rfl⟩
    exact ⟨target, new, found, ⟨answer, written⟩, rfl⟩
  · rintro ⟨target, new, found, ⟨answer, written⟩, rfl⟩
    exact ⟨answer, target, new, found, written, rfl⟩

end FieldOperation

namespace Native

open FieldOperation

variable {bins changed : Members Json} {field : String} {root value answer : Json}
  {steps off : Location} {last step next : Step} {target new final : Json}

section Append

def appending (steps : Location) (field : String) (value : Json) : FieldOperation :=
  ⟨field, steps, .write (.listAppend value)⟩

theorem build_append (inside : steps ≠ []) (field : String) (value : Json) (mode : ListPutMode) :
    build field steps (.append value) mode = .ok (appending steps field value) := by
  unfold build
  cases hl : steps.getLast? with
  | none => exact absurd (List.getLast?_eq_none_iff.1 hl) inside
  | some last => rfl

inductive Appends (value : Json) : Json → Json → Prop
  | list (items : List Json) : Appends value (.array items) (.array (items ++ [value]))

theorem writeValue_append_iff :
    (∃ answer, writeValue target (.listAppend value) = .ok (answer, new)) ↔
      Appends value target new := by
  constructor
  · rintro ⟨answer, written⟩
    cases target <;> cases written
    exact .list _
  · rintro ⟨items⟩
    exact ⟨_, rfl⟩

theorem write_appending_iff (there : Members.get? field bins = some root) :
    (∃ answer, FieldOperation.write bins (appending steps field value) = .ok (answer, changed)) ↔
      ∃ target new, root.get? steps = some target ∧ Appends value target new ∧
        changed = Members.insert field (root.update (fun _ => new) steps) bins := by
  have inside : IsInside (.listAppend value) = true := rfl
  simp only [appending, write_present_iff there inside, writeValue_append_iff]

end Append

section Delete

inductive Deletes : Step → Json → Json → Prop
  | name (name : String) (members : Members Json) :
      Deletes (.key name) (.object members) (.object (Members.erase name members))
  | item {i : Nat} {items : List Json} (bound : i < items.length) :
      Deletes (.index i) (.array items) (.array (items.eraseIdx i))

theorem writeValue_deleteAction_iff :
    (∃ answer, writeValue target (deleteAction step) = .ok (answer, new)) ↔
      Deletes step target new := by
  constructor
  · rintro ⟨answer, h⟩
    cases step <;> cases target <;>
      simp only [deleteAction, writeValue, asMap, asList, Except.map, reduceCtorEq] at h
    case key.object name members =>
      cases h
      exact .name name members
    case index.array i items =>
      split at h
      · rename_i found
        cases h
        exact .item (List.getElem?_eq_some_iff.1 found).1
      · cases h
  · intro deletes
    cases deletes with
    | name name members => exact ⟨.null, rfl⟩
    | @item i items bound =>
        refine ⟨items[i], ?_⟩
        simp only [deleteAction, writeValue, asList, List.getElem?_eq_getElem bound]

theorem removal_concat (steps : Location) (last : Step) (field : String) :
    removal (steps ++ [last]) field = ⟨field, steps, .write (deleteAction last)⟩ := by
  simp [removal]

theorem write_removal_iff (there : Members.get? field bins = some root) :
    (∃ answer, FieldOperation.write bins (removal (steps ++ [last]) field) =
        .ok (answer, changed)) ↔
      ∃ target new, root.get? steps = some target ∧ Deletes last target new ∧
        changed = Members.insert field (root.update (fun _ => new) steps) bins := by
  have inside : IsInside (deleteAction last) = true := by cases last <;> rfl
  simp only [removal_concat, write_present_iff there inside, writeValue_deleteAction_iff]

theorem Deletes.name_of_ne {name : String} (deletes : Deletes (.key name) target new)
    (apart : next ≠ .key name) : new.child? next = target.child? next := by
  cases deletes with
  | name name members =>
      cases next with
      | index i => rfl
      | key other => exact Members.get?_erase_of_ne (fun e => apart (congrArg Step.key e)) members

theorem Deletes.name_again {name : String} (deletes : Deletes (.key name) target new) :
    Deletes (.key name) new final ↔ final = new := by
  cases deletes with
  | name name members =>
      have same := Members.erase_of_get?_none (Members.get?_erase_self name members)
      constructor
      · rintro ⟨name, members⟩
        rw [same]
      · rintro rfl
        have again := Deletes.name name (Members.erase name members)
        rwa [same] at again

theorem read_strictFetch_missing {name : String} {members : Members Json}
    (there : (document bins field).get? steps = some (.object members))
    (gone : Members.get? name members = none) :
    FieldOperation.read bins (strictFetch field (steps ++ [.key name])) =
      .error (.missingName name) := by
  obtain ⟨root, present, inside⟩ := exists_present_of_get? there (by rintro ⟨⟩)
  simp only [strictFetch_concat, FieldOperation.read, readField, present, locate_of_get? inside,
    getAction, readValue, asMap, gone]

end Delete

end Native

end RecordPath
