import RecordPath.Client.Native
import RecordPath.Proofs.Outcomes

namespace RecordPath

namespace WriteAction

def removes : WriteAction → Bool
  | .clear => true
  | .mapRemove _ => true
  | .listRemove _ => true
  | _ => false

theorem created?_of_removes {action : WriteAction} (h : action.removes = true) :
    FieldOperation.created? action = none := by
  cases action <;> first | rfl | cases h

end WriteAction

namespace FieldOperation

variable {bins changed : Members Json} {field name : String} {answer : Json} {context : Location}
  {action : WriteAction} {root : Json}

def KeepsNames (bins changed : Members Json) : Prop :=
  ∀ name, Members.contains name changed = true → Members.contains name bins = true

theorem keepsNames_refl (bins : Members Json) : KeepsNames bins bins :=
  fun _ h => h

theorem KeepsNames.trans {final : Members Json} (first : KeepsNames bins changed)
    (second : KeepsNames changed final) : KeepsNames bins final :=
  fun name h => first name (second name h)

theorem keepsNames_insert (value : Json) (h : Members.get? field bins = some root) :
    KeepsNames bins (Members.insert field value bins) := by
  intro name found
  by_cases hn : name = field
  · rw [hn, Members.contains, h]
    rfl
  · rwa [Members.contains, Members.get?_insert_of_ne hn] at found

theorem keepsNames_erase (field : String) (bins : Members Json) :
    KeepsNames bins (Members.erase field bins) := by
  intro name found
  by_cases hn : name = field
  · rw [hn, Members.contains, Members.get?_erase_self] at found
    cases found
  · rwa [Members.contains, Members.get?_erase_of_ne hn] at found

theorem keepsNames_clearField (bins : Members Json) (field : String) :
    KeepsNames bins (clearField bins field) := by
  unfold clearField
  split
  · exact keepsNames_refl bins
  · rename_i value there
    split
    · exact keepsNames_insert _ there
    · exact keepsNames_erase field bins

theorem keepsNames_writeInside (there : Members.get? field bins = some root)
    (h : writeInside bins field root context action = .ok (answer, changed)) :
    KeepsNames bins changed := by
  unfold writeInside at h
  split at h
  · cases h
  · split at h
    · cases h
    · cases h
      exact keepsNames_insert _ there

theorem keepsNames_writeAbsent (removes : action.removes = true)
    (h : writeAbsent bins field context action = .ok (answer, changed)) :
    KeepsNames bins changed := by
  unfold writeAbsent at h
  split at h
  · cases h
    exact keepsNames_refl bins
  · rw [WriteAction.created?_of_removes removes] at h
    cases h
  · cases h

theorem keepsNames_writeField (removes : action.removes = true)
    (h : writeField bins field context action = .ok (answer, changed)) :
    KeepsNames bins changed := by
  unfold writeField at h
  split at h
  · cases removes
  · cases h
    exact keepsNames_clearField bins field
  · split at h
    · rename_i there
      exact keepsNames_writeInside there h
    · exact keepsNames_writeAbsent removes h

theorem keepsNames_writeAll {answers : List Json} {operations : List FieldOperation}
    (removals : ∀ operation ∈ operations, ∃ action : WriteAction,
      operation.action = .write action ∧ action.removes = true)
    (h : writeAll bins operations = .ok (answers, changed)) : KeepsNames bins changed := by
  induction operations generalizing bins answers with
  | nil =>
      cases h
      exact keepsNames_refl _
  | cons operation rest ih =>
      obtain ⟨action, ha, removes⟩ := removals operation List.mem_cons_self
      rw [writeAll] at h
      split at h
      · cases h
      · rename_i answer next hw
        simp only [write, ha] at hw
        cases hr : writeAll next rest with
        | error e =>
            rw [hr] at h
            cases h
        | ok result =>
            rw [hr] at h
            cases h
            exact (keepsNames_writeField removes hw).trans
              (ih (fun other ho => removals other (List.mem_cons_of_mem _ ho)) hr)

end FieldOperation

namespace Native

def removal (steps : Location) (field : String) : FieldOperation :=
  match steps.getLast? with
  | none => ⟨field, [], .write .clear⟩
  | some last => ⟨field, steps.dropLast, .write (deleteAction last)⟩

theorem build_delete (steps : Location) (mode : ListPutMode) (field : String) :
    build field steps .delete mode = .ok (removal steps field) := by
  unfold build removal
  cases steps.getLast? <;> rfl

theorem mapM_build_delete (fields : List String) (steps : Location) (mode : ListPutMode) :
    (fields.mapM fun field => build field steps .delete mode) =
      .ok (fields.map (removal steps)) :=
  Outcomes.mapM_ok fun field _ => build_delete steps mode field

theorem removes_removal (steps : Location) (field : String) :
    ∃ action : WriteAction, (removal steps field).action = .write action ∧
      action.removes = true := by
  unfold removal
  cases steps.getLast? with
  | none => exact ⟨_, rfl, rfl⟩
  | some last => cases last <;> exact ⟨_, rfl, rfl⟩

end Native

end RecordPath
