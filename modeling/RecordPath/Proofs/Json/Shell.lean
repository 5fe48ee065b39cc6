import RecordPath.Proofs.Json.Update
import RecordPath.Proofs.Members

namespace RecordPath

namespace Json

variable {value child found : Json} {step : Step} {place : Location} {change : Json → Json}

def shell : Json → Json
  | .array items => .array (items.map fun _ => .null)
  | .object members => .object (Members.mapValues (fun _ => .null) members)
  | value => value

theorem shell_setChild (child value : Json) (step : Step) :
    (setChild child value step).shell = value.shell := by
  cases value <;> cases step <;> try rfl
  case array.index items i =>
    simp only [setChild, shell, List.map_set, List.map_const', List.set_replicate_self]
  case object.key members name =>
    simp only [setChild]
    split
    · rename_i there
      obtain ⟨old, ho⟩ := Option.isSome_iff_exists.1 there
      have same : Members.get? name (Members.mapValues (fun _ => Json.null) members) =
          some .null := by
        rw [Members.get?_mapValues, ho, Option.map_some]
      simp only [shell, Members.insert, ho,
        ← Members.replace_mapValues (fun _ => Json.null) name child, Members.replace_get? same]
    · rfl

theorem setChild_child? (h : value.child? step = some child) :
    setChild child value step = value := by
  cases value <;> cases step <;> try cases h
  case array.index items i =>
    obtain ⟨hi, rfl⟩ := List.getElem?_eq_some_iff.1 h
    rw [setChild, List.set_getElem_self]
  case object.key members name =>
    have there : Members.get? name members = some child := h
    rw [setChild, Members.insert_get? there, ite_self]

theorem update_get? (h : value.get? place = some found) :
    update (fun _ => found) place value = value := by
  induction place generalizing value with
  | nil =>
      cases h
      rfl
  | cons step rest ih =>
      obtain ⟨child, hc, hr⟩ := Option.bind_eq_some_iff.1 h
      simp only [update, hc, ih hr, setChild_child? hc]

theorem update_of_get?_none (h : value.get? place = none) : update change place value = value := by
  induction place generalizing value with
  | nil => cases h
  | cons step rest ih =>
      cases hc : value.child? step with
      | none => simp only [update, hc]
      | some child =>
          rw [get?, hc, Option.bind_some] at h
          simp only [update, hc, ih h, setChild_child? hc]

theorem shell_get?_update {value : Json} {off : Location} (h : ¬ place <+: off) :
    ((update change place value).get? off).map shell = (value.get? off).map shell := by
  induction place generalizing value off with
  | nil => exact absurd List.nil_prefix h
  | cons step rest ih =>
      cases hc : value.child? step with
      | none => simp only [update, hc]
      | some child =>
          cases off with
          | nil => simp only [update, hc, get?, Option.map_some, shell_setChild]
          | cons next off =>
              by_cases hn : next = step
              · subst hn
                have inner : ¬ rest <+: off := fun hp => h (List.cons_prefix_cons.2 ⟨rfl, hp⟩)
                simp only [update, hc, get?, child?_setChild_self hc, Option.bind_some, ih inner]
              · simp only [update, hc, get?, child?_setChild_of_ne hn]

theorem sizeOf_child?_lt (h : value.child? step = some child) : sizeOf child < sizeOf value := by
  cases value <;> cases step <;> try cases h
  case array.index items i =>
    have := List.sizeOf_lt_of_mem (List.mem_of_getElem? h)
    simp only [array.sizeOf_spec]
    omega
  case object.key members name =>
    have := List.sizeOf_lt_of_mem (Members.mem_of_get? h)
    simp only [Prod.mk.sizeOf_spec] at this
    simp only [object.sizeOf_spec]
    omega

theorem sizeOf_get?_le (h : value.get? place = some found) : sizeOf found ≤ sizeOf value := by
  induction place generalizing value with
  | nil =>
      cases h
      exact Nat.le_refl _
  | cons step rest ih =>
      obtain ⟨child, hc, hr⟩ := Option.bind_eq_some_iff.1 h
      have inner := ih hr
      have outer := sizeOf_child?_lt hc
      omega

theorem get?_ne_self (h : place ≠ []) : value.get? place ≠ some value := by
  intro found
  cases place with
  | nil => exact h rfl
  | cons step rest =>
      obtain ⟨child, hc, hr⟩ := Option.bind_eq_some_iff.1 found
      have inner := sizeOf_get?_le hr
      have outer := sizeOf_child?_lt hc
      omega

end Json

end RecordPath
