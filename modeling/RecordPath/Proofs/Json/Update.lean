import RecordPath.Json.Location

namespace RecordPath

namespace Members

variable {α : Type} {name : String} {a b : α} {members : Members α}

theorem replace_replace : replace name a (replace name b members) = replace name a members := by
  induction members with
  | nil => rfl
  | cons pair rest ih =>
      by_cases hn : pair.1 = name
      · simp [replace, hn]
      · simp [replace, hn, ih]

theorem insert_insert_of_contains (h : contains name members = true) :
    insert name a (insert name b members) = insert name a members := by
  obtain ⟨old, ho⟩ := Option.isSome_iff_exists.1 h
  have first : insert name b members = replace name b members := by simp only [insert, ho]
  have second : get? name (replace name b members) = some b := get?_replace_self h
  rw [first]
  simp only [insert, ho, second, replace_replace]

theorem replace_place (absent : get? name members = none) :
    replace name a (place name b members) = place name a members := by
  induction members with
  | nil => simp [place, replace]
  | cons pair rest ih =>
      by_cases hn : pair.1 = name
      · simp [get?, hn] at absent
      · simp only [get?, hn, if_false] at absent
        by_cases hlt : name < pair.1
        · simp [place, replace, hlt]
        · simp [place, replace, hlt, hn, ih absent]

theorem insert_insert (name : String) (a b : α) (members : Members α) :
    insert name a (insert name b members) = insert name a members := by
  cases there : get? name members with
  | some old => exact insert_insert_of_contains (by rw [contains, there]; rfl)
  | none =>
      have second : get? name (place name b members) = some b := get?_place_self there
      simp only [insert, there, second, replace_place there]

theorem erase_of_get?_none (absent : get? name members = none) : erase name members = members := by
  induction members with
  | nil => rfl
  | cons pair rest ih =>
      by_cases hn : pair.1 = name
      · simp [get?, hn] at absent
      · simp only [get?, hn, if_false] at absent
        simp [erase, hn, ih absent]

end Members

namespace Json

variable {value child other : Json} {step next : Step} {place : Location}

theorem setChild_setChild : setChild child (setChild other value step) step =
    setChild child value step := by
  cases value <;> cases step <;> try rfl
  case array.index items i => simp only [setChild, List.set_set]
  case object.key members name =>
    by_cases h : Members.contains name members = true
    · have kept : Members.contains name (Members.insert name other members) = true := by
        rw [Members.contains, Members.get?_insert_self]
        rfl
      simp only [setChild, h, if_true, kept, Members.insert_insert_of_contains h]
    · simp only [setChild, h, Bool.false_eq_true, if_false]

theorem child?_setChild_of_ne (h : next ≠ step) :
    (setChild child value step).child? next = value.child? next := by
  cases value <;> cases step <;> try rfl
  case array.index items i =>
    cases next with
    | key name => rfl
    | index j =>
        have off : i ≠ j := fun e => h (e ▸ rfl)
        simp only [setChild, child?, List.getElem?_set_ne off]
  case object.key members name =>
    simp only [setChild]
    split
    · cases next with
      | key other =>
          have off : other ≠ name := fun e => h (e ▸ rfl)
          exact Members.get?_insert_of_ne off child members
      | index j => rfl
    · rfl

theorem update_append (change : Json → Json) (place rest : Location) (value : Json) :
    update change (place ++ rest) value = update (update change rest) place value := by
  induction place generalizing value with
  | nil => rfl
  | cons step place ih =>
      simp only [List.cons_append, update]
      cases value.child? step with
      | none => rfl
      | some child => simp only [ih]

theorem update_congr {change other : Json → Json} {place : Location} :
    ∀ {value target : Json}, value.get? place = some target → change target = other target →
      update change place value = update other place value := by
  induction place with
  | nil =>
      rintro value target ⟨⟩ same
      exact same
  | cons step rest ih =>
      intro value target h same
      obtain ⟨child, hc, hr⟩ := Option.bind_eq_some_iff.1 h
      simp only [update, hc, ih hr same]

theorem update_update (a b : Json) (place : Location) (value : Json) :
    update (fun _ => a) place (update (fun _ => b) place value) =
      update (fun _ => a) place value := by
  induction place generalizing value with
  | nil => rfl
  | cons step rest ih =>
      cases hc : value.child? step with
      | none => simp only [update, hc]
      | some child =>
          simp only [update, hc, child?_setChild_self hc, setChild_setChild, ih]

theorem get?_update_inside {change : Json → Json} {old : Json} (there : value.get? place = some old)
    (way : Location) :
    (update change place value).get? (place ++ way) = (change old).get? way := by
  rw [get?_append, get?_update_self change there, Option.bind_some]

theorem get?_update_off {change : Json → Json} {place : Location} :
    ∀ {value : Json} {off : Location}, ¬ place <+: off → ¬ off <+: place →
      (update change place value).get? off = value.get? off := by
  induction place with
  | nil => exact fun away _ => absurd List.nil_prefix away
  | cons step rest ih =>
      intro value off away back
      cases off with
      | nil => exact absurd List.nil_prefix back
      | cons next off =>
          cases hc : value.child? step with
          | none => simp only [update, hc]
          | some child =>
              by_cases hn : next = step
              · subst hn
                have away : ¬ rest <+: off := fun h => away (List.cons_prefix_cons.2 ⟨rfl, h⟩)
                have back : ¬ off <+: rest := fun h => back (List.cons_prefix_cons.2 ⟨rfl, h⟩)
                simp only [update, hc, get?, child?_setChild_self hc, Option.bind_some,
                  ih away back]
              · simp only [update, hc, get?, child?_setChild_of_ne hn]

theorem get?_update_beside {target : Json} {off : Location} (new : Json)
    (there : value.get? place = some target) (away : ¬ place ++ [step] <+: off)
    (back : ¬ off <+: place ++ [step]) :
    (update (fun _ => new) place value).get? off = value.get? off ∨
    ∃ next way, next ≠ step ∧ off = place ++ next :: way ∧
      value.get? off = (target.child? next).bind (fun child => child.get? way) ∧
      (update (fun _ => new) place value).get? off =
        (new.child? next).bind fun child => child.get? way := by
  by_cases inside : place <+: off
  · obtain ⟨way, rfl⟩ := inside
    cases way with
    | nil => exact absurd (by simp) back
    | cons next way =>
        have other : next ≠ step := by
          rintro rfl
          exact away ((List.prefix_append_right_inj place).2 (by simp))
        refine .inr ⟨next, way, other, rfl, ?_, get?_update_inside there _⟩
        rw [get?_append, there, Option.bind_some, get?]
  · exact .inl (get?_update_off inside fun above => back (above.trans (List.prefix_append _ _)))

end Json

end RecordPath
