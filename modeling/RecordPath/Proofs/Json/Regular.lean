import RecordPath.Json.Location
import RecordPath.Proofs.Json.NormalizedRoundTrip
import RecordPath.Proofs.Members

namespace RecordPath

namespace Json

mutual

def isRegular : Json → Bool
  | .array items => decide (items.length ≤ Text.indexBound) && areRegular items
  | .object members => decide (members.map Prod.fst).Nodup && membersRegular members
  | _ => true

def areRegular : List Json → Bool
  | [] => true
  | item :: items => isRegular item && areRegular items

def membersRegular : List (String × Json) → Bool
  | [] => true
  | (_, value) :: members => isRegular value && membersRegular members

end

theorem areRegular_iff {items : List Json} :
    areRegular items = true ↔ ∀ item ∈ items, item.isRegular = true := by
  induction items with
  | nil => simp [areRegular]
  | cons item items ih => simp [areRegular, ih]

theorem membersRegular_iff {members : List (String × Json)} :
    membersRegular members = true ↔ ∀ member ∈ members, member.2.isRegular = true := by
  induction members with
  | nil => simp [membersRegular]
  | cons member members ih => simp [membersRegular, ih]

theorem mem_indexed {i : Nat} {items : List Json} {step : Step} {value : Json}
    (h : (step, value) ∈ indexed i items) :
    ∃ j, step = .index (i + j) ∧ items[j]? = some value := by
  induction items generalizing i with
  | nil => cases h
  | cons item items ih =>
      rcases List.mem_cons.1 h with he | hr
      · cases he
        exact ⟨0, rfl, rfl⟩
      · obtain ⟨j, hs, hv⟩ := ih hr
        exact ⟨j + 1, by rw [hs]; congr 1; omega, hv⟩

theorem isRegular_child {value child : Json} {step : Step} (regular : value.isRegular = true)
    (h : value.child? step = some child) : child.isRegular = true ∧ step.isAddressable = true := by
  cases value <;> cases step <;> simp only [child?] at h
  case object.key members name =>
    simp only [isRegular, Bool.and_eq_true, membersRegular_iff] at regular
    exact ⟨regular.2 _ (Members.mem_of_get? h), rfl⟩
  case array.index items i =>
    simp only [isRegular, Bool.and_eq_true, areRegular_iff, decide_eq_true_eq] at regular
    obtain ⟨hi, rfl⟩ := List.getElem?_eq_some_iff.1 h
    exact ⟨regular.2 _ (List.getElem_mem hi), decide_eq_true (Nat.lt_of_lt_of_le hi regular.1)⟩
  all_goals cases h

theorem child?_of_mem_children {value child : Json} {step : Step}
    (regular : value.isRegular = true) (h : (step, child) ∈ value.children) :
    value.child? step = some child := by
  cases value <;> simp only [children, List.not_mem_nil] at h
  case array items =>
    obtain ⟨j, rfl, hj⟩ := mem_indexed h
    simpa [child?] using hj
  case object members =>
    simp only [isRegular, Bool.and_eq_true, decide_eq_true_eq] at regular
    obtain ⟨⟨name, found⟩, hm, he⟩ := List.mem_map.1 h
    cases he
    exact Members.get?_of_mem regular.1 hm

end Json

end RecordPath
