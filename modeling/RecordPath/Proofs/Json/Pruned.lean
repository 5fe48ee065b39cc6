import RecordPath.Json.Location

namespace RecordPath

def Step.within (step : Step) (reported : Location → Bool) : Location → Bool :=
  fun way => reported (step :: way)

namespace Json

mutual

def pruned (reported : Location → Bool) : Json → Json
  | .array items => .array (prunedItems reported 0 items)
  | .object members => .object (prunedMembers reported members)
  | value => value

def prunedItems (reported : Location → Bool) (i : Nat) : List Json → List Json
  | [] => []
  | item :: items =>
      if reported [.index i] then prunedItems reported (i + 1) items
      else pruned ((Step.index i).within reported) item :: prunedItems reported (i + 1) items

def prunedMembers (reported : Location → Bool) : List (String × Json) → List (String × Json)
  | [] => []
  | (name, value) :: members =>
      if reported [.key name] then prunedMembers reported members
      else (name, pruned ((Step.key name).within reported) value) :: prunedMembers reported members

end

def without (reported : Location → Bool) (document : Json) : Json :=
  if reported [] then document.emptied?.getD .null else document.pruned reported

def Survives (reported : Location → Bool) (place : Location) : Prop :=
  ∀ above, above <+: place → reported above = false

/-- The step to what survives, when the items of a list have closed up. -/
def closedStep (reported : Location → Bool) : Step → Step
  | .key name => .key name
  | .index i => .index ((List.range' 0 i).countP fun j => !reported [.index j])

def closed (reported : Location → Bool) : Location → Location
  | [] => []
  | step :: rest => closedStep reported step :: closed (step.within reported) rest

/-- All that survives is left, without what is reported inside it, and nothing else is; and the
items of a list keep their order. -/
structure Pruned (reported : Location → Bool) (before after : Json) : Prop where
  left : ∀ place, Survives reported place → after.get? (closed reported place) =
    (before.get? place).map (pruned fun way => reported (place ++ way))
  only : ∀ place, (after.get? place).isSome = true → ∃ origin, Survives reported origin ∧
    (before.get? origin).isSome = true ∧ closed reported origin = place
  ordered : ∀ place i j, i < j → Survives reported (place ++ [.index i]) →
    ∃ k l, k < l ∧ closed reported (place ++ [.index i]) = closed reported place ++ [.index k] ∧
      closed reported (place ++ [.index j]) = closed reported place ++ [.index l]

variable {reported : Location → Bool} {place rest : Location} {step : Step} {value child : Json}

theorem Survives.tail (h : Survives reported (step :: rest)) :
    Survives (step.within reported) rest :=
  fun _ above => h _ (List.cons_prefix_cons.2 ⟨rfl, above⟩)

theorem Survives.head (h : Survives reported (step :: rest)) : reported [step] = false :=
  h [step] (List.cons_prefix_cons.2 ⟨rfl, List.nil_prefix⟩)

theorem survives_cons_iff :
    Survives reported (step :: rest) ↔
      reported [] = false ∧ Survives (step.within reported) rest := by
  constructor
  · exact fun h => ⟨h [] List.nil_prefix, h.tail⟩
  · rintro ⟨root, inside⟩ above hp
    cases above with
    | nil => exact root
    | cons next above =>
        obtain ⟨rfl, below⟩ := List.cons_prefix_cons.1 hp
        exact inside above below

theorem Survives.concat (h : Survives reported place) (free : reported (place ++ [step]) = false) :
    Survives reported (place ++ [step]) := by
  intro above hp
  rcases List.prefix_concat_iff.1 hp with rfl | within
  · exact free
  · exact h above within

theorem within_append (reported : Location → Bool) (place : Location) (step : Step) :
    step.within (fun way => reported (place ++ way)) =
      fun way => reported (place ++ [step] ++ way) := by
  funext way
  rw [Step.within, List.append_assoc, List.singleton_append]

theorem getElem?_prunedItems {items : List Json} {k i : Nat}
    (h : reported [.index (k + i)] = false) :
    (prunedItems reported k items)[(List.range' k i).countP fun j => !reported [.index j]]? =
      items[i]?.map (pruned ((Step.index (k + i)).within reported)) := by
  induction items generalizing k i with
  | nil => simp [prunedItems]
  | cons item items ih =>
      cases i with
      | zero => simp [prunedItems, show reported [.index k] = false from h]
      | succ i =>
          have shifted : k + (i + 1) = k + 1 + i := by omega
          rw [shifted] at h ⊢
          rw [List.range'_succ, prunedItems]
          by_cases taken : reported [.index k] = true
          · rw [if_pos taken, List.countP_cons_of_neg (by simp [taken]), ih h]
            rfl
          · rw [if_neg taken, List.countP_cons_of_pos (by simpa using taken),
              List.getElem?_cons_succ, ih h]
            rfl

theorem exists_of_getElem?_prunedItems {items : List Json} {k q : Nat}
    (h : (prunedItems reported k items)[q]? = some child) :
    ∃ i item, items[i]? = some item ∧ reported [.index (k + i)] = false ∧
      ((List.range' k i).countP fun j => !reported [.index j]) = q ∧
      child = pruned ((Step.index (k + i)).within reported) item := by
  induction items generalizing k q with
  | nil => simp [prunedItems] at h
  | cons item items ih =>
      rw [prunedItems] at h
      by_cases taken : reported [.index k] = true
      · rw [if_pos taken] at h
        obtain ⟨i, found, hi, free, count, hc⟩ := ih h
        have shifted : k + (i + 1) = k + 1 + i := by omega
        refine ⟨i + 1, found, hi, by rwa [shifted], ?_, by rwa [shifted]⟩
        rw [List.range'_succ, List.countP_cons_of_neg (by simp [taken]), count]
      · rw [if_neg taken] at h
        cases q with
        | zero =>
            cases h
            exact ⟨0, item, rfl, by simpa using taken, rfl, rfl⟩
        | succ q =>
            obtain ⟨i, found, hi, free, count, hc⟩ := ih h
            have shifted : k + (i + 1) = k + 1 + i := by omega
            refine ⟨i + 1, found, hi, by rwa [shifted], ?_, by rwa [shifted]⟩
            rw [List.range'_succ, List.countP_cons_of_pos (by simpa using taken), count]

theorem get?_prunedMembers {members : List (String × Json)} (name : String) :
    Members.get? name (prunedMembers reported members) =
      if reported [.key name] then none
      else (Members.get? name members).map (pruned ((Step.key name).within reported)) := by
  induction members with
  | nil => simp [prunedMembers, Members.get?]
  | cons member members ih =>
      obtain ⟨other, value⟩ := member
      rw [prunedMembers]
      by_cases same : other = name
      · subst same
        by_cases taken : reported [.key other] = true
        · rw [if_pos taken, ih]
          simp [taken]
        · simp [taken, Members.get?]
      · by_cases taken : reported [.key other] = true
        · rw [if_pos taken, ih]
          simp [Members.get?, same]
        · rw [if_neg taken]
          simp [Members.get?, same, ih]

theorem child?_pruned (h : reported [step] = false) :
    (value.pruned reported).child? (closedStep reported step) =
      (value.child? step).map (pruned (step.within reported)) := by
  cases value <;> cases step <;> try rfl
  case array.index items i =>
    have := @getElem?_prunedItems reported items 0 i (by rwa [Nat.zero_add])
    rwa [Nat.zero_add] at this
  case object.key members name =>
    simp only [pruned, child?, closedStep, get?_prunedMembers, h, Bool.false_eq_true, if_false]

theorem exists_of_child?_pruned {next : Step}
    (h : (value.pruned reported).child? next = some child) :
    ∃ step old, value.child? step = some old ∧ reported [step] = false ∧
      closedStep reported step = next ∧ child = old.pruned (step.within reported) := by
  cases value <;> cases next <;> try cases h
  case array.index items q =>
    obtain ⟨i, item, hi, free, count, hc⟩ := exists_of_getElem?_prunedItems h
    rw [Nat.zero_add] at free hc
    exact ⟨.index i, item, hi, free, congrArg Step.index count, hc⟩
  case object.key members name =>
    simp only [pruned, child?, get?_prunedMembers] at h
    split at h
    · cases h
    · rename_i free
      obtain ⟨old, ho, rfl⟩ := Option.map_eq_some_iff.1 h
      exact ⟨.key name, old, ho, by simpa using free, rfl, rfl⟩

theorem exists_of_mem_indexed_prunedItems {found : Step × Json} {items : List Json} {k i : Nat}
    (h : found ∈ indexed k (prunedItems reported i items)) :
    ∃ origin ∈ indexed i items, reported [origin.1] = false ∧
      found.2 = origin.2.pruned (origin.1.within reported) := by
  induction items generalizing k i with
  | nil => cases h
  | cons item items ih =>
      rw [prunedItems] at h
      split at h
      · obtain ⟨origin, ho, left⟩ := ih h
        exact ⟨origin, List.mem_cons_of_mem _ ho, left⟩
      · rename_i free
        rcases List.mem_cons.1 h with rfl | more
        · exact ⟨_, List.mem_cons_self, by simpa using free, rfl⟩
        · obtain ⟨origin, ho, left⟩ := ih more
          exact ⟨origin, List.mem_cons_of_mem _ ho, left⟩

theorem exists_of_mem_prunedMembers {found : String × Json} {members : List (String × Json)}
    (h : found ∈ prunedMembers reported members) :
    ∃ origin ∈ members, reported [.key origin.1] = false ∧
      found.2 = origin.2.pruned ((Step.key origin.1).within reported) := by
  induction members with
  | nil => cases h
  | cons member members ih =>
      rw [prunedMembers] at h
      split at h
      · obtain ⟨origin, ho, left⟩ := ih h
        exact ⟨origin, List.mem_cons_of_mem _ ho, left⟩
      · rename_i free
        rcases List.mem_cons.1 h with rfl | more
        · exact ⟨_, List.mem_cons_self, by simpa using free, rfl⟩
        · obtain ⟨origin, ho, left⟩ := ih more
          exact ⟨origin, List.mem_cons_of_mem _ ho, left⟩

theorem exists_of_mem_children_pruned {found : Step × Json}
    (h : found ∈ (value.pruned reported).children) :
    ∃ origin ∈ value.children, reported [origin.1] = false ∧
      found.2 = origin.2.pruned (origin.1.within reported) := by
  cases value <;> try cases h
  case array items => exact exists_of_mem_indexed_prunedItems h
  case object members =>
    obtain ⟨member, hm, rfl⟩ := List.mem_map.1 h
    obtain ⟨origin, ho, left⟩ := exists_of_mem_prunedMembers hm
    exact ⟨_, List.mem_map.2 ⟨origin, ho, rfl⟩, left⟩

theorem get?_pruned (h : Survives reported place) :
    (value.pruned reported).get? (closed reported place) =
      (value.get? place).map (pruned fun way => reported (place ++ way)) := by
  induction place generalizing value reported with
  | nil => rfl
  | cons step rest ih =>
      rw [closed, get?, child?_pruned h.head, get?]
      cases value.child? step with
      | none => rfl
      | some child => exact ih h.tail

theorem exists_of_get?_pruned (root : reported [] = false)
    (h : ((value.pruned reported).get? place).isSome = true) :
    ∃ origin, Survives reported origin ∧ (value.get? origin).isSome = true ∧
      closed reported origin = place := by
  induction place generalizing value reported with
  | nil =>
      refine ⟨[], fun above hp => ?_, rfl, rfl⟩
      rw [List.prefix_nil.1 hp, root]
  | cons next rest ih =>
      rw [get?] at h
      cases hc : (value.pruned reported).child? next with
      | none =>
          rw [hc] at h
          cases h
      | some child =>
          rw [hc, Option.bind_some] at h
          obtain ⟨step, old, ho, free, rfl, rfl⟩ := exists_of_child?_pruned hc
          obtain ⟨origin, survives, there, rfl⟩ := @ih (step.within reported) old free h
          refine ⟨step :: origin, survives_cons_iff.2 ⟨root, survives⟩, ?_, rfl⟩
          rwa [get?, ho, Option.bind_some]

theorem closed_append (place rest : Location) :
    closed reported (place ++ rest) =
      closed reported place ++ closed (fun way => reported (place ++ way)) rest := by
  induction place generalizing reported with
  | nil => rfl
  | cons step place ih =>
      simp only [List.cons_append, closed, ih]
      rfl

theorem closed_index_lt (reported : Location → Bool) {i j : Nat} (lt : i < j)
    (free : reported [.index i] = false) :
    ((List.range' 0 i).countP fun j => !reported [.index j]) <
      (List.range' 0 j).countP fun j => !reported [.index j] := by
  have split : List.range' 0 j = List.range' 0 i ++ i :: List.range' (i + 1) (j - (i + 1)) := by
    rw [← List.range'_succ]
    have := @List.range'_append 0 i (j - (i + 1) + 1) 1
    rw [Nat.zero_add, Nat.one_mul] at this
    rw [this]
    congr 1
    omega
  rw [split, List.countP_append, List.countP_cons_of_pos (by simp [free])]
  omega

theorem pruned_without (root : reported [] = false) (document : Json) :
    Pruned reported document (document.without reported) := by
  rw [without, root, if_neg Bool.false_ne_true]
  refine ⟨fun _ => get?_pruned, fun _ => exists_of_get?_pruned root, fun place i j lt free => ?_⟩
  have taken : reported (place ++ [.index i]) = false := free _ (List.prefix_refl _)
  exact ⟨_, _, closed_index_lt (fun way => reported (place ++ way)) lt taken,
    closed_append place [.index i], closed_append place [.index j]⟩

end Json

end RecordPath
