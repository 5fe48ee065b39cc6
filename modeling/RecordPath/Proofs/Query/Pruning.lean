import Mathlib.Data.String.Basic
import RecordPath.Proofs.Json.Pruned
import RecordPath.Proofs.Json.Regular
import RecordPath.Query.Run

namespace RecordPath

namespace Step

variable {s t u : Step}

theorem before_self (s : Step) : s.before s = false := by
  cases s <;> simp [before]

theorem before_trans (h : s.before t = true) (h' : t.before u = true) : s.before u = true := by
  cases s <;> cases t <;> cases u <;> simp only [before, decide_eq_true_eq] at *
  case key.key.key => exact lt_trans h h'
  case index.index.index => exact Nat.lt_trans h h'
  all_goals contradiction

theorem before_or_before (h : s ≠ t) : s.before t = true ∨ t.before s = true := by
  cases s <;> cases t <;> simp only [before, decide_eq_true_eq]
  case key.key a b => exact lt_or_gt_of_ne fun e => h (e ▸ rfl)
  case index.index i j => exact Nat.lt_or_gt_of_ne fun e => h (e ▸ rfl)
  case key.index => exact .inl trivial
  case index.key => exact .inr trivial

end Step

namespace Location

variable {l m n : Location} {s t : Step}

theorem before_cons_self : before (s :: l) (s :: m) = before l m := by
  rw [before, if_pos rfl]

theorem before_cons_of_ne (h : s ≠ t) : before (s :: l) (t :: m) = s.before t := by
  rw [before, if_neg h]

theorem before_nil (l : Location) : before l [] = false := by
  cases l <;> rfl

theorem before_self (l : Location) : before l l = false := by
  induction l with
  | nil => rfl
  | cons step rest ih => rw [before_cons_self, ih]

theorem before_trans : ∀ {l m n : Location},
    before l m = true → before m n = true → before l n = true
  | _, [], _, h, _ => by simp [before_nil] at h
  | _, _ :: _, [], _, h' => by simp [before] at h'
  | [], _ :: _, _ :: _, _, _ => rfl
  | s :: l, t :: m, u :: n, h, h' => by
      by_cases st : s = t
      · subst st
        rw [before_cons_self] at h
        by_cases su : s = u
        · subst su
          rw [before_cons_self] at h' ⊢
          exact before_trans h h'
        · rw [before_cons_of_ne su] at h' ⊢
          exact h'
      · rw [before_cons_of_ne st] at h
        by_cases tu : t = u
        · subst tu
          rwa [before_cons_of_ne st]
        · rw [before_cons_of_ne tu] at h'
          have su : s ≠ u := by
            rintro rfl
            have := Step.before_trans h h'
            rw [Step.before_self] at this
            cases this
          rw [before_cons_of_ne su]
          exact Step.before_trans h h'

theorem before_or_before : ∀ {l m : Location}, l ≠ m → before l m = true ∨ before m l = true
  | [], [], h => absurd rfl h
  | [], _ :: _, _ => .inl rfl
  | _ :: _, [], _ => .inr rfl
  | s :: l, t :: m, h => by
      by_cases st : s = t
      · subst st
        rw [before_cons_self, before_cons_self]
        exact before_or_before fun e => h (e ▸ rfl)
      · rw [before_cons_of_ne st, before_cons_of_ne (Ne.symm st)]
        exact Step.before_or_before st

end Location

namespace Query

open Json

section Falling

variable {places : List Location} {place other : Location}

def Falls (places : List Location) : Prop :=
  places.Pairwise fun place next => Location.before next place = true

theorem mem_enter : other ∈ enter place places ↔ other = place ∨ other ∈ places := by
  induction places with
  | nil => simp [enter]
  | cons first rest ih =>
      rw [enter]
      split
      · rename_i same
        simp [same]
      · split
        · exact List.mem_cons
        · rw [List.mem_cons, ih, List.mem_cons]
          exact or_left_comm

theorem falls_enter (falls : Falls places) : Falls (enter place places) := by
  induction places with
  | nil => exact List.pairwise_singleton _ _
  | cons first rest ih =>
      obtain ⟨after, falls⟩ := List.pairwise_cons.1 falls
      rw [enter]
      split
      · exact List.pairwise_cons.2 ⟨after, falls⟩
      · rename_i ne
        split
        · rename_i earlier
          refine List.pairwise_cons.2 ⟨?_, List.pairwise_cons.2 ⟨after, falls⟩⟩
          exact List.forall_mem_cons.2
            ⟨earlier, fun next hn => Location.before_trans (after next hn) earlier⟩
        · rename_i later
          refine List.pairwise_cons.2 ⟨fun next hn => ?_, ih falls⟩
          rcases mem_enter.1 hn with rfl | hn
          · exact (Location.before_or_before ne).resolve_right later
          · exact after next hn

theorem mem_falling : other ∈ falling places ↔ other ∈ places := by
  induction places with
  | nil => exact Iff.rfl
  | cons place rest ih => rw [falling, List.foldr_cons, ← falling, mem_enter, ih, List.mem_cons]

theorem falls_falling (places : List Location) : Falls (falling places) := by
  induction places with
  | nil => exact .nil
  | cons place rest ih => exact falls_enter ih

end Falling

section Remove

variable {reported : Location → Bool} {place rest : Location} {step next : Step} {i : Nat}
  {items : List Json} {members : List (String × Json)} {value : Json}

def Follows (reported : Location → Bool) (place : Location) : Prop :=
  ∀ other, reported other = true → Location.before place other = true

def also (place : Location) (reported : Location → Bool) : Location → Bool :=
  fun other => reported other || decide (other = place)

theorem Follows.not_reported (follows : Follows reported place)
    (h : Location.before place rest = false) : reported rest = false := by
  cases taken : reported rest with
  | false => rfl
  | true =>
      rw [follows rest taken] at h
      cases h

theorem Follows.root (follows : Follows reported place) : reported [] = false :=
  follows.not_reported (Location.before_nil place)

theorem Follows.head (follows : Follows reported (step :: rest)) : reported [step] = false :=
  follows.not_reported (by rw [Location.before_cons_self, Location.before_nil])

theorem Follows.tail (follows : Follows reported (step :: rest)) :
    Follows (step.within reported) rest := by
  intro other taken
  have := follows _ taken
  rwa [Location.before_cons_self] at this

theorem Follows.index_le (follows : Follows reported (.index i :: rest)) {j : Nat} (h : j ≤ i) :
    reported [.index j] = false := by
  rcases Nat.eq_or_lt_of_le h with rfl | lt
  · exact follows.head
  · refine follows.not_reported ?_
    have apart : Step.index i ≠ .index j := by
      rintro ⟨⟩
      exact Nat.lt_irrefl _ lt
    rw [Location.before_cons_of_ne apart, Step.before, decide_eq_false_iff_not]
    omega

theorem without_of_follows (follows : Follows reported place) :
    value.without reported = value.pruned reported := by
  rw [without, follows.root, if_neg Bool.false_ne_true]

theorem without_also_cons (follows : Follows reported (step :: rest)) :
    value.without (also (step :: rest) reported) = value.pruned (also (step :: rest) reported) := by
  rw [without, show also (step :: rest) reported [] = false by simp [also, follows.root],
    if_neg Bool.false_ne_true]

theorem within_also_self : step.within (also (step :: rest) reported) =
    also rest (step.within reported) := by
  funext other
  simp [Step.within, also]

theorem within_also_of_ne (h : next ≠ step) :
    next.within (also (step :: rest) reported) = next.within reported := by
  funext other
  simp [Step.within, also, h]

theorem prunedItems_append (reported : Location → Bool) (i : Nat) (before after : List Json) :
    prunedItems reported i (before ++ after) =
      prunedItems reported i before ++ prunedItems reported (i + before.length) after := by
  induction before generalizing i with
  | nil => simp [prunedItems]
  | cons item before ih =>
      have shifted : i + (item :: before).length = i + 1 + before.length := by
        rw [List.length_cons]
        omega
      rw [List.cons_append, prunedItems, prunedItems, ih, shifted]
      split <;> rfl

theorem prunedItems_congr {other : Location → Bool} {k : Nat}
    (same : ∀ j, k ≤ j → j < k + items.length →
      (Step.index j).within reported = (Step.index j).within other) :
    prunedItems reported k items = prunedItems other k items := by
  induction items generalizing k with
  | nil => simp [prunedItems]
  | cons item items ih =>
      rw [List.length_cons] at same
      have first := same k (Nat.le_refl k) (by omega)
      have taken : reported [.index k] = other [.index k] := congrFun first []
      rw [prunedItems, prunedItems, first, taken,
        ih fun j hk hj => same j (by omega) (by omega)]

theorem length_prunedItems {k : Nat}
    (free : ∀ j, k ≤ j → j < k + items.length → reported [.index j] = false) :
    (prunedItems reported k items).length = items.length := by
  induction items generalizing k with
  | nil => simp [prunedItems]
  | cons item items ih =>
      rw [List.length_cons] at free
      rw [prunedItems, free k (Nat.le_refl k) (by omega), if_neg Bool.false_ne_true,
        List.length_cons, List.length_cons, ih fun j hk hj => free j (by omega) (by omega)]

theorem prunedItems_also_congr {k : Nat} (apart : ∀ j, k ≤ j → j < k + items.length → j ≠ i) :
    prunedItems (also (.index i :: rest) reported) k items = prunedItems reported k items :=
  prunedItems_congr fun j hk hj =>
    within_also_of_ne fun e => apart j hk hj (Step.index.inj e)

/-- The item that is reported first of all is still at its position when the others are gone. -/
theorem prunedItems_around {item : Json} (follows : Follows reported (.index i :: rest))
    (there : items[i]? = some item) :
    ∃ front back, front.length = i ∧
      prunedItems reported 0 items =
        front ++ item.pruned ((Step.index i).within reported) :: back ∧
      prunedItems (also (.index i :: rest) reported) 0 items =
        front ++ if rest = [] then back
          else item.pruned (also rest ((Step.index i).within reported)) :: back := by
  obtain ⟨hi, rfl⟩ := List.getElem?_eq_some_iff.1 there
  obtain ⟨before, item, after, split, rfl⟩ :
      ∃ before item after, items = before ++ item :: after ∧ before.length = i :=
    ⟨items.take i, items[i], items.drop (i + 1), by simp, by simp; omega⟩
  have same : items[before.length] = item := by simp [split]
  have taken : also (.index before.length :: rest) reported [.index before.length] =
      decide (rest = []) := by
    simp [also, follows.head, eq_comm]
  refine ⟨prunedItems reported 0 before, prunedItems reported (before.length + 1) after,
    length_prunedItems fun j _ hj => follows.index_le (by omega), ?_, ?_⟩
  · rw [same, split, prunedItems_append, Nat.zero_add, prunedItems, follows.head,
      if_neg Bool.false_ne_true]
  · rw [same, split, prunedItems_append, Nat.zero_add, prunedItems, taken, within_also_self,
      prunedItems_also_congr fun j _ hj => by omega,
      prunedItems_also_congr fun j hj _ => by omega]
    simp only [decide_eq_true_eq]

theorem remove_prunedItems (follows : Follows reported (.index i :: rest))
    (inner : ∀ item, items[i]? = some item →
      remove rest (item.without ((Step.index i).within reported)) =
        item.without (also rest ((Step.index i).within reported))) :
    remove (.index i :: rest) (.array (prunedItems reported 0 items)) =
      .array (prunedItems (also (.index i :: rest) reported) 0 items) := by
  cases there : items[i]? with
  | none =>
      have beyond : items.length ≤ i := List.getElem?_eq_none_iff.1 there
      have length : (prunedItems reported 0 items).length = items.length :=
        length_prunedItems fun j _ hj => follows.index_le (by omega)
      rw [prunedItems_also_congr fun j _ hj => by omega]
      cases rest with
      | nil =>
          simp only [remove, removeChild]
          rw [List.eraseIdx_of_length_le (length ▸ beyond)]
      | cons next rest =>
          have absent : (Json.array (prunedItems reported 0 items)).child? (.index i) = none :=
            List.getElem?_eq_none (by omega)
          simp only [remove, absent]
  | some item =>
      obtain ⟨front, back, rfl, was, is⟩ := prunedItems_around follows there
      rw [was, is]
      cases rest with
      | nil =>
          simp only [remove, removeChild, if_true,
            List.eraseIdx_append_of_length_le (Nat.le_refl front.length), Nat.sub_self,
            List.eraseIdx_cons_zero]
      | cons next rest =>
          have child : (Json.array (front ++
              item.pruned ((Step.index front.length).within reported) :: back)).child?
                (.index front.length) =
              some (item.pruned ((Step.index front.length).within reported)) := by
            rw [child?, List.getElem?_append_right (Nat.le_refl _), Nat.sub_self,
              List.getElem?_cons_zero]
          have changed := inner item there
          rw [without_of_follows follows.tail, without_also_cons follows.tail] at changed
          simp only [remove, child, changed, setChild, reduceCtorEq, if_false,
            List.set_append_right _ _ (Nat.le_refl front.length), Nat.sub_self,
            List.set_cons_zero]

theorem prunedMembers_congr {other : Location → Bool}
    (same : ∀ member ∈ members, (Step.key member.1).within reported =
      (Step.key member.1).within other) :
    prunedMembers reported members = prunedMembers other members := by
  induction members with
  | nil => rfl
  | cons member members ih =>
      obtain ⟨first, others⟩ := List.forall_mem_cons.1 same
      have taken : reported [.key member.1] = other [.key member.1] := congrFun first []
      rw [prunedMembers, prunedMembers, first, taken, ih others]

theorem erase_prunedMembers {name : String} (follows : Follows reported [.key name]) :
    Members.erase name (prunedMembers reported members) =
      prunedMembers (also [.key name] reported) members := by
  induction members with
  | nil => rfl
  | cons member members ih =>
      obtain ⟨other, value⟩ := member
      rw [prunedMembers, prunedMembers]
      by_cases same : other = name
      · subst same
        simp [follows.head, also, Members.erase, ← ih]
      · have apart : Step.key other ≠ .key name := fun e => same (Step.key.inj e)
        have taken : also [.key name] reported [.key other] = reported [.key other] := by
          simp [also, same]
        rw [taken, within_also_of_ne apart, ← ih]
        split
        · rfl
        · rw [Members.erase, if_neg same]

theorem replace_prunedMembers {name : String} (distinct : (members.map Prod.fst).Nodup)
    (free : reported [.key name] = false) (there : Members.get? name members = some value) :
    Members.replace name (value.pruned (also (next :: rest) ((Step.key name).within reported)))
        (prunedMembers reported members) =
      prunedMembers (also (.key name :: next :: rest) reported) members := by
  induction members with
  | nil => cases there
  | cons member members ih =>
      obtain ⟨other, found⟩ := member
      obtain ⟨absent, distinct⟩ := List.nodup_cons.1 distinct
      rw [prunedMembers, prunedMembers]
      have taken : also (.key name :: next :: rest) reported [.key other] =
          reported [.key other] := by
        simp [also]
      rw [taken]
      by_cases same : other = name
      · subst same
        rw [Members.get?, if_pos rfl, Option.some.injEq] at there
        subst there
        have others : prunedMembers (also (.key other :: next :: rest) reported) members =
            prunedMembers reported members := by
          refine prunedMembers_congr fun member hm => within_also_of_ne fun e => absent ?_
          exact List.mem_map.2 ⟨member, hm, Step.key.inj e⟩
        rw [free, if_neg Bool.false_ne_true, if_neg Bool.false_ne_true, Members.replace,
          if_pos rfl, others, within_also_self]
      · rw [Members.get?, if_neg same] at there
        have apart : Step.key other ≠ .key name := fun e => same (Step.key.inj e)
        rw [within_also_of_ne apart, ← ih distinct there]
        split
        · rfl
        · rw [Members.replace, if_neg same]

theorem remove_prunedMembers {name : String} (distinct : (members.map Prod.fst).Nodup)
    (follows : Follows reported (.key name :: rest))
    (inner : ∀ value, Members.get? name members = some value →
      remove rest (value.without ((Step.key name).within reported)) =
        value.without (also rest ((Step.key name).within reported))) :
    remove (.key name :: rest) (.object (prunedMembers reported members)) =
      .object (prunedMembers (also (.key name :: rest) reported) members) := by
  cases rest with
  | nil => simp only [remove, removeChild, erase_prunedMembers follows]
  | cons next rest =>
      cases there : Members.get? name members with
      | none =>
          have absent :
              (Json.object (prunedMembers reported members)).child? (.key name) = none := by
            rw [child?, get?_prunedMembers, there, Option.map_none, ite_self]
          have same : prunedMembers (also (.key name :: next :: rest) reported) members =
              prunedMembers reported members := by
            refine prunedMembers_congr fun member hm => within_also_of_ne fun e => ?_
            have found := Members.get?_of_mem distinct hm
            rw [Step.key.inj e, there] at found
            cases found
          simp only [remove, absent, same]
      | some value =>
          have child : Members.get? name (prunedMembers reported members) =
              some (value.pruned ((Step.key name).within reported)) := by
            rw [get?_prunedMembers, follows.head, if_neg Bool.false_ne_true, there, Option.map_some]
          have changed := inner value there
          rw [without_of_follows follows.tail, without_also_cons follows.tail] at changed
          simp only [remove, child?, child, changed, setChild, Members.contains,
            Option.isSome_some, if_true, Members.insert,
            replace_prunedMembers distinct follows.head there]

theorem remove_without (regular : value.isRegular = true) (follows : Follows reported place) :
    remove place (value.without reported) = value.without (also place reported) := by
  -- Inside its first step the place comes before all that is reported there, which carries the
  -- induction on the place.
  induction place generalizing value reported with
  | nil =>
      rw [without_of_follows follows, without, show also [] reported [] = true by simp [also],
        if_pos rfl]
      cases value <;> rfl
  | cons step rest ih =>
      rw [without_of_follows follows, without_also_cons follows]
      have inner (child : Json) (hc : value.child? step = some child) :=
        ih (isRegular_child regular hc).1 follows.tail
      cases value with
      | array items =>
          cases step with
          | index i => exact remove_prunedItems follows fun item hc => inner item hc
          | key name =>
              have same : prunedItems reported 0 items =
                  prunedItems (also (.key name :: rest) reported) 0 items :=
                prunedItems_congr fun j _ _ => (within_also_of_ne (by rintro ⟨⟩)).symm
              rw [pruned, pruned, ← same]
              cases rest <;> rfl
      | object members =>
          cases step with
          | index i =>
              have same : prunedMembers reported members =
                  prunedMembers (also (.index i :: rest) reported) members :=
                prunedMembers_congr fun member _ => (within_also_of_ne (by rintro ⟨⟩)).symm
              rw [pruned, pruned, ← same]
              cases rest <;> rfl
          | key name =>
              have distinct : (members.map Prod.fst).Nodup := by
                simp only [isRegular, Bool.and_eq_true, decide_eq_true_eq] at regular
                exact regular.1
              exact remove_prunedMembers distinct follows fun child hc => inner child hc
      | _ => cases step <;> cases rest <;> rfl

mutual

theorem pruned_nothing : ∀ value : Json, value.pruned (fun _ => false) = value
  | .null => rfl
  | .bool _ => rfl
  | .number _ => rfl
  | .string _ => rfl
  | .array items => congrArg Json.array (prunedItems_nothing 0 items)
  | .object members => congrArg Json.object (prunedMembers_nothing members)

theorem prunedItems_nothing (i : Nat) :
    ∀ items : List Json, prunedItems (fun _ => false) i items = items
  | [] => rfl
  | item :: items => by
      rw [prunedItems, prunedItems_nothing (i + 1) items]
      exact congrArg (· :: items) (pruned_nothing item)

theorem prunedMembers_nothing :
    ∀ members : List (String × Json), prunedMembers (fun _ => false) members = members
  | [] => rfl
  | (name, value) :: members => by
      rw [prunedMembers, prunedMembers_nothing members]
      exact congrArg (fun value => (name, value) :: members) (pruned_nothing value)

end

theorem foldr_remove {places : List Location} (regular : value.isRegular = true)
    (rises : places.Pairwise fun place next => Location.before place next = true) :
    places.foldr remove value = value.without fun place => decide (place ∈ places) := by
  induction places with
  | nil =>
      simp only [List.foldr_nil, List.not_mem_nil, decide_false, without, Bool.false_eq_true,
        if_false, pruned_nothing]
  | cons place rest ih =>
      obtain ⟨after, rises⟩ := List.pairwise_cons.1 rises
      have follows : Follows (fun place => decide (place ∈ rest)) place :=
        fun other taken => after other (of_decide_eq_true taken)
      have listed : also place (fun place => decide (place ∈ rest)) =
          fun other => decide (other ∈ place :: rest) := by
        funext other
        simp [also, Bool.or_comm]
      rw [List.foldr_cons, ih rises, remove_without regular follows, listed]

theorem removeAll_eq_without (regular : value.isRegular = true) (places : List Location) :
    removeAll places value = value.without fun place => decide (place ∈ places) := by
  have rises : (falling places).reverse.Pairwise fun place next =>
      Location.before place next = true := List.pairwise_reverse.2 (falls_falling places)
  have folded : removeAll places value = (falling places).reverse.foldr remove value := by
    rw [List.foldr_reverse]
    rfl
  rw [folded, foldr_remove regular rises]
  simp only [List.mem_reverse, mem_falling]

end Remove

section Delete

variable {subtree : Json} {residual : Residual} {record : RecordContext} {places : List Location}

theorem delete_pruned (regular : subtree.isRegular = true)
    (found : locations (render record residual.tokens) subtree = .ok places) :
    let reported : Location → Bool := fun place => decide (place ∈ places)
    ∃ changed, delete subtree residual record = .ok changed ∧
      changed = subtree.without reported ∧
      ([] ∉ places → Pruned reported subtree changed) ∧
      ([] ∈ places → changed = subtree.emptied?.getD .null) ∧
      ∀ others, (∀ place, place ∈ others ↔ place ∈ places) →
        removeAll others subtree = changed := by
  intro reported
  refine ⟨subtree.without reported, ?_, rfl, fun root => ?_, fun root => ?_, fun others same => ?_⟩
  · rw [delete, found, Except.map, removeAll_eq_without regular]
  · exact pruned_without (decide_eq_false root) subtree
  · rw [without, show reported [] = true from decide_eq_true root, if_pos rfl]
  · simp only [removeAll_eq_without regular, same, reported]

/-- One match is reported twice and lies inside another, whose removal moves the last item. -/
theorem delete_pruned_nested :
    let subtree : Json := .obj [("a", .array
      [.array [.nat 7, .nat 8], .obj [("a", .array [.nat 2, .nat 3])], .nat 4])]
    let residual : Residual := ⟨"$..a..[1]", [.deepScan, .key "a", .deepScan, .index 1]⟩
    let inner : Location := [.key "a", .index 1, .key "a", .index 1]
    let places : List Location :=
      [[.key "a", .index 1], [.key "a", .index 0, .index 1], inner, inner]
    let changed : Json := .obj [("a", .array [.array [.nat 7], .nat 4])]
    subtree.isRegular = true ∧
      locations (render ⟨0, 0, 0⟩ residual.tokens) subtree = .ok places ∧
      delete subtree residual ⟨0, 0, 0⟩ = .ok changed ∧
      Pruned (fun place => decide (place ∈ places)) subtree changed := by
  intro subtree residual inner places changed
  have regular : subtree.isRegular = true := by decide +kernel
  have found : locations (render ⟨0, 0, 0⟩ residual.tokens) subtree = .ok places := by
    decide +kernel
  have done : delete subtree residual ⟨0, 0, 0⟩ = .ok changed := by decide +kernel
  obtain ⟨other, deleted, -, pruned, -⟩ := delete_pruned regular found
  cases done.symm.trans deleted
  exact ⟨regular, found, done, pruned (by decide)⟩

end Delete

end Query

end RecordPath
