import Mathlib.Data.List.Basic
import RecordPath.Proofs.Json.Shell
import RecordPath.Proofs.Query.Places

namespace RecordPath.Query

open Json

def IsOutermost (places : List Location) (place : Location) : Prop :=
  ∀ other ∈ places, other <+: place → other = place

def waysOn (place : Location) (places : List Location) : List Location :=
  places.filterMap place.isPrefixOf?

/-- Whatever is not at or below one of the places is as before, but for what is inside it; and all
of it is, where no place is inside. -/
structure Outside (places : List Location) (before after : Json) : Prop where
  shell : ∀ off, (∀ place ∈ places, ¬ place <+: off) →
    (after.get? off).map shell = (before.get? off).map shell
  apart : ∀ off, (∀ place ∈ places, ¬ place <+: off ∧ ¬ off <+: place) →
    after.get? off = before.get? off

structure Replaced (value : Json) (places : List Location) (before after : Json) : Prop where
  outermost : ∀ place ∈ places, IsOutermost places place → after.get? place = some value
  outside : Outside places before after

def Undisturbed (value : Json) (places : List Location) : Prop :=
  ∀ before place after, places = before ++ place :: after → place ∉ after →
    IsOutermost places place → ∀ way, place ++ way ∈ after → value.get? way = none

section ReplaceAll

variable {value document old : Json} {places ways : List Location} {place off : Location}

theorem replaceAll_cons (value : Json) (place : Location) (places : List Location)
    (document : Json) :
    replaceAll value (place :: places) document =
      replaceAll value places (document.update (fun _ => value) place) :=
  rfl

theorem shell_get?_replaceAll (h : ∀ place ∈ places, ¬ place <+: off) :
    ((replaceAll value places document).get? off).map shell = (document.get? off).map shell := by
  induction places generalizing document with
  | nil => rfl
  | cons place rest ih =>
      rw [replaceAll_cons, ih fun other ho => h other (List.mem_cons_of_mem _ ho),
        shell_get?_update (h place List.mem_cons_self)]

theorem get?_replaceAll_apart (h : ∀ place ∈ places, ¬ place <+: off ∧ ¬ off <+: place) :
    (replaceAll value places document).get? off = document.get? off := by
  induction places generalizing document with
  | nil => rfl
  | cons place rest ih =>
      obtain ⟨away, back⟩ := h place List.mem_cons_self
      rw [replaceAll_cons, ih fun other ho => h other (List.mem_cons_of_mem _ ho),
        get?_update_off away back]

theorem get?_replaceAll_outermost (outermost : IsOutermost places place)
    (there : document.get? place = some old) :
    (replaceAll value places document).get? place =
      some (replaceAll value (waysOn place places) old) := by
  -- The induction is over the places, with the value there as the earlier puts have left it.
  induction places generalizing document old with
  | nil => exact there
  | cons other rest ih =>
      have above : IsOutermost rest place := fun next hn =>
        outermost next (List.mem_cons_of_mem _ hn)
      rw [replaceAll_cons]
      cases hw : place.isPrefixOf? other with
      | some way =>
          obtain rfl := List.isPrefixOf?_eq_some_iff_append_eq.1 hw
          rw [waysOn, List.filterMap_cons_some hw, replaceAll_cons]
          refine ih above ?_
          rw [update_append]
          exact get?_update_self _ there
      | none =>
          -- Neither place is above the other, so this put does not reach the one looked at.
          have below : ¬ place <+: other := by
            rintro ⟨way, rfl⟩
            rw [List.isPrefixOf?_eq_some_iff_append_eq.2 rfl] at hw
            cases hw
          have away : ¬ other <+: place := fun hp =>
            below (outermost other List.mem_cons_self hp ▸ List.prefix_refl _)
          rw [waysOn, List.filterMap_cons_none hw]
          refine ih above ?_
          rw [get?_update_off away below, there]

theorem replaceAll_append_nil (before after : List Location) :
    replaceAll value (before ++ [] :: after) document = replaceAll value after value := by
  rw [replaceAll, List.foldl_append, List.foldl_cons]
  rfl

theorem update_ne_self {way : Location} (nonempty : way ≠ []) (reached : document.get? way ≠ none) :
    update (fun _ => value) way document ≠ value := by
  obtain ⟨old, ho⟩ := Option.ne_none_iff_exists'.1 reached
  have put : (update (fun _ => value) way document).get? way = some value :=
    get?_update_self _ ho
  intro same
  rw [same] at put
  exact get?_ne_self nonempty put

theorem replaceAll_ne_self (nonempty : ∀ way ∈ ways, way ≠ []) (other : document ≠ value) :
    replaceAll value ways document ≠ value := by
  induction ways generalizing document with
  | nil => exact other
  | cons way rest ih =>
      rw [replaceAll_cons]
      refine ih (fun next hn => nonempty next (List.mem_cons_of_mem _ hn)) ?_
      by_cases reached : document.get? way = none
      · rwa [update_of_get?_none reached]
      · exact update_ne_self (nonempty way List.mem_cons_self) reached

theorem replaceAll_eq_self_iff (nonempty : ∀ way ∈ ways, way ≠ []) :
    replaceAll value ways value = value ↔ ∀ way ∈ ways, value.get? way = none := by
  induction ways with
  | nil => exact iff_of_true rfl nofun
  | cons way rest ih =>
      have later : ∀ next ∈ rest, next ≠ [] := fun next hn =>
        nonempty next (List.mem_cons_of_mem _ hn)
      rw [replaceAll_cons, List.forall_mem_cons]
      by_cases reached : value.get? way = none
      · rw [update_of_get?_none reached, ih later]
        exact (and_iff_right reached).symm
      · refine iff_of_false ?_ fun h => reached h.1
        exact replaceAll_ne_self later (update_ne_self (nonempty way List.mem_cons_self) reached)

theorem mem_waysOn {way : Location} : way ∈ waysOn place places ↔ place ++ way ∈ places := by
  simp only [waysOn, List.mem_filterMap, List.isPrefixOf?_eq_some_iff_append_eq]
  constructor
  · rintro ⟨other, ho, rfl⟩
    exact ho
  · intro h
    exact ⟨_, h, rfl⟩

theorem get?_replaceAll_last {before after : List Location}
    (split : places = before ++ place :: after) (outermost : IsOutermost places place)
    (there : (document.get? place).isSome = true) :
    (replaceAll value places document).get? place =
      some (replaceAll value (waysOn place after) value) := by
  obtain ⟨old, ho⟩ := Option.isSome_iff_exists.1 there
  have self : place.isPrefixOf? place = some [] :=
    List.isPrefixOf?_eq_some_iff_append_eq.2 (List.append_nil place)
  have ways : waysOn place places = waysOn place before ++ [] :: waysOn place after := by
    rw [split, waysOn, List.filterMap_append, List.filterMap_cons_some self]
    rfl
  rw [get?_replaceAll_outermost outermost ho, ways, replaceAll_append_nil]

theorem exists_last (h : place ∈ places) :
    ∃ before after, places = before ++ place :: after ∧ place ∉ after := by
  obtain ⟨after, before, split, last⟩ := List.eq_append_cons_of_mem (List.mem_reverse.2 h)
  refine ⟨before.reverse, after.reverse, ?_, fun hm => last (List.mem_reverse.1 hm)⟩
  rw [← List.reverse_reverse places, split]
  simp

theorem outside_replaceAll (value : Json) (places : List Location) (document : Json) :
    Outside places document (replaceAll value places document) :=
  ⟨fun _ => shell_get?_replaceAll, fun _ => get?_replaceAll_apart⟩

theorem replaced_replaceAll_iff
    (there : ∀ place ∈ places, (document.get? place).isSome = true) :
    Replaced value places document (replaceAll value places document) ↔
      Undisturbed value places := by
  have holds {before place after} (split : places = before ++ place :: after)
      (last : place ∉ after) (outermost : IsOutermost places place) :
      (replaceAll value places document).get? place = some value ↔
        ∀ way, place ++ way ∈ after → value.get? way = none := by
    have mem : place ∈ places := split ▸ List.mem_append_right _ List.mem_cons_self
    have below : ∀ way ∈ waysOn place after, way ≠ [] := by
      rintro way hw rfl
      rw [mem_waysOn, List.append_nil] at hw
      exact last hw
    rw [get?_replaceAll_last split outermost (there place mem), Option.some.injEq,
      replaceAll_eq_self_iff below]
    simp only [mem_waysOn]
  constructor
  · intro replaced before place after split last outermost
    have mem : place ∈ places := split ▸ List.mem_append_right _ List.mem_cons_self
    exact (holds split last outermost).1 (replaced.outermost place mem outermost)
  · intro undisturbed
    refine ⟨fun place hp outermost => ?_, outside_replaceAll value places document⟩
    obtain ⟨before, after, split, last⟩ := exists_last hp
    exact (holds split last outermost).2 (undisturbed before place after split last outermost)

end ReplaceAll

section Put

variable {subtree value : Json} {residual : Residual} {record : RecordContext}
  {places : List Location}

theorem setOrAdd_of_locations
    (found : locations (render record residual.tokens) subtree = .ok places)
    (matched : places ≠ []) :
    setOrAdd subtree residual record value = .ok (replaceAll value places subtree) := by
  cases places with
  | nil => exact absurd rfl matched
  | cons place rest => simp only [setOrAdd, found]

/-- A put through a query changes nothing outside the matches, and leaves in an outermost one the
value, followed into by the matches reported later; it replaces the matches by the value itself
just when it is undisturbed by them. -/
theorem setOrAdd_replaced_iff
    (found : locations (render record residual.tokens) subtree = .ok places)
    (matched : places ≠ [])
    (there : ∀ place ∈ places, (subtree.get? place).isSome = true) :
    ∃ changed, setOrAdd subtree residual record value = .ok changed ∧
      Outside places subtree changed ∧
      (∀ before place after, places = before ++ place :: after → IsOutermost places place →
        changed.get? place = some (replaceAll value (waysOn place after) value)) ∧
      (Replaced value places subtree changed ↔ Undisturbed value places) := by
  refine ⟨_, setOrAdd_of_locations found matched, outside_replaceAll value places subtree, ?_,
    replaced_replaceAll_iff there⟩
  intro before place after split outermost
  have mem : place ∈ places := split ▸ List.mem_append_right _ List.mem_cons_self
  exact get?_replaceAll_last split outermost (there place mem)

theorem setOrAdd_replaced_below :
    let subtree : Json := .obj [("a", .obj [("a", .nat 1), ("b", .nat 2)])]
    let value : Json := .obj [("b", .obj [("a", .nat 0)])]
    let residual : Residual := ⟨"$..a", [.deepScan, .key "a"]⟩
    let places : List Location := [[.key "a"], [.key "a", .key "a"]]
    locations (render ⟨0, 0, 0⟩ residual.tokens) subtree = .ok places ∧ places ≠ [] ∧
      (∀ place ∈ places, (subtree.get? place).isSome = true) ∧
      ∃ changed, setOrAdd subtree residual ⟨0, 0, 0⟩ value = .ok changed ∧
        Outside places subtree changed ∧ Replaced value places subtree changed := by
  intro subtree value residual places
  have found : locations (render ⟨0, 0, 0⟩ residual.tokens) subtree = .ok places := by
    decide +kernel
  have there : ∀ place ∈ places, (subtree.get? place).isSome = true := by decide +kernel
  obtain ⟨changed, done, outside, -, replaced⟩ :=
    @setOrAdd_replaced_iff subtree value residual ⟨0, 0, 0⟩ places found (List.cons_ne_nil _ _)
      there
  refine ⟨found, List.cons_ne_nil _ _, there, changed, done, outside, replaced.2 ?_⟩
  intro before place after split last outermost way inside
  match before, split with
  | [], split =>
      obtain ⟨rfl, rfl⟩ := List.cons.inj split
      cases List.mem_singleton.1 inside
      rfl
  | [_], split =>
      obtain ⟨-, rest⟩ := List.cons.inj split
      obtain ⟨rfl, rfl⟩ := List.cons.inj rest
      cases inside
  | _ :: _ :: before, split =>
      have := congrArg List.length split
      simp [places] at this

theorem not_replaced_inside_value :
    let subtree : Json := .obj [("a", .obj [("a", .nat 1)])]
    let value : Json := .obj [("a", .nat 0)]
    let places : List Location := [[.key "a"], [.key "a", .key "a"]]
    ∃ (residual : Residual) (changed : Json),
      Path.compile "$..a" = .ok ⟨"$..a", [], some residual⟩ ∧
      locations (render ⟨0, 0, 0⟩ residual.tokens) subtree = .ok places ∧
      (∀ place ∈ places, (subtree.get? place).isSome = true) ∧
      setOrAdd subtree residual ⟨0, 0, 0⟩ value = .ok changed ∧
      ¬ Replaced value places subtree changed := by
  intro subtree value places
  refine ⟨⟨"$..a", [.deepScan, .key "a"]⟩, .obj [("a", .obj [("a", .obj [("a", .nat 0)])])],
    ?_, ?_, ?_, ?_, fun replaced => ?_⟩
  · decide +kernel
  · decide +kernel
  · decide +kernel
  · decide +kernel
  · have held := replaced.outermost [.key "a"] List.mem_cons_self (by
      intro other ho above
      rcases List.mem_cons.1 ho with rfl | ho
      · rfl
      · cases List.mem_singleton.1 ho
        exact absurd above (by decide))
    exact absurd held (by decide +kernel)

end Put

end RecordPath.Query
