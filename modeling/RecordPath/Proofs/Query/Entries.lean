import RecordPath.Proofs.Query.Growth

namespace RecordPath.Query

open Json

def widened (name : String) (value : Json) : Json → Json
  | .object members => .object (Members.insert name value members)
  | other => other

/-- The maps among the places have gained the value under a name that they did not have. Every value
is found where it was, with what is inside it changed only where such a map is at or inside it. -/
structure Entered (name : String) (value : Json) (places : List Location) (before after : Json) :
    Prop where
  gained : ∀ place ∈ places, ∀ members, before.get? place = some (.object members) →
    Members.get? name members = none ∧ after.get? (place ++ [.key name]) = some value
  kept : ∀ place old, before.get? place = some old → (after.get? place).map shell =
    some (if place ∈ places then widened name value old else old).shell
  apart : ∀ off old, before.get? off = some old →
    (∀ place ∈ places, ∀ members, before.get? place = some (.object members) → ¬ off <+: place) →
    after.get? off = some old

section Enter

variable {name : String} {value before document old : Json} {members now found : Members Json}
  {places others done : List Location} {place other off way : Location} {step : Step}

theorem shell_widened (name : String) (value : Json) (members : Members Json) :
    (widened name value (.object members)).shell =
      .object (Members.insert name .null (Members.mapValues (fun _ => .null) members)) := by
  rw [widened, shell, ← Members.insert_mapValues (fun _ => Json.null) name value members]

theorem entered_nil (name : String) (value before : Json) :
    Entered name value [] before before where
  gained _ mem := nomatch mem
  kept place old ho := by rw [ho, if_neg List.not_mem_nil, Option.map_some]
  apart _ _ ho _ := ho

theorem Entered.congr (entered : Entered name value places before document)
    (same : ∀ place, place ∈ others ↔ place ∈ places) :
    Entered name value others before document where
  gained place mem := entered.gained place ((same place).1 mem)
  kept place old ho := by simp only [same, entered.kept place old ho]
  apart off old ho away :=
    entered.apart off old ho fun place mem => away place ((same place).2 mem)

theorem get?_new_name (map : before.get? place = some (.object members))
    (free : Members.get? name members = none) (way : Location) :
    before.get? (place ++ .key name :: way) = none := by
  have absent : (Json.object members).child? (.key name) = none := free
  rw [get?_append, map, Option.bind_some, Json.get?, absent, Option.bind_none]

theorem ne_new_name (map : before.get? place = some (.object members))
    (free : Members.get? name members = none)
    (inside : before.get? (place ++ step :: way) = some old) : step ≠ .key name := by
  rintro rfl
  rw [get?_new_name map free way] at inside
  cases inside

theorem child?_insert_of_ne (h : step ≠ .key name) :
    (Json.object (Members.insert name value now)).child? step = (Json.object now).child? step := by
  cases step with
  | index i => rfl
  | key other =>
      have apart : other ≠ name := fun e => h (e ▸ rfl)
      exact Members.get?_insert_of_ne apart value now

theorem get?_enter_below (map : before.get? place = some (.object members))
    (free : Members.get? name members = none)
    (there : document.get? place = some (.object now))
    (inside : before.get? (place ++ step :: way) = some old) (rest : Location) :
    (update (fun _ => .object (Members.insert name value now)) place document).get?
        (place ++ step :: way ++ rest) = document.get? (place ++ step :: way ++ rest) := by
  rw [List.append_assoc, List.cons_append]
  exact get?_update_below there (child?_insert_of_ne (ne_new_name map free inside))

theorem get?_enter_inside (value : Json) (map : before.get? place = some (.object members))
    (free : Members.get? name members = none)
    (there : document.get? place = some (.object now))
    (inside : before.get? (place ++ step :: way) = some old) :
    (update (fun _ => .object (Members.insert name value now)) place document).get?
        (place ++ step :: way) = document.get? (place ++ step :: way) := by
  rw [← List.append_nil (place ++ step :: way)]
  exact get?_enter_below map free there inside []

section Map

variable (entered : Entered name value done before document)
  (map : before.get? place = some (.object members)) (free : Members.get? name members = none)
  (there : document.get? place = some (.object now))

include entered map free there

theorem Entered.enter_apart (ho : before.get? off = some old)
    (away : ∀ other ∈ done ++ [place], ∀ members, before.get? other = some (.object members) →
      ¬ off <+: other) :
    (update (fun _ => .object (Members.insert name value now)) place document).get? off =
      some old := by
  have back : ¬ off <+: place := away place (by simp) members map
  rw [← entered.apart off old ho fun other mem => away other (List.mem_append_left _ mem)]
  by_cases inside : place <+: off
  · obtain ⟨way, rfl⟩ := inside
    cases way with
    | nil =>
        rw [List.append_nil] at back
        exact absurd (List.prefix_refl place) back
    | cons step way => exact get?_enter_inside value map free there ho
  · exact get?_update_off inside back

variable (new : place ∉ done)

include new

theorem Entered.enter_gained (mem : other ∈ done)
    (ho : before.get? other = some (.object found)) :
    (update (fun _ => .object (Members.insert name value now)) place document).get?
      (other ++ [.key name]) = some value := by
  obtain ⟨absent, held⟩ := entered.gained other mem found ho
  rw [← held]
  -- The entry was not there before, so the map that gains one is neither the entry nor inside it.
  by_cases inside : place <+: other ++ [.key name]
  · rcases List.prefix_concat_iff.1 inside with whole | above
    · rw [whole, get?_new_name ho absent []] at map
      cases map
    · obtain ⟨way, rfl⟩ := above
      cases way with
      | nil =>
          rw [List.append_nil] at mem
          exact absurd mem new
      | cons step way => exact get?_enter_below map free there ho _
  · refine get?_update_off inside ?_
    rintro ⟨way, rfl⟩
    rw [List.append_assoc, List.cons_append, List.nil_append, get?_new_name ho absent way] at map
    cases map

theorem Entered.enter_kept (ho : before.get? other = some old) :
    ((update (fun _ => .object (Members.insert name value now)) place document).get? other).map
      shell = some (if other ∈ done ++ [place] then widened name value old else old).shell := by
  have shape := entered.kept place _ map
  rw [there, if_neg new, Option.map_some, Option.some.injEq] at shape
  by_cases same : other = place
  · subst same
    cases map.symm.trans ho
    rw [get?_update_self _ there, Option.map_some, if_pos (by simp), shell_widened,
      ← Json.object.inj shape, Members.insert_mapValues (fun _ => Json.null) name value now]
    rfl
  · have listed : other ∈ done ++ [place] ↔ other ∈ done := by simp [same]
    simp only [listed]
    by_cases inside : place <+: other
    · obtain ⟨way, rfl⟩ := inside
      cases way with
      | nil => exact absurd (List.append_nil place) same
      | cons step way => rw [get?_enter_inside value map free there ho, entered.kept _ old ho]
    · rw [shell_get?_update inside, entered.kept other old ho]

theorem Entered.enter_new : Entered name value (done ++ [place]) before
    (update (fun _ => .object (Members.insert name value now)) place document) where
  gained other mem found ho := by
    rcases List.mem_append.1 mem with earlier | last
    · exact ⟨(entered.gained other earlier found ho).1,
        entered.enter_gained map free there new earlier ho⟩
    · obtain rfl := List.mem_singleton.1 last
      cases map.symm.trans ho
      refine ⟨free, ?_⟩
      rw [get?_append, get?_update_self _ there, Option.bind_some, Json.get?, child?,
        Members.get?_insert_self, Option.bind_some, Json.get?]
  kept _ _ ho := entered.enter_kept map free there new ho
  apart _ _ ho away := entered.enter_apart map free there ho away

end Map

theorem Entered.enter (entered : Entered name value done before document)
    (map : before.get? place = some (.object members)) (free : Members.get? name members = none)
    (there : document.get? place = some (.object now)) :
    Entered name value (done ++ [place]) before
      (update (fun _ => .object (Members.insert name value now)) place document) := by
  by_cases met : place ∈ done
  · have held := (entered.gained place met members map).2
    rw [get?_append, there, Option.bind_some, Json.get?, child?] at held
    obtain ⟨same, hs, hv⟩ := Option.bind_eq_some_iff.1 held
    cases hv
    rw [Members.insert_get? hs, update_get? there]
    refine entered.congr fun other => ?_
    simp only [List.mem_append, List.mem_singleton, or_iff_left_iff_imp]
    rintro rfl
    exact met
  · exact entered.enter_new map free there met

theorem Entered.exists_now (entered : Entered name value done before document)
    (map : before.get? place = some (.object members)) :
    ∃ now, document.get? place = some (.object now) := by
  obtain ⟨found, there, shape⟩ := Option.map_eq_some_iff.1 (entered.kept place _ map)
  cases found with
  | object now => exact ⟨now, there⟩
  | _ => split at shape <;> cases shape

theorem widened_of_not_map (other : ∀ members, old ≠ .object members) :
    widened name value old = old := by
  cases old with
  | object members => exact absurd rfl (other members)
  | _ => rfl

theorem Entered.not_map_now (entered : Entered name value done before document)
    (ho : before.get? place = some old) (other : ∀ members, old ≠ .object members)
    (now : Members Json) : document.get? place ≠ some (.object now) := by
  intro there
  have shape := entered.kept place old ho
  rw [widened_of_not_map other, ite_self, there, Option.map_some, Option.some.injEq] at shape
  cases old with
  | object members => exact other members rfl
  | _ => cases shape

theorem Entered.pass (entered : Entered name value done before document)
    (ho : before.get? place = some old) (other : ∀ members, old ≠ .object members) :
    Entered name value (done ++ [place]) before document where
  gained spot mem found hs := by
    rcases List.mem_append.1 mem with earlier | last
    · exact entered.gained spot earlier found hs
    · obtain rfl := List.mem_singleton.1 last
      exact absurd (Option.some.inj (ho.symm.trans hs)) (other found)
  kept spot was hs := by
    rw [entered.kept spot was hs]
    by_cases h : spot = place
    · subst h
      cases ho.symm.trans hs
      rw [widened_of_not_map other, ite_self, ite_self]
    · have listed : spot ∈ done ++ [place] ↔ spot ∈ done := by simp [h]
      simp only [listed]
  apart off was hs away :=
    entered.apart off was hs fun spot mem => away spot (List.mem_append_left _ mem)

end Enter

end RecordPath.Query
