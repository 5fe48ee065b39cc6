import Mathlib.Data.List.Nodup
import RecordPath.Proofs.Json.Shell
import RecordPath.Proofs.Query.Places

/-!
Pushing a value onto all the lists a query reports, one after another. New items come after the
others, so no push moves what a later place leads to; each list takes the value as many times as it
is reported, and all else stays.
-/

namespace RecordPath.Query

open Json

def longer (value : Json) (n : Nat) : Json → Json
  | .array items => .array (items ++ List.replicate n value)
  | other => other

/-- Every value is found where it was, a list with the value at its end as many times as `times`
says for the place of the list, and otherwise only what is inside has changed; and that has only
where a list inside has grown. -/
structure Grown (value : Json) (times : Location → Nat) (before after : Json) : Prop where
  kept : ∀ place old, before.get? place = some old →
    (after.get? place).map shell = some (longer value (times place) old).shell
  added : ∀ place items i, before.get? place = some (.array items) → i < times place →
    after.get? (place ++ [.index (items.length + i)]) = some value
  apart : ∀ off old, before.get? off = some old → (∀ place, off <+: place → times place = 0) →
    after.get? off = some old

def once (places : List Location) (place : Location) : Nat :=
  if place ∈ places then 1 else 0

section Push

variable {value before document old new : Json} {items : List Json} {place way : Location}
  {step : Step} {times : Location → Nat} {places : List Location}

theorem shell_array (items : List Json) :
    (Json.array items).shell = .array (List.replicate items.length .null) := by
  rw [shell, List.map_const']

theorem shell_longer (value : Json) (n : Nat) (items : List Json) :
    (longer value n (.array items)).shell =
      .array (List.replicate (items.length + n) .null) := by
  rw [longer, shell_array, List.length_append, List.length_replicate]

theorem exists_items_of_shell {n : Nat} (h : old.shell = .array (List.replicate n .null)) :
    ∃ items, old = .array items ∧ items.length = n := by
  cases old <;> try cases h
  case array items =>
    rw [shell_array] at h
    have lengths := congrArg List.length (Json.array.inj h)
    rw [List.length_replicate, List.length_replicate] at lengths
    exact ⟨items, rfl, lengths⟩

theorem exists_items_of_longer {n m : Nat}
    (h : (longer value n old).shell = .array (List.replicate m .null)) :
    ∃ items, old = .array items := by
  cases old <;> try cases h
  exact ⟨_, rfl⟩

theorem grown_refl (value before : Json) : Grown value (fun _ => 0) before before where
  kept place old ho := by
    cases old <;> simp [ho, longer]
  added place items i _ hi := absurd hi (Nat.not_lt_zero i)
  apart off old ho _ := ho

theorem get?_update_below (there : document.get? place = some old)
    (same : new.child? step = old.child? step) :
    (update (fun _ => new) place document).get? (place ++ step :: way) =
      document.get? (place ++ step :: way) := by
  have put : (update (fun _ => new) place document).get? place = some new :=
    get?_update_self _ there
  rw [get?_append, put, get?_append, there, Option.bind_some, Option.bind_some, Json.get?, same,
    Json.get?]

theorem exists_index (list : before.get? place = some (.array items))
    (inside : before.get? (place ++ step :: way) = some old) :
    ∃ i, step = .index i ∧ i < items.length := by
  rw [get?_append, list, Option.bind_some] at inside
  obtain ⟨child, hc, -⟩ := Option.bind_eq_some_iff.1 inside
  cases step with
  | key name => cases hc
  | index i => exact ⟨i, rfl, (List.getElem?_eq_some_iff.1 hc).1⟩

theorem child?_push {i : Nat} (h : i < items.length) :
    (Json.array (items ++ [value])).child? (.index i) = (Json.array items).child? (.index i) :=
  List.getElem?_append_left h

theorem Grown.list (grown : Grown value times before document)
    (list : before.get? place = some (.array items)) :
    ∃ pushed, document.get? place = some (.array pushed) ∧
      pushed.length = items.length + times place := by
  have shape := grown.kept place _ list
  rw [shell_longer] at shape
  obtain ⟨now, there, hs⟩ := Option.map_eq_some_iff.1 shape
  obtain ⟨pushed, rfl, length⟩ := exists_items_of_shell hs
  exact ⟨pushed, there, length⟩

theorem get?_push_below (value : Json) {pushed : List Json}
    (list : before.get? place = some (.array items))
    (there : document.get? place = some (.array pushed)) (length : items.length ≤ pushed.length)
    (inside : before.get? (place ++ step :: way) = some old) (rest : Location) :
    (update (fun _ => .array (pushed ++ [value])) place document).get?
        (place ++ step :: way ++ rest) = document.get? (place ++ step :: way ++ rest) := by
  obtain ⟨i, rfl, hi⟩ := exists_index list inside
  rw [List.append_assoc, List.cons_append]
  exact get?_update_below there (child?_push (Nat.lt_of_lt_of_le hi length))

theorem get?_push_inside (value : Json) {pushed : List Json}
    (list : before.get? place = some (.array items))
    (there : document.get? place = some (.array pushed)) (length : items.length ≤ pushed.length)
    (inside : before.get? (place ++ step :: way) = some old) :
    (update (fun _ => .array (pushed ++ [value])) place document).get? (place ++ step :: way) =
      document.get? (place ++ step :: way) := by
  rw [← List.append_nil (place ++ step :: way)]
  exact get?_push_below value list there length inside []

theorem get?_new_item (list : before.get? place = some (.array items)) (i : Nat)
    (way : Location) : before.get? (place ++ .index (items.length + i) :: way) = none := by
  have absent : (Json.array items).child? (.index (items.length + i)) = none :=
    List.getElem?_eq_none (Nat.le_add_right _ _)
  rw [get?_append, list, Option.bind_some, Json.get?, absent, Option.bind_none]

section Step

variable {pushed : List Json} {other off : Location}

theorem Grown.push_kept (grown : Grown value times before document)
    (list : before.get? place = some (.array items))
    (there : document.get? place = some (.array pushed))
    (length : pushed.length = items.length + times place)
    (ho : before.get? other = some old) :
    ((update (fun _ => .array (pushed ++ [value])) place document).get? other).map shell =
      some (longer value (times other + if other = place then 1 else 0) old).shell := by
  by_cases inside : place <+: other
  · obtain ⟨way, rfl⟩ := inside
    cases way with
    | nil =>
        rw [List.append_nil] at ho ⊢
        cases list.symm.trans ho
        rw [get?_update_self _ there, Option.map_some, if_pos rfl, shell_longer, shell_array,
          List.length_append, List.length_singleton, length, Nat.add_assoc]
    | cons step way =>
        rw [get?_push_inside value list there (by omega) ho, grown.kept _ old ho,
          if_neg (by simp), Nat.add_zero]
  · have apart : other ≠ place := fun e => inside (e ▸ List.prefix_refl _)
    rw [shell_get?_update inside, grown.kept other old ho, if_neg apart, Nat.add_zero]

theorem Grown.push_added {found : List Json} {i : Nat} (grown : Grown value times before document)
    (list : before.get? place = some (.array items))
    (there : document.get? place = some (.array pushed))
    (length : pushed.length = items.length + times place)
    (ho : before.get? other = some (.array found))
    (hi : i < times other + if other = place then 1 else 0) :
    (update (fun _ => .array (pushed ++ [value])) place document).get?
      (other ++ [.index (found.length + i)]) = some value := by
  by_cases same : other = place
  · subst same
    cases list.symm.trans ho
    rw [if_pos rfl] at hi
    by_cases earlier : i < times other
    · rw [get?_update_below there (child?_push (by omega)), grown.added other items i ho earlier]
    · have last : items.length + i = pushed.length := by omega
      rw [get?_append, get?_update_self _ there, Option.bind_some, last]
      simp [Json.get?, child?]
  · rw [if_neg same, Nat.add_zero] at hi
    rw [← grown.added other found i ho hi]
    -- The new item was not there before, so the list that grows is neither the item nor inside it.
    by_cases inside : place <+: other ++ [.index (found.length + i)]
    · rcases List.prefix_concat_iff.1 inside with whole | above
      · rw [whole, get?_new_item ho i []] at list
        cases list
      · obtain ⟨way, rfl⟩ := above
        cases way with
        | nil => exact absurd (List.append_nil place) same
        | cons step way => exact get?_push_below value list there (by omega) ho _
    · refine get?_update_off inside ?_
      rintro ⟨way, rfl⟩
      rw [List.append_assoc, List.cons_append, List.nil_append, get?_new_item ho i way] at list
      cases list

theorem Grown.push_apart (grown : Grown value times before document)
    (list : before.get? place = some (.array items))
    (there : document.get? place = some (.array pushed))
    (length : pushed.length = items.length + times place) (ho : before.get? off = some old)
    (never : ∀ other, off <+: other → (times other + if other = place then 1 else 0) = 0) :
    (update (fun _ => .array (pushed ++ [value])) place document).get? off = some old := by
  have away : ¬ off <+: place := by
    intro below
    have := never place below
    rw [if_pos rfl] at this
    omega
  have unchanged := grown.apart off old ho fun other below =>
    Nat.eq_zero_of_add_eq_zero_right (never other below)
  rw [← unchanged]
  by_cases inside : place <+: off
  · obtain ⟨way, rfl⟩ := inside
    cases way with
    | nil =>
        rw [List.append_nil] at away
        exact absurd (List.prefix_refl place) away
    | cons step way =>
        exact get?_push_inside value list there (by omega) ho
  · exact get?_update_off inside away

theorem Grown.push (grown : Grown value times before document)
    (list : before.get? place = some (.array items))
    (there : document.get? place = some (.array pushed))
    (length : pushed.length = items.length + times place) :
    Grown value (fun other => times other + if other = place then 1 else 0) before
      (update (fun _ => .array (pushed ++ [value])) place document) where
  kept _ _ ho := grown.push_kept list there length ho
  added _ _ _ ho hi := grown.push_added list there length ho hi
  apart _ _ ho never := grown.push_apart list there length ho never

end Step

end Push

section AppendAll

variable {value before document changed : Json} {times : Location → Nat} {places : List Location}
  {place : Location}

theorem add_count_cons (n : Nat) (place other : Location) (rest : List Location) :
    n + (place :: rest).count other =
      n + (if other = place then 1 else 0) + rest.count other := by
  rw [List.count_cons]
  by_cases h : other = place
  · subst h
    simp
    omega
  · simp [h, Ne.symm h]

theorem appendAll_grown (grown : Grown value times before document)
    (lists : ∀ place ∈ places, ∃ items, before.get? place = some (.array items)) :
    ∃ changed, appendAll value places document = .ok changed ∧
      Grown value (fun place => times place + places.count place) before changed := by
  induction places generalizing document times with
  | nil => exact ⟨document, rfl, grown⟩
  | cons place rest ih =>
      obtain ⟨items, list⟩ := lists place List.mem_cons_self
      obtain ⟨pushed, there, length⟩ := grown.list list
      obtain ⟨changed, done, all⟩ := ih (grown.push list there length) fun other ho =>
        lists other (List.mem_cons_of_mem _ ho)
      refine ⟨changed, by rw [appendAll, there]; exact done, ?_⟩
      simp only [add_count_cons]
      exact all

theorem Grown.list_before {old : Json} {pushed : List Json}
    (grown : Grown value times before document) (ho : before.get? place = some old)
    (there : document.get? place = some (.array pushed)) :
    ∃ items, old = .array items := by
  have shape := grown.kept place old ho
  rw [there, Option.map_some, shell_array] at shape
  exact exists_items_of_longer (Option.some.inj shape).symm

theorem lists_of_appendAll (grown : Grown value times before document)
    (there : ∀ place ∈ places, (before.get? place).isSome = true)
    (done : appendAll value places document = .ok changed) :
    ∀ place ∈ places, ∃ items, before.get? place = some (.array items) := by
  induction places generalizing document times with
  | nil => exact fun _ h => nomatch h
  | cons place rest ih =>
      obtain ⟨old, ho⟩ := Option.isSome_iff_exists.1 (there place List.mem_cons_self)
      rw [appendAll] at done
      split at done
      · rename_i pushed hp
        obtain ⟨items, rfl⟩ := grown.list_before ho hp
        obtain ⟨pushed, hp', length⟩ := grown.list ho
        cases hp.symm.trans hp'
        have rest := ih (grown.push ho hp length)
          (fun other h => there other (List.mem_cons_of_mem _ h)) done
        exact List.forall_mem_cons.2 ⟨⟨items, ho⟩, rest⟩
      · cases done
      · cases done

theorem appendAll_eq_ok_iff
    (there : ∀ place ∈ places, (before.get? place).isSome = true) :
    (∃ changed, appendAll value places before = .ok changed) ↔
      ∀ place ∈ places, ∃ items, before.get? place = some (.array items) := by
  constructor
  · rintro ⟨changed, done⟩
    exact lists_of_appendAll (grown_refl value before) there done
  · intro lists
    obtain ⟨changed, done, -⟩ := appendAll_grown (grown_refl value before) lists
    exact ⟨changed, done⟩

theorem grown_of_appendAll (there : ∀ place ∈ places, (before.get? place).isSome = true)
    (done : appendAll value places before = .ok changed) :
    Grown value (fun place => places.count place) before changed := by
  have lists := (appendAll_eq_ok_iff there).1 ⟨changed, done⟩
  obtain ⟨other, ho, grown⟩ := appendAll_grown (grown_refl value before) lists
  cases done.symm.trans ho
  simpa using grown

theorem Grown.times_unique {other : Location → Nat} {items : List Json}
    (grown : Grown value times before changed) (also : Grown value other before changed)
    (list : before.get? place = some (.array items)) : times place = other place := by
  obtain ⟨pushed, hp, length⟩ := grown.list list
  obtain ⟨pushed, hp', length'⟩ := also.list list
  cases hp.symm.trans hp'
  omega

theorem grown_once_iff (lists : ∀ place ∈ places, ∃ items, before.get? place = some (.array items))
    (grown : Grown value (fun place => places.count place) before changed) :
    Grown value (once places) before changed ↔ places.Nodup := by
  constructor
  · intro single
    rw [List.nodup_iff_count_le_one]
    intro place
    by_cases h : place ∈ places
    · obtain ⟨items, list⟩ := lists place h
      exact Nat.le_of_eq ((grown.times_unique single list).trans (if_pos h))
    · rw [List.count_eq_zero_of_not_mem h]
      exact Nat.zero_le 1
  · intro nodup
    have same : once places = fun place => places.count place := by
      funext place
      rw [nodup.count, once]
    rw [same]
    exact grown

end AppendAll

section Append

variable {subtree value changed : Json} {residual : Residual} {record : RecordContext}
  {places : List Location}

theorem append_eq_ok_iff
    (found : locations (render record residual.tokens) subtree = .ok places) :
    append subtree residual record value = .ok changed ↔
      places ≠ [] ∧ appendAll value places subtree = .ok changed := by
  cases places with
  | nil =>
      simp only [append, found]
      exact iff_of_false nofun fun h => h.1 rfl
  | cons place rest =>
      simp only [append, found]
      cases appendAll value (place :: rest) subtree with
      | error fault => exact iff_of_false nofun nofun
      | ok document => simp [Except.mapError]

/-- The value is pushed onto a match as many times as the query reports it, so once onto each just
when no match is reported twice. -/
theorem append_grown
    (found : locations (render record residual.tokens) subtree = .ok places)
    (there : ∀ place ∈ places, (subtree.get? place).isSome = true) :
    ((∃ changed, append subtree residual record value = .ok changed) ↔
      places ≠ [] ∧ ∀ place ∈ places, ∃ items, subtree.get? place = some (.array items)) ∧
    ∀ changed, append subtree residual record value = .ok changed →
      Grown value (fun place => places.count place) subtree changed ∧
        (Grown value (once places) subtree changed ↔ places.Nodup) := by
  refine ⟨?_, fun changed done => ?_⟩
  · simp only [append_eq_ok_iff found, exists_and_left, appendAll_eq_ok_iff there]
  · obtain ⟨-, all⟩ := (append_eq_ok_iff found).1 done
    have grown := grown_of_appendAll there all
    exact ⟨grown, grown_once_iff ((appendAll_eq_ok_iff there).1 ⟨changed, all⟩) grown⟩

theorem append_grown_nested :
    let subtree : Json := .array [.array [.array []]]
    let value : Json := .array [.nat 9]
    let residual : Residual := ⟨"$..*", [.deepScan, .wildcard]⟩
    let places : List Location := [[.index 0], [.index 0, .index 0]]
    let changed : Json := .array [.array [.array [value], value]]
    locations (render ⟨0, 0, 0⟩ residual.tokens) subtree = .ok places ∧
      (∀ place ∈ places, (subtree.get? place).isSome = true) ∧
      append subtree residual ⟨0, 0, 0⟩ value = .ok changed ∧
      Grown value (once places) subtree changed := by
  intro subtree value residual places changed
  have found : locations (render ⟨0, 0, 0⟩ residual.tokens) subtree = .ok places := by
    decide +kernel
  have there : ∀ place ∈ places, (subtree.get? place).isSome = true := by decide +kernel
  have done : append subtree residual ⟨0, 0, 0⟩ value = .ok changed := by decide +kernel
  obtain ⟨-, once⟩ := (append_grown found there).2 changed done
  exact ⟨found, there, done, once.2 (by decide)⟩

theorem not_grown_once_repeated :
    let subtree : Json := .obj [("a", .obj [("a", .obj [("tags", .array [])])])]
    let place : Location := [.key "a", .key "a", .key "tags"]
    ∃ (residual : Residual) (changed : Json),
      Path.compile "$..a..tags" = .ok ⟨"$..a..tags", [], some residual⟩ ∧
      locations (render ⟨0, 0, 0⟩ residual.tokens) subtree = .ok [place, place] ∧
      (∀ other ∈ [place, place], (subtree.get? other).isSome = true) ∧
      append subtree residual ⟨0, 0, 0⟩ (.nat 1) = .ok changed ∧
      ¬ Grown (.nat 1) (once [place, place]) subtree changed := by
  intro subtree place
  refine ⟨⟨"$..a..tags", [.deepScan, .key "a", .deepScan, .key "tags"]⟩,
    .obj [("a", .obj [("a", .obj [("tags", .array [.nat 1, .nat 1])])])], ?_, ?_, ?_, ?_,
    fun grown => ?_⟩
  · decide +kernel
  · decide +kernel
  · decide +kernel
  · decide +kernel
  · have list : subtree.get? place = some (.array []) := by decide +kernel
    obtain ⟨pushed, there, length⟩ := grown.list list
    cases there
    exact absurd length (by decide)

end Append

end RecordPath.Query
