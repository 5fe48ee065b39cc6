import RecordPath.Proofs.Filter.Meaning
import RecordPath.Proofs.Query.Entries

namespace RecordPath

theorem Path.WellFormed.readsBack {found : List Token} (h : Path.WellFormed found)
    (record : RecordContext) (source : String) (p : Predicate)
    (mem : .filter source p ∈ found) : p.ReadsBack record :=
  p.readsBack record (Predicate.wellFormed_of_ofText (h.tokens _ mem).2)

namespace Query

open Json

section Extend

variable {value document before changed container : Json} {last : Token} {place : Location}
  {places done : List Location} {times : Location → Nat} {i : Nat} {name : String}

def extend (value : Json) (last : Token) (document : Json) (place : Location) : Json :=
  match (document.get? place).bind (extended? value last) with
  | some container => document.update (fun _ => container) place
  | none => document

theorem extend_of_some (h : (document.get? place).bind (extended? value last) = some container) :
    extend value last document place = document.update (fun _ => container) place := by
  simp only [extend, h]

theorem extend_of_none (h : (document.get? place).bind (extended? value last) = none) :
    extend value last document place = document := by
  simp only [extend, h]

theorem getD_extendAll? (value : Json) (last : Token) (places : List Location) (document : Json) :
    (extendAll? value last places document).getD document =
      places.foldl (extend value last) document := by
  induction places generalizing document with
  | nil => rfl
  | cons place rest ih =>
      cases taken : (document.get? place).bind (extended? value last) with
      | some container =>
          simp only [extendAll?, taken, Option.getD_some, ih, List.foldl_cons,
            extend_of_some taken]
      | none => simp only [extendAll?, taken, ih, List.foldl_cons, extend_of_none taken]

theorem exists_step_of_extended? (h : extended? value last document = some container) :
    (∃ name, last = .key name) ∨ ∃ i, last = .index i := by
  unfold extended? at h
  split at h
  · exact .inl ⟨_, rfl⟩
  · exact .inr ⟨_, rfl⟩
  · cases h

theorem exists_step_of_extendAll? (h : extendAll? value last places document = some changed) :
    (∃ name, last = .key name) ∨ ∃ i, last = .index i := by
  induction places with
  | nil => cases h
  | cons place rest ih =>
      cases taken : (document.get? place).bind (extended? value last) with
      | some container =>
          obtain ⟨old, -, ho⟩ := Option.bind_eq_some_iff.1 taken
          exact exists_step_of_extended? ho
      | none =>
          simp only [extendAll?, taken] at h
          exact ih h

section Lists

def room (i : Nat) (document : Json) (place : Location) : Nat :=
  match document.get? place with
  | some (.array items) => i + 1 - items.length
  | _ => 0

theorem room_of_list {items : List Json} (h : document.get? place = some (.array items)) :
    room i document place = i + 1 - items.length := by
  simp only [room, h]

theorem exists_items_of_room (h : 0 < room i document place) :
    ∃ items, document.get? place = some (.array items) := by
  unfold room at h
  split at h
  · rename_i items ho
    exact ⟨items, ho⟩
  · cases h

theorem extended?_index_eq_some (h : extended? value (.index i) document = some container) :
    ∃ items, document = .array items ∧ items.length ≤ i ∧
      container = .array (items ++ [value]) := by
  cases document <;> try cases h
  case array items =>
    simp only [extended?] at h
    split at h
    · rename_i fits
      cases h
      exact ⟨items, rfl, fits, rfl⟩
    · cases h

theorem Grown.room_le (grown : Grown value times before document)
    (taken : (document.get? place).bind (extended? value (.index i)) = none) :
    room i before place ≤ times place := by
  rcases Nat.eq_zero_or_pos (room i before place) with full | free
  · omega
  · obtain ⟨items, list⟩ := exists_items_of_room free
    obtain ⟨pushed, there, length⟩ := grown.list list
    rw [there, Option.bind_some] at taken
    have fits : ¬ pushed.length ≤ i := fun fits => by simp [extended?, fits] at taken
    rw [room_of_list list]
    omega

theorem Grown.extend
    (grown : Grown value (fun other => min (times other) (room i before other)) before document)
    (there : (before.get? place).isSome = true) :
    Grown value (fun other => min (times other + if other = place then 1 else 0)
      (room i before other)) before (extend value (.index i) document place) := by
  cases taken : (document.get? place).bind (extended? value (.index i)) with
  | some container =>
      obtain ⟨now, hn, extended⟩ := Option.bind_eq_some_iff.1 taken
      obtain ⟨pushed, rfl, fits, rfl⟩ := extended?_index_eq_some extended
      obtain ⟨old, ho⟩ := Option.isSome_iff_exists.1 there
      obtain ⟨items, rfl⟩ := grown.list_before ho hn
      obtain ⟨again, ha, length⟩ := grown.list ho
      cases hn.symm.trans ha
      have counts (other : Location) :
          min (times other + if other = place then 1 else 0) (room i before other) =
            min (times other) (room i before other) + if other = place then 1 else 0 := by
        by_cases same : other = place
        · subst same
          rw [room_of_list ho] at length ⊢
          simp only [if_true]
          omega
        · simp only [same, if_false, Nat.add_zero]
      rw [extend_of_some taken]
      simp only [counts]
      exact grown.push ho hn length
  | none =>
      have full := grown.room_le taken
      have counts (other : Location) :
          min (times other + if other = place then 1 else 0) (room i before other) =
            min (times other) (room i before other) := by
        by_cases same : other = place
        · subst same
          simp only [if_true]
          omega
        · simp only [same, if_false, Nat.add_zero]
      rw [extend_of_none taken]
      simp only [counts]
      exact grown

theorem Grown.extendAll
    (grown : Grown value (fun other => min (times other) (room i before other)) before document)
    (there : ∀ place ∈ places, (before.get? place).isSome = true) :
    Grown value (fun other => min (times other + places.count other) (room i before other)) before
      (places.foldl (Query.extend value (.index i)) document) := by
  -- The invariant is how often each list was met so far, up to the room it had at the start.
  induction places generalizing document times with
  | nil => exact grown
  | cons place rest ih =>
      obtain ⟨first, others⟩ := List.forall_mem_cons.1 there
      simp only [List.foldl_cons, add_count_cons]
      exact ih (grown.extend first) others

theorem grown_once_room_iff
    (grown : Grown value (fun place => min (places.count place) (room i before place)) before
      changed) :
    Grown value (fun place => min (once places place) (room i before place)) before changed ↔
      ∀ place ∈ places, 1 < room i before place → places.count place = 1 := by
  constructor
  · intro single place mem roomy
    obtain ⟨items, list⟩ := exists_items_of_room (Nat.zero_lt_of_lt roomy)
    have same := grown.times_unique single list
    rw [once, if_pos mem] at same
    omega
  · intro single
    have counts (place : Location) : min (once places place) (room i before place) =
        min (places.count place) (room i before place) := by
      by_cases mem : place ∈ places
      · have listed := List.count_pos_iff.2 mem
        rw [once, if_pos mem]
        by_cases roomy : 1 < room i before place
        · rw [single place mem roomy]
        · omega
      · rw [once, if_neg mem, List.count_eq_zero_of_not_mem mem]
    simp only [counts]
    exact grown

end Lists

section Maps

variable {old : Json} {members : Members Json}

theorem Entered.extend (entered : Entered name value done before document)
    (ho : before.get? place = some old)
    (free : ∀ members, old = .object members → Members.get? name members = none) :
    Entered name value (done ++ [place]) before (extend value (.key name) document place) := by
  by_cases map : ∃ members, old = .object members
  · obtain ⟨members, rfl⟩ := map
    obtain ⟨now, there⟩ := entered.exists_now ho
    have taken : (document.get? place).bind (extended? value (.key name)) =
        some (.object (Members.insert name value now)) := by
      rw [there]
      rfl
    rw [extend_of_some taken]
    exact entered.enter ho (free members rfl) there
  · have other : ∀ members, old ≠ .object members := fun members e => map ⟨members, e⟩
    have taken : (document.get? place).bind (extended? value (.key name)) = none := by
      cases hd : document.get? place with
      | none => rfl
      | some now =>
          cases now with
          | object now => exact absurd hd (entered.not_map_now ho other now)
          | _ => rfl
    rw [extend_of_none taken]
    exact entered.pass ho other

theorem Entered.extendAll (entered : Entered name value done before document)
    (there : ∀ place ∈ places, (before.get? place).isSome = true)
    (free : ∀ place ∈ places, ∀ members, before.get? place = some (.object members) →
      Members.get? name members = none) :
    Entered name value (done ++ places) before
      (places.foldl (Query.extend value (.key name)) document) := by
  induction places generalizing document done with
  | nil => rwa [List.append_nil]
  | cons place rest ih =>
      obtain ⟨first, others⟩ := List.forall_mem_cons.1 there
      obtain ⟨firstFree, othersFree⟩ := List.forall_mem_cons.1 free
      obtain ⟨old, ho⟩ := Option.isSome_iff_exists.1 first
      rw [List.append_cons]
      exact ih (entered.extend ho fun members e => firstFree members (e ▸ ho)) others othersFree

end Maps

end Extend

section Parents

variable {subtree value changed : Json} {residual : Residual} {record : RecordContext}
  {tokens parents : List Token} {last : Token} {places : List Location} {name : String}

theorem creation?_eq_some (h : creation? tokens = some (last, parents)) :
    tokens = parents ++ [last] ∧ parents.getLast? ≠ some .deepScan := by
  unfold creation? at h
  split at h
  · cases h
  · rename_i found hf
    simp only at h
    split at h
    · cases h
    · rename_i scan
      cases h
      obtain ⟨start, rfl⟩ := List.getLast?_eq_some_iff.1 hf
      refine ⟨by rw [List.dropLast_concat], fun descent => scan ?_⟩
      rw [descent]
      rfl

theorem setOrAdd_cases
    (unmatched : locations (render record residual.tokens) subtree = .ok [])
    (created : setOrAdd subtree residual record value = .ok changed) :
    ∃ last parents places, residual.tokens = parents ++ [last] ∧
      parents.getLast? ≠ some .deepScan ∧ locations (render record parents) subtree = .ok places ∧
      extendAll? value last places subtree = some changed := by
  simp only [setOrAdd, unmatched] at created
  split at created
  · cases created
  · rename_i last parents hc
    obtain ⟨split, descent⟩ := creation?_eq_some hc
    split at created
    · cases created
    · rename_i places hp
      split at created
      · rename_i extended he
        cases created
        exact ⟨last, parents, places, split, descent, hp, he⟩
      · cases created

theorem not_isNull_of_extendAll? (found : locations (render record parents) subtree = .ok places)
    (extended : extendAll? value last places subtree = some changed) :
    subtree.isNull = false := by
  cases null : subtree.isNull with
  | false => rfl
  | true =>
      rw [locations, null, if_pos rfl] at found
      cases found
      cases extended

theorem selectFrom_append (first second : Expression) (nodes : List Node) :
    (first ++ second).selectFrom nodes = second.selectFrom (first.selectFrom nodes) := by
  induction first generalizing nodes with
  | nil => rfl
  | cons segment rest ih => exact ih (segment.select nodes)

theorem get?_eq_none_of_unmatched (regular : subtree.isRegular = true)
    (full : subtree.isNull = false) (wellFormed : Path.WellFormed tokens)
    (split : tokens = parents ++ [.key name]) (descent : parents.getLast? ≠ some .deepScan)
    (unmatched : locations (render record tokens) subtree = .ok [])
    (found : locations (render record parents) subtree = .ok places) :
    ∀ place ∈ places, ∀ members, subtree.get? place = some (.object members) →
      Members.get? (Step.nameAsRead name) members = none := by
  subst split
  obtain ⟨whole, acceptsWhole, nothing⟩ := exists_query_of_locations regular full unmatched
  obtain ⟨query, accepts, rfl⟩ := exists_query_of_locations regular full found
  obtain rfl :=
    expression_of_ofText? wellFormed.functions (wellFormed.readsBack record) acceptsWhole
  have above := wellFormed.init descent
  obtain rfl := expression_of_ofText? above.functions (above.readsBack record) accepts
  rw [expression_concat descent rfl, Expression.select, selectFrom_append] at nothing
  intro place mem members there
  obtain ⟨⟨_, value⟩, hn, rfl⟩ := List.mem_map.1 mem
  cases there.symm.trans (leads_select regular _ _ hn).found
  have unselected := List.flatMap_eq_nil_iff.1 (List.map_eq_nil_iff.1 nothing.symm) _ hn
  cases held : Members.get? (Step.nameAsRead name) members with
  | none => rfl
  | some inner => simp [Token.selector, Selector.select, Step.asRead, child?, held] at unselected

/-- By a name it adds one entry to each map just when none of the maps has the name; a name that is
read as it is none of them has. By an index it adds one value to each list that has none there, but
to one reported more than once as many as there is room for. -/
theorem setOrAdd_creates {path : String} {compiled : CompiledPath}
    (compiles : Path.compile path = .ok compiled) (query : compiled.residual = some residual)
    (regular : subtree.isRegular = true)
    (unmatched : locations (render record residual.tokens) subtree = .ok [])
    (created : setOrAdd subtree residual record value = .ok changed) :
    ∃ parents places, locations (render record parents) subtree = .ok places ∧
      ((∃ name, residual.tokens = parents ++ [.key name] ∧
        (Entered name value places subtree changed ↔
          ∀ place ∈ places, ∀ members, subtree.get? place = some (.object members) →
            Members.get? name members = none) ∧
        (Step.nameAsRead name = name → Entered name value places subtree changed)) ∨
      (∃ i, residual.tokens = parents ++ [.index i] ∧
        Grown value (fun place => min (places.count place) (room i subtree place)) subtree changed ∧
        (Grown value (fun place => min (once places place) (room i subtree place)) subtree changed ↔
          ∀ place ∈ places, 1 < room i subtree place → places.count place = 1))) := by
  obtain ⟨tokens, -, cut⟩ := Path.tokenize_of_compile compiles
  have wellFormed := Path.wellFormed_of_tokenize (cut.expression residual query).1
  obtain ⟨last, parents, places, split, descent, found, extended⟩ :=
    setOrAdd_cases unmatched created
  have there := isSome_of_locations regular found
  have run := getD_extendAll? value last places subtree
  rw [extended, Option.getD_some] at run
  refine ⟨parents, places, found, ?_⟩
  rcases exists_step_of_extendAll? extended with ⟨name, rfl⟩ | ⟨i, rfl⟩
  · have entered : (∀ place ∈ places, ∀ members, subtree.get? place = some (.object members) →
        Members.get? name members = none) → Entered name value places subtree changed := by
      intro free
      rw [run]
      exact (entered_nil name value subtree).extendAll there free
    refine .inl ⟨name, split, ⟨fun all place mem members ho => ?_, entered⟩, fun exactName => ?_⟩
    · exact (all.gained place mem members ho).1
    · have full := not_isNull_of_extendAll? found extended
      have free := get?_eq_none_of_unmatched regular full wellFormed split descent unmatched found
      rw [exactName] at free
      exact entered free
  · have start : Grown value (fun place => min 0 (room i subtree place)) subtree subtree := by
      simpa only [Nat.zero_min] using grown_refl value subtree
    have grown := start.extendAll there
    simp only [Nat.zero_add, ← run] at grown
    exact .inr ⟨i, split, grown, grown_once_room_iff grown⟩

/-- One of the maps is inside another, and two of the places hold no map. -/
theorem setOrAdd_creates_nested :
    let subtree : Json := .obj [("a", .obj [("b", .obj [])]), ("l", .array [.nat 1])]
    let value : Json := .obj [("n", .null)]
    let residual : Residual := ⟨"$..*.n", [.deepScan, .wildcard, .key "n"]⟩
    let places : List Location :=
      [[.key "a"], [.key "l"], [.key "a", .key "b"], [.key "l", .index 0]]
    let changed : Json :=
      .obj [("a", .obj [("b", .obj [("n", value)]), ("n", value)]), ("l", .array [.nat 1])]
    Path.compile "$..*.n" = .ok ⟨"$..*.n", [], some residual⟩ ∧ subtree.isRegular = true ∧
      locations (render ⟨0, 0, 0⟩ residual.tokens) subtree = .ok [] ∧
      setOrAdd subtree residual ⟨0, 0, 0⟩ value = .ok changed ∧
      Entered "n" value places subtree changed := by
  intro subtree value residual places changed
  have compiles : Path.compile "$..*.n" = .ok ⟨"$..*.n", [], some residual⟩ := by decide +kernel
  have regular : subtree.isRegular = true := by decide +kernel
  have unmatched : locations (render ⟨0, 0, 0⟩ residual.tokens) subtree = .ok [] := by
    decide +kernel
  have created : setOrAdd subtree residual ⟨0, 0, 0⟩ value = .ok changed := by decide +kernel
  have found : locations (render ⟨0, 0, 0⟩ [.deepScan, .wildcard]) subtree = .ok places := by
    decide +kernel
  refine ⟨compiles, regular, unmatched, created, ?_⟩
  have steps : residual.tokens = [.deepScan, .wildcard] ++ [.key "n"] := rfl
  obtain ⟨parents, others, located, ⟨name, split, -, entered⟩ | ⟨i, split, -⟩⟩ :=
    setOrAdd_creates compiles rfl regular unmatched created
  · obtain ⟨rfl, last⟩ := List.append_inj' (steps.symm.trans split) rfl
    cases last
    cases found.symm.trans located
    exact entered (by decide +kernel)
  · obtain ⟨-, last⟩ := List.append_inj' (steps.symm.trans split) rfl
    cases last

theorem not_grown_room_repeated :
    let subtree : Json := .obj [("a", .obj [("a", .obj [("b", .array [])])])]
    let place : Location := [.key "a", .key "a", .key "b"]
    ∃ (parents : List Token) (residual : Residual) (changed : Json),
      Path.compile "$..a..b[5]" = .ok ⟨"$..a..b[5]", [], some residual⟩ ∧
      residual.tokens = parents ++ [.index 5] ∧ subtree.isRegular = true ∧
      locations (render ⟨0, 0, 0⟩ residual.tokens) subtree = .ok [] ∧
      locations (render ⟨0, 0, 0⟩ parents) subtree = .ok [place, place] ∧
      setOrAdd subtree residual ⟨0, 0, 0⟩ (.nat 1) = .ok changed ∧
      ¬ Grown (.nat 1) (fun other => min (once [place, place] other) (room 5 subtree other))
        subtree changed := by
  intro subtree place
  refine ⟨[.deepScan, .key "a", .deepScan, .key "b"],
    ⟨"$..a..b[5]", [.deepScan, .key "a", .deepScan, .key "b", .index 5]⟩,
    .obj [("a", .obj [("a", .obj [("b", .array [.nat 1, .nat 1])])])], ?_, rfl, ?_, ?_, ?_, ?_,
    fun grown => ?_⟩
  · decide +kernel
  · decide +kernel
  · decide +kernel
  · decide +kernel
  · decide +kernel
  · have list : subtree.get? place = some (.array []) := by decide +kernel
    obtain ⟨pushed, there, length⟩ := grown.list list
    cases there
    exact absurd length (by decide)

end Parents

end Query

end RecordPath
