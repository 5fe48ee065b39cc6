import RecordPath.Members

namespace RecordPath.Members

variable {α β : Type}

theorem get?_of_mem {members : Members α} (distinct : (members.map Prod.fst).Nodup)
    {name : String} {value : α} (h : (name, value) ∈ members) :
    get? name members = some value := by
  induction members with
  | nil => cases h
  | cons pair rest ih =>
      obtain ⟨n, old⟩ := pair
      obtain ⟨absent, others⟩ := List.nodup_cons.1 distinct
      rcases List.mem_cons.1 h with he | hr
      · cases he
        simp [get?]
      · have hn : n ≠ name := by
          rintro rfl
          exact absent (List.mem_map.2 ⟨(n, value), hr, rfl⟩)
        rw [get?, if_neg hn]
        exact ih others hr

theorem mem_of_get? {members : Members α} {name : String} {value : α}
    (h : get? name members = some value) : (name, value) ∈ members := by
  induction members with
  | nil => cases h
  | cons pair rest ih =>
      obtain ⟨n, old⟩ := pair
      by_cases hn : n = name
      · simp only [get?, hn, if_true, Option.some.injEq] at h
        exact hn ▸ h ▸ List.mem_cons_self
      · simp only [get?, hn, if_false] at h
        exact List.mem_cons_of_mem _ (ih h)

def mapValues (f : α → β) (members : Members α) : Members β :=
  members.map fun member => (member.1, f member.2)

theorem mapValues_cons (f : α → β) (member : String × α) (rest : Members α) :
    mapValues f (member :: rest) = (member.1, f member.2) :: mapValues f rest :=
  rfl

theorem map_fst_mapValues (f : α → β) (members : Members α) :
    (members.mapValues f).map Prod.fst = members.map Prod.fst := by
  rw [mapValues, List.map_map]
  rfl

theorem get?_mapValues (f : α → β) (name : String) (members : Members α) :
    get? name (members.mapValues f) = (get? name members).map f := by
  induction members with
  | nil => rfl
  | cons member rest ih =>
      by_cases hn : member.1 = name
      · simp [mapValues, get?, hn]
      · simpa [mapValues, get?, hn] using ih

theorem replace_mapValues (f : α → β) (name : String) (value : α) (members : Members α) :
    replace name (f value) (members.mapValues f) = (replace name value members).mapValues f := by
  induction members with
  | nil => rfl
  | cons member rest ih =>
      by_cases hn : member.1 = name
      · simp [mapValues, replace, hn]
      · simpa [mapValues, replace, hn] using ih

theorem place_mapValues (f : α → β) (name : String) (value : α) (members : Members α) :
    place name (f value) (members.mapValues f) = (place name value members).mapValues f := by
  induction members with
  | nil => rfl
  | cons member rest ih =>
      by_cases hn : name < member.1
      · simp [mapValues, place, hn]
      · simpa [mapValues, place, hn] using ih

theorem insert_mapValues (f : α → β) (name : String) (value : α) (members : Members α) :
    insert name (f value) (members.mapValues f) = (insert name value members).mapValues f := by
  rw [insert, insert, get?_mapValues]
  cases get? name members with
  | some old => exact replace_mapValues f name value members
  | none => exact place_mapValues f name value members

theorem ofList_mapValues (f : α → β) (pairs : List (String × α)) :
    ofList (mapValues f pairs) = mapValues f (ofList pairs) := by
  have collect (members : Members α) :
      (mapValues f pairs).foldl (fun members pair => insert pair.1 pair.2 members)
          (mapValues f members) =
        mapValues f (pairs.foldl (fun members pair => insert pair.1 pair.2 members) members) := by
    induction pairs generalizing members with
    | nil => rfl
    | cons pair rest ih =>
        rw [mapValues_cons, List.foldl_cons, List.foldl_cons, ← ih, ← insert_mapValues]
  exact collect []

theorem mem_names_iff {members : Members α} {name : String} :
    name ∈ members.map Prod.fst ↔ (get? name members).isSome = true := by
  induction members with
  | nil => exact iff_of_false List.not_mem_nil Bool.false_ne_true
  | cons pair rest ih =>
      by_cases hn : pair.1 = name
      · simp [get?, hn]
      · simpa [get?, hn, Ne.symm hn] using ih

theorem names_replace (name : String) (value : α) (members : Members α) :
    (replace name value members).map Prod.fst = members.map Prod.fst := by
  induction members with
  | nil => rfl
  | cons pair rest ih =>
      by_cases hn : pair.1 = name
      · simp [replace, hn]
      · simp [replace, hn, ih]

theorem place_perm (name : String) (value : α) (members : Members α) :
    (place name value members).Perm ((name, value) :: members) := by
  induction members with
  | nil => exact .refl _
  | cons pair rest ih =>
      by_cases hlt : name < pair.1
      · simp only [place, hlt, if_true]
        exact .refl _
      · simp only [place, hlt, if_false]
        exact (ih.cons pair).trans (.swap ..)

theorem nodup_insert {members : Members α} (distinct : (members.map Prod.fst).Nodup)
    (name : String) (value : α) : ((insert name value members).map Prod.fst).Nodup := by
  unfold insert
  split
  · rw [names_replace]
    exact distinct
  · rename_i absent
    have unlisted : name ∉ members.map Prod.fst := by
      rw [mem_names_iff, absent]
      exact Bool.false_ne_true
    exact ((place_perm name value members).map Prod.fst).nodup_iff.2
      (List.nodup_cons.2 ⟨unlisted, distinct⟩)

theorem nodup_ofList (pairs : List (String × α)) : ((ofList pairs).map Prod.fst).Nodup := by
  have collect (members : Members α) (distinct : (members.map Prod.fst).Nodup) :
      ((pairs.foldl (fun members pair => insert pair.1 pair.2 members) members).map
        Prod.fst).Nodup := by
    induction pairs generalizing members with
    | nil => exact distinct
    | cons pair rest ih => exact ih _ (nodup_insert distinct pair.1 pair.2)
  exact collect [] List.nodup_nil

theorem mem_of_get?_foldl {pairs : List (String × α)} {name : String} {value : α} :
    ∀ {members : Members α},
      get? name (pairs.foldl (fun members pair => insert pair.1 pair.2 members) members) =
        some value → (name, value) ∈ pairs ∨ get? name members = some value := by
  induction pairs with
  | nil => exact fun h => .inr h
  | cons pair rest ih =>
      intro members h
      rcases ih h with listed | inserted
      · exact .inl (List.mem_cons_of_mem _ listed)
      · by_cases hn : name = pair.1
        · subst hn
          rw [get?_insert_self] at inserted
          cases inserted
          exact .inl List.mem_cons_self
        · rw [get?_insert_of_ne hn] at inserted
          exact .inr inserted

theorem mem_of_get?_ofList {pairs : List (String × α)} {name : String} {value : α}
    (h : get? name (ofList pairs) = some value) : (name, value) ∈ pairs := by
  rcases mem_of_get?_foldl h with listed | absent
  · exact listed
  · cases absent

theorem exists_get?_foldl {pairs : List (String × α)} {name : String} :
    ∀ {members : Members α},
      name ∈ pairs.map Prod.fst ∨ (get? name members).isSome = true →
      (get? name
        (pairs.foldl (fun members pair => insert pair.1 pair.2 members) members)).isSome =
          true := by
  induction pairs with
  | nil =>
      rintro members (listed | there)
      · cases listed
      · exact there
  | cons pair rest ih =>
      intro members h
      refine ih ?_
      by_cases hn : name = pair.1
      · subst hn
        exact .inr (by rw [get?_insert_self, Option.isSome_some])
      · rw [get?_insert_of_ne hn]
        rcases h with listed | there
        · rw [List.map_cons, List.mem_cons] at listed
          exact .inl (listed.resolve_left hn)
        · exact .inr there

theorem mem_names_ofList {pairs : List (String × α)} {name : String} :
    name ∈ (ofList pairs).map Prod.fst ↔ name ∈ pairs.map Prod.fst := by
  rw [mem_names_iff]
  constructor
  · intro there
    obtain ⟨value, hv⟩ := Option.isSome_iff_exists.1 there
    exact List.mem_map_of_mem (mem_of_get?_ofList hv)
  · exact fun listed => exists_get?_foldl (.inl listed)

theorem get?_ofList_of_mem {pairs : List (String × α)} {name : String} {value : α}
    (listed : (name, value) ∈ pairs) (only : ∀ other, (name, other) ∈ pairs → other = value) :
    get? name (ofList pairs) = some value := by
  have there : (get? name (ofList pairs)).isSome = true :=
    exists_get?_foldl (.inl (List.mem_map_of_mem listed))
  obtain ⟨other, ho⟩ := Option.isSome_iff_exists.1 there
  rw [ho, only other (mem_of_get?_ofList ho)]

theorem get?_ofList_map {names : List String} {name : String} (value : String → α)
    (h : name ∈ names) :
    get? name (ofList (names.map fun name => (name, value name))) = some (value name) := by
  refine get?_ofList_of_mem (List.mem_map_of_mem h) fun other ho => ?_
  obtain ⟨listed, -, he⟩ := List.mem_map.1 ho
  cases he
  rfl

end RecordPath.Members
