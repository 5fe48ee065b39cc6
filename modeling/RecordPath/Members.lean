namespace RecordPath

abbrev Members (α : Type) := List (String × α)

namespace Members

variable {α β : Type}

def get? (name : String) : Members α → Option α
  | [] => none
  | (n, value) :: rest => if n = name then some value else get? name rest

def replace (name : String) (value : α) : Members α → Members α
  | [] => []
  | (n, old) :: rest => if n = name then (n, value) :: rest else (n, old) :: replace name value rest

def place (name : String) (value : α) : Members α → Members α
  | [] => [(name, value)]
  | (n, old) :: rest =>
      if name < n then (name, value) :: (n, old) :: rest else (n, old) :: place name value rest

def insert (name : String) (value : α) (members : Members α) : Members α :=
  match get? name members with
  | some _ => replace name value members
  | none => place name value members

def erase (name : String) : Members α → Members α
  | [] => []
  | (n, value) :: rest => if n = name then erase name rest else (n, value) :: erase name rest

/-- Of two values for one name the later is kept. -/
def ofList (pairs : List (String × α)) : Members α :=
  pairs.foldl (fun members pair => insert pair.1 pair.2 members) []

def contains (name : String) (members : Members α) : Bool :=
  (get? name members).isSome

theorem get?_replace_self {name : String} {value : α} :
    ∀ {members : Members α}, (get? name members).isSome →
      get? name (replace name value members) = some value := by
  intro members
  induction members with
  | nil => intro h; simp [get?] at h
  | cons pair rest ih =>
      intro h
      by_cases hn : pair.1 = name
      · simp [replace, get?, hn]
      · simp only [get?, hn, if_false] at h
        simp [replace, get?, hn, ih h]

theorem get?_replace_of_ne {name other : String} {value : α} (h : other ≠ name) :
    ∀ members : Members α, get? other (replace name value members) = get? other members := by
  intro members
  induction members with
  | nil => rfl
  | cons pair rest ih =>
      by_cases hn : pair.1 = name
      · have ho : ¬ pair.1 = other := fun e => h (e ▸ hn)
        simp [replace, get?, hn, Ne.symm h]
      · simp [replace, get?, hn, ih]

theorem get?_place_self {name : String} {value : α} :
    ∀ {members : Members α}, get? name members = none →
      get? name (place name value members) = some value := by
  intro members
  induction members with
  | nil => intro _; simp [place, get?]
  | cons pair rest ih =>
      intro h
      simp only [get?] at h
      split at h
      · cases h
      · rename_i hn
        by_cases hlt : name < pair.1
        · simp [place, get?, hlt]
        · simp [place, get?, hlt, hn, ih h]

theorem get?_place_of_ne {name other : String} {value : α} (h : other ≠ name) :
    ∀ members : Members α, get? other (place name value members) = get? other members := by
  intro members
  induction members with
  | nil => simp [place, get?, Ne.symm h]
  | cons pair rest ih =>
      by_cases hlt : name < pair.1
      · simp [place, get?, hlt, Ne.symm h]
      · simp [place, get?, hlt, ih]

theorem get?_insert_self (name : String) (value : α) (members : Members α) :
    get? name (insert name value members) = some value := by
  unfold insert
  split
  · rename_i old h
    exact get?_replace_self (by simp [h])
  · rename_i h
    exact get?_place_self h

theorem get?_insert_of_ne {name other : String} (h : other ≠ name) (value : α)
    (members : Members α) : get? other (insert name value members) = get? other members := by
  unfold insert
  split
  · exact get?_replace_of_ne h members
  · exact get?_place_of_ne h members

theorem get?_erase_self (name : String) (members : Members α) :
    get? name (erase name members) = none := by
  induction members with
  | nil => rfl
  | cons pair rest ih =>
      by_cases hn : pair.1 = name
      · simp [erase, hn, ih]
      · simp [erase, get?, hn, ih]

theorem get?_erase_of_ne {name other : String} (h : other ≠ name) (members : Members α) :
    get? other (erase name members) = get? other members := by
  induction members with
  | nil => rfl
  | cons pair rest ih =>
      by_cases hn : pair.1 = name
      · simp [erase, get?, hn, Ne.symm h, ih]
      · simp [erase, get?, hn, ih]

theorem replace_get? {name : String} {value : α} :
    ∀ {members : Members α}, get? name members = some value →
      replace name value members = members := by
  intro members
  induction members with
  | nil => intro _; rfl
  | cons pair rest ih =>
      obtain ⟨n, old⟩ := pair
      intro h
      by_cases hn : n = name
      · simp only [get?, hn, if_true, Option.some.injEq] at h
        simp [replace, hn, h]
      · simp only [get?, hn, if_false] at h
        simp [replace, hn, ih h]

theorem insert_get? {name : String} {value : α} {members : Members α}
    (h : get? name members = some value) : insert name value members = members := by
  simp [insert, h, replace_get? h]

end Members

end RecordPath
