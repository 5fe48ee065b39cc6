import RecordPath.Json.Value
import RecordPath.Text.Natural

namespace RecordPath

inductive Step where
  | key (name : String)
  | index (i : Nat)
  deriving DecidableEq, Repr

abbrev Location := List Step

namespace Step

def chars : Step → List Char
  | .key name => '.' :: name.toList
  | .index i => '[' :: Text.natural i ++ [']']

def text (step : Step) : String :=
  String.ofList step.chars

def before : Step → Step → Bool
  | .key a, .key b => a < b
  | .key _, .index _ => true
  | .index _, .key _ => false
  | .index i, .index j => i < j

end Step

namespace Location

def text (location : Location) : String :=
  String.ofList (location.flatMap Step.chars)

def before : Location → Location → Bool
  | [], [] => false
  | [], _ :: _ => true
  | _ :: _, [] => false
  | s :: l, t :: m => if s = t then before l m else s.before t

end Location

namespace Json

def child? : Json → Step → Option Json
  | .object members, .key name => Members.get? name members
  | .array items, .index i => items[i]?
  | _, _ => none

def get? : Json → Location → Option Json
  | value, [] => some value
  | value, step :: rest => (value.child? step).bind fun child => get? child rest

theorem get?_append (value : Json) (l m : Location) :
    value.get? (l ++ m) = (value.get? l).bind fun inner => inner.get? m := by
  induction l generalizing value with
  | nil => rfl
  | cons step rest ih =>
      cases h : value.child? step with
      | none => simp [get?, h]
      | some child => simp [get?, h, ih]

def setChild (child : Json) : Json → Step → Json
  | .object members, .key name =>
      if Members.contains name members then .object (Members.insert name child members)
      else .object members
  | .array items, .index i => .array (items.set i child)
  | value, _ => value

theorem child?_setChild_self {value child old : Json} {step : Step}
    (h : value.child? step = some old) : (setChild child value step).child? step = some child := by
  cases value <;> cases step <;> simp_all [child?, setChild, Members.contains]
  · exact List.getElem?_set_self (List.getElem?_eq_some_iff.1 h).1
  · exact Members.get?_insert_self _ _ _

def update (change : Json → Json) : Location → Json → Json
  | [], value => change value
  | step :: rest, value =>
      match value.child? step with
      | some child => setChild (update change rest child) value step
      | none => value

theorem get?_update_self (change : Json → Json) {location : Location} :
    ∀ {value old : Json}, value.get? location = some old →
      (update change location value).get? location = some (change old) := by
  induction location with
  | nil => intro value old h; cases h; rfl
  | cons step rest ih =>
      intro value old h
      cases hc : value.child? step with
      | none => simp [get?, hc] at h
      | some child =>
          simp only [get?, hc, Option.bind_some] at h
          simp [update, hc, get?, child?_setChild_self hc, ih h]

def indexed (i : Nat) : List Json → List (Step × Json)
  | [] => []
  | item :: items => (.index i, item) :: indexed (i + 1) items

def children : Json → List (Step × Json)
  | .array items => indexed 0 items
  | .object members => members.map fun (name, value) => (.key name, value)
  | _ => []

end Json

end RecordPath
