import RecordPath.Json.Value

/-!
JSON before it is taken for a value: members in the order they are given in, with repetitions,
strings that may hold half of a surrogate pair and so stand for no text, and numbers of a type `ν`
that the source decides. Who reads it decides where that matters; a value can always be written.
-/

namespace RecordPath

inductive Written (ν : Type) where
  | null
  | bool (b : Bool)
  | number (n : ν)
  | string (s : Option String)
  | array (items : List (Written ν))
  | object (members : List (Option String × Written ν))
  deriving Repr, Inhabited

namespace Written

variable {ν : Type}

mutual

def depth : Written ν → Nat
  | .array items => itemsDepth items + 1
  | .object members => membersDepth members + 1
  | _ => 0

def itemsDepth : List (Written ν) → Nat
  | [] => 0
  | item :: items => max (depth item) (itemsDepth items)

def membersDepth : List (Option String × Written ν) → Nat
  | [] => 0
  | (_, item) :: members => max (depth item) (membersDepth members)

end

mutual

def toJson? (number? : ν → Option Number) : Written ν → Option Json
  | .null => some .null
  | .bool b => some (.bool b)
  | .number n => (number? n).map .number
  | .string s => s.map .string
  | .array items => (itemsToJson? number? items).map .array
  | .object members =>
      (membersToJson? number? members).map fun pairs => .object (Members.ofList pairs)

def itemsToJson? (number? : ν → Option Number) : List (Written ν) → Option (List Json)
  | [] => some []
  | item :: items =>
      match toJson? number? item, itemsToJson? number? items with
      | some value, some values => some (value :: values)
      | _, _ => none

def membersToJson? (number? : ν → Option Number) :
    List (Option String × Written ν) → Option (List (String × Json))
  | [] => some []
  | (name, item) :: members =>
      match name, toJson? number? item, membersToJson? number? members with
      | some name, some value, some pairs => some ((name, value) :: pairs)
      | _, _, _ => none

end

end Written

namespace Json

mutual

def written : Json → Written Number
  | .null => .null
  | .bool b => .bool b
  | .number n => .number n
  | .string s => .string (some s)
  | .array items => .array (itemsWritten items)
  | .object members => .object (membersWritten members)

def itemsWritten : List Json → List (Written Number)
  | [] => []
  | item :: items => written item :: itemsWritten items

def membersWritten : List (String × Json) → List (Option String × Written Number)
  | [] => []
  | (name, value) :: members => (some name, written value) :: membersWritten members

end

end Json

end RecordPath
