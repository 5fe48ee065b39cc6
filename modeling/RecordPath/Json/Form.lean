import RecordPath.Json.Written

namespace RecordPath

namespace Written

variable {ν α : Type}

def asText? : Written ν → Option String
  | .string s => s
  | _ => none

def asNat? (number? : ν → Option Number) : Written ν → Option Nat
  | .number n =>
      match number? n with
      | some (.int (.ofNat value)) => some value
      | _ => none
  | _ => none

def isNull : Written ν → Bool
  | .null => true
  | _ => false

def asTexts? : Written ν → Option (List String)
  | .array items => items.mapM asText?
  | _ => none

def asWord? : Written ν → Option String
  | .string s => s
  | .object [(name, .null)] => name
  | _ => none

def named? : List (Option String × Written ν) → Option (List (String × Written ν))
  | [] => some []
  | (some name, value) :: rest => (named? rest).map ((name, value) :: ·)
  | (none, _) :: _ => none

def fields? (names : List String) : Written ν → Option (List (String × Written ν))
  | .array items => if items.length ≤ names.length then some (names.zip items) else none
  | .object members =>
      match named? members with
      | none => none
      | some members =>
          let known := members.filter fun member => names.contains member.1
          if (known.map Prod.fst).Nodup then some known else none
  | _ => none

def field? (read? : Written ν → Option α) (standard : Option α) (name : String)
    (fields : List (String × Written ν)) : Option α :=
  match fields.lookup name with
  | some value => read? value
  | none => standard

end Written

end RecordPath
