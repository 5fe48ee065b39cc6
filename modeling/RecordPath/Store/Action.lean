import RecordPath.Json.Location

namespace RecordPath

inductive ReadAction where
  | whole
  | mapGet (name : String)
  | listGet (i : Nat)
  /-- Like `mapGet`, with null for an absent name. -/
  | mapLookup (name : String)
  /-- Like `listGet`, with null past the end. -/
  | listLookup (i : Nat)
  deriving DecidableEq, Repr

inductive WriteAction where
  | whole (value : Json)
  | clear
  | mapPut (name : String) (value : Json)
  /-- An absent name is no error. -/
  | mapRemove (name : String)
  /-- Past the end, `pad` fills the gap with nulls. -/
  | listSet (i : Nat) (value : Json) (pad : Bool)
  | listAppend (value : Json)
  | listRemove (i : Nat)
  deriving DecidableEq, Repr

inductive FieldAction where
  | read (action : ReadAction)
  | write (action : WriteAction)
  deriving DecidableEq, Repr

namespace FieldAction

def isWrite : FieldAction → Bool
  | .read _ => false
  | .write _ => true

end FieldAction

structure FieldOperation where
  field : String
  context : Location
  action : FieldAction
  deriving DecidableEq, Repr

end RecordPath
