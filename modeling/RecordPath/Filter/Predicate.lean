import RecordPath.Json.Location

namespace RecordPath

inductive Comparison where
  | eq
  | ne
  | lt
  | le
  | gt
  | ge
  deriving DecidableEq, Repr

namespace Comparison

def symbol : Comparison → String
  | .eq => "=="
  | .ne => "!="
  | .lt => "<"
  | .le => "<="
  | .gt => ">"
  | .ge => ">="

end Comparison

inductive RecordField where
  | lastUpdate
  | sinceUpdate
  | version
  deriving DecidableEq, Repr

namespace RecordField

def name : RecordField → String
  | .lastUpdate => "last_update"
  | .sinceUpdate => "since_update"
  | .version => "version"

def ofName? : String → Option RecordField
  | "last_update" => some .lastUpdate
  | "since_update" => some .sinceUpdate
  | "version" => some .version
  | _ => none

theorem ofName?_name (field : RecordField) : ofName? field.name = some field := by
  cases field <;> rfl

end RecordField

inductive Quantifier where
  | all
  | any
  deriving DecidableEq, Repr

inductive Operand where
  | path (steps : Location)
  | literal (value : Json)
  | recordField (field : RecordField)
  deriving DecidableEq, Repr

inductive Predicate where
  | compare (left : Operand) (op : Comparison) (right : Operand)
  | present (path : Location)
  | not (inner : Predicate)
  | and (left right : Predicate)
  | or (left right : Predicate)
  | quantified (quantifier : Quantifier) (path : Location) (condition : Predicate)
  deriving DecidableEq, Repr

/-- The record a predicate is about, and the time it is asked at. Times are in milliseconds. -/
structure RecordContext where
  generation : UInt32
  lastUpdate : UInt64
  now : UInt64
  deriving DecidableEq, Repr

namespace RecordContext

/-- A record from the future was updated no time ago. -/
def value (record : RecordContext) : RecordField → Nat
  | .lastUpdate => record.lastUpdate.toNat
  | .sinceUpdate => record.now.toNat - record.lastUpdate.toNat
  | .version => record.generation.toNat

end RecordContext

end RecordPath
