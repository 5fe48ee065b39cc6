import RecordPath.Json.Value

namespace RecordPath

namespace Number

/-- An integer and a double are never the same, whatever their values. -/
def same : Number → Number → Bool
  | .int a, .int b => a = b
  | .float a, .float b => a == b
  | _, _ => false

/-- Below this difference two numbers count as equal. -/
def tolerance : Float := 2.220446049250313e-16

def close (a b : Number) : Bool :=
  (a.toFloat - b.toFloat).abs < tolerance

end Number

namespace Json

mutual

def same : Json → Json → Bool
  | .null, .null => true
  | .bool a, .bool b => a = b
  | .number a, .number b => a.same b
  | .string a, .string b => a = b
  | .array a, .array b => sameItems a b
  | .object a, .object b => sameMembers a b
  | _, _ => false

def sameItems : List Json → List Json → Bool
  | [], [] => true
  | a :: as, b :: bs => same a b && sameItems as bs
  | _, _ => false

def sameMembers : List (String × Json) → List (String × Json) → Bool
  | [], [] => true
  | (m, a) :: as, (n, b) :: bs => m = n && same a b && sameMembers as bs
  | _, _ => false

end

def equals : Json → Json → Bool
  | .number a, .number b => a.close b
  | a, b => a.same b

def less : Json → Json → Bool
  | .number a, .number b => a.toFloat < b.toFloat
  | .string a, .string b => a < b
  | _, _ => false

end Json

end RecordPath
