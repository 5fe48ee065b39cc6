import RecordPath.Json.Value

namespace RecordPath

inductive Operation where
  | get
  | put (value : Json)
  | append (value : Json)
  | delete
  deriving DecidableEq, Repr

namespace Operation

def isWrite : Operation → Bool
  | .get => false
  | _ => true

theorem isWrite_iff (operation : Operation) : operation.isWrite = true ↔ operation ≠ .get := by
  cases operation <;> simp [isWrite]

theorem isWrite_eq_false_iff (operation : Operation) :
    operation.isWrite = false ↔ operation = .get := by
  cases operation <;> simp [isWrite]

def name : Operation → String
  | .get => "get"
  | .put _ => "put"
  | .append _ => "append"
  | .delete => "delete"

end Operation

end RecordPath
