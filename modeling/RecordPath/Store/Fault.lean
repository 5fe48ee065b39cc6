import RecordPath.Error

namespace RecordPath

inductive ResultCode where
  | recordNotFound
  | generationMismatch (key : String) (expected : UInt32)
  | parameterError
  | timeout
  | elementNotFound
  | notApplicable
  /-- Chosen by the client. -/
  | rejected (code : Int)
  deriving DecidableEq, Repr

namespace ResultCode

def code : ResultCode → Int
  | .recordNotFound => 2
  | .generationMismatch _ _ => 3
  | .parameterError => 4
  | .timeout => 9
  | .elementNotFound => 23
  | .notApplicable => 26
  | .rejected code => code

end ResultCode

structure StoreError where
  code : ResultCode
  message : String
  deriving DecidableEq, Repr

namespace StoreError

def text (e : StoreError) : String :=
  s!"store result code {e.code.code}: {e.message}"

def classify (e : StoreError) : DocumentError :=
  match e.code with
  | .recordNotFound => .objectNotFound e.message
  | .elementNotFound => .objectNotFound e.message
  | .parameterError => .keyNotFound e.message
  | .notApplicable => .notAList e.message
  | .generationMismatch key expected => .conflict key expected
  | .timeout => .store e.code.code e.message
  | .rejected code => .store code e.message

def mapExpected (found : Json) : StoreError :=
  ⟨.parameterError, "map operation on " ++ found.kind⟩

def listExpected (found : Json) : StoreError :=
  ⟨.notApplicable, "list operation on " ++ found.kind⟩

def outOfRange (i length : Nat) : StoreError :=
  ⟨.elementNotFound, s!"list index {i} out of range (length {length})"⟩

def missingName (name : String) : StoreError :=
  ⟨.elementNotFound, s!"map key '{name}' not found"⟩

def missingContext (name : String) : StoreError :=
  ⟨.elementNotFound, s!"context map key '{name}' not found"⟩

def missingField (field : String) : StoreError :=
  ⟨.elementNotFound, s!"field '{field}' not found"⟩

def missingRecord (key : String) : StoreError :=
  ⟨.recordNotFound, s!"record {key} not found"⟩

def writeInRead (field : String) : StoreError :=
  ⟨.parameterError, s!"write action on field '{field}' sent as a read"⟩

def stale (key : String) (current expected : UInt32) : StoreError :=
  ⟨.generationMismatch key expected, s!"generation is {current} but write expected {expected}"⟩

def refused (key : String) (code : Int) : StoreError :=
  ⟨.rejected code, s!"write to {key} rejected"⟩

def unanswered : StoreError :=
  ⟨.timeout, "store returned no result for batch request"⟩

end StoreError

end RecordPath
