import RecordPath.Operation
import RecordPath.Store.Key

namespace RecordPath

structure Item where
  key : Key
  fields : List String
  path : String
  operation : Operation
  deriving DecidableEq, Repr

inductive ItemState where
  | pending
  /-- Done without a query, or fetched for one. -/
  | firstStepDone
  /-- The query is evaluated, and its change written. -/
  | secondStepDone
  | failed
  deriving DecidableEq, Repr

namespace ItemState

def text : ItemState → String
  | .pending => "pending"
  | .firstStepDone => "firstStepDone"
  | .secondStepDone => "secondStepDone"
  | .failed => "failed"

end ItemState

end RecordPath
