import RecordPath.Path.Fault
import RecordPath.Path.Token
import RecordPath.Json.Printer

namespace RecordPath

inductive QueryFault where
  | engine
  | needsNumbers (function : AggregateFunction) (found : Json)
  | emptySelection (function : AggregateFunction)
  | notFinite
  | unrecognisedLocation (text : String)
  deriving DecidableEq, Repr

namespace QueryFault

def message : QueryFault → String
  | .engine => "engine"
  | .needsNumbers function found =>
      function.name ++ "() needs numbers, found " ++ found.text
  | .emptySelection function => function.name ++ "() of an empty selection"
  | .notFinite => "result is not a finite number"
  | .unrecognisedLocation text => s!"unrecognised match location '{text}'"

end QueryFault

inductive DocumentError where
  | pathFormat (path : String) (fault : PathFault)
  | rootMissing (path : String)
  /-- A map step or action on what is not a map. -/
  | keyNotFound (message : String)
  | notAList (message : String)
  | objectNotFound (message : String)
  | appendToRoot
  /-- A change through a step that names no place to write to. -/
  | notWritable (path : String)
  /-- The record changed between the fetch and the write. -/
  | conflict (key : String) (expected : UInt32)
  | unsupportedValue (message : String)
  | queryEvaluation (expression : String) (fault : QueryFault)
  /-- The write was withheld because another field failed. -/
  | itemAborted (code : Int)
  | store (code : Int) (message : String)
  deriving DecidableEq, Repr

namespace DocumentError

def message : DocumentError → String
  | .pathFormat path fault => PathFault.located path fault.message
  | .rootMissing path => s!"Path '{path}' must start with '$'"
  | .keyNotFound message => s!"Key not found: {message}"
  | .notAList message => s!"Not a list: {message}"
  | .objectNotFound message => s!"Object not found: {message}"
  | .appendToRoot => "Cannot append to the document root"
  | .notWritable path => s!"Path '{path}' cannot be resolved to a write location"
  | .conflict key expected =>
      s!"Concurrent modification of {key}: expected generation {expected}"
  | .unsupportedValue message => s!"Unsupported value type: {message}"
  | .queryEvaluation expression fault =>
      s!"Query evaluation failed for '{expression}': " ++ fault.message
  | .itemAborted code => s!"Batch item aborted (result code {code})"
  | .store code message => s!"Store error {code}: {message}"

def isPathError : DocumentError → Bool
  | .pathFormat _ _ => true
  | .rootMissing _ => true
  | _ => false

end DocumentError

end RecordPath
