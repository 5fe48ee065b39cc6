import RecordPath.Config.Basic
import RecordPath.Operation
import RecordPath.Store.Record

namespace RecordPath.Native

def wholeAction : Operation → Except DocumentError FieldAction
  | .get => .ok (.read .whole)
  | .put value => .ok (.write (.whole value))
  | .delete => .ok (.write .clear)
  | .append _ => .error .appendToRoot

def getAction : Step → ReadAction
  | .key name => .mapGet name
  | .index i => .listGet i

def putAction (mode : ListPutMode) (value : Json) : Step → WriteAction
  | .key name => .mapPut name value
  | .index i => .listSet i value (mode = .autoExtend)

def deleteAction : Step → WriteAction
  | .key name => .mapRemove name
  | .index i => .listRemove i

/-- An append is applied to the list at the end of the path; all else in the container before. -/
def build (field : String) (steps : Location) (operation : Operation) (mode : ListPutMode) :
    Except DocumentError FieldOperation :=
  match steps.getLast?, operation with
  | none, _ => (wholeAction operation).map fun action => ⟨field, [], action⟩
  | some _, .append value => .ok ⟨field, steps, .write (.listAppend value)⟩
  | some last, .get => .ok ⟨field, steps.dropLast, .read (getAction last)⟩
  | some last, .put value => .ok ⟨field, steps.dropLast, .write (putAction mode value last)⟩
  | some last, .delete => .ok ⟨field, steps.dropLast, .write (deleteAction last)⟩

/-- A read of a path with a query takes an absent end for null. -/
def lenient : FieldAction → FieldAction
  | .read (.mapGet name) => .read (.mapLookup name)
  | .read (.listGet i) => .read (.listLookup i)
  | action => action

def fetch (field : String) (steps : Location) (operation : Operation) :
    Except DocumentError FieldOperation :=
  (build field steps .get .strict).map fun fetched =>
    if operation.isWrite then fetched else { fetched with action := lenient fetched.action }

def storeSubtree (field : String) (steps : Location) (subtree : Json) :
    Except DocumentError FieldOperation :=
  build field steps (.put subtree) .strict

end RecordPath.Native
