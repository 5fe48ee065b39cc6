import RecordPath.Client.Item
import RecordPath.Json.Form
import RecordPath.Json.Reader

namespace RecordPath

open Written

variable {ν : Type}

namespace Key

def ofWritten? (w : Written ν) : Option Key := do
  let fields ← fields? ["namespace", "setName", "userKey"] w
  let space ← field? asText? none "namespace" fields
  let set ← field? asText? none "setName" fields
  let user ← field? asText? none "userKey" fields
  some ⟨space, set, user⟩

def toJson (key : Key) : Json :=
  .obj [("namespace", .string key.space), ("setName", .string key.set),
    ("userKey", .string key.user)]

end Key

namespace Operation

def ofParts? (value? : Written ν → Option Json) (name : String) (value : Option (Written ν)) :
    Option Operation :=
  match name with
  | "get" => if value.all isNull then some .get else none
  | "delete" => if value.all isNull then some .delete else none
  | "put" => (value.bind value?).map .put
  | "append" => (value.bind value?).map .append
  | _ => none

def ofWritten? (value? : Written ν → Option Json) : Written ν → Option Operation
  | .array [word, value] => word.asWord?.bind fun name => ofParts? value? name (some value)
  | .object members => do
      let fields ← fields? ["op", "value"] (.object members)
      let name ← field? asWord? none "op" fields
      ofParts? value? name (fields.lookup "value")
  | _ => none

def toJson : Operation → Json
  | .get => .obj [("op", .string "get")]
  | .put value => .obj [("op", .string "put"), ("value", value)]
  | .append value => .obj [("op", .string "append"), ("value", value)]
  | .delete => .obj [("op", .string "delete")]

end Operation

namespace Item

/-- In a text the list of items, an item and its operation contain the value. -/
def valueDepth : Nat :=
  Json.depthLimit - 3

def ofWritten? (value? : Written ν → Option Json) (w : Written ν) : Option Item := do
  let fields ← fields? ["key", "fields", "path", "operation"] w
  let key ← field? Key.ofWritten? none "key" fields
  let names ← field? asTexts? none "fields" fields
  let path ← field? asText? none "path" fields
  let operation ← field? (Operation.ofWritten? value?) none "operation" fields
  some ⟨key, names, path, operation⟩

def listOfWritten? (value? : Written ν → Option Json) : Written ν → Option (List Item)
  | .array items => items.mapM (ofWritten? value?)
  | _ => none

def listOfText? (text : String) : Option (List Item) :=
  (Written.ofText? text).bind (listOfWritten? (bounded? valueDepth))

def listOfJson? (value : Json) : Option (List Item) :=
  listOfWritten? (toJson? some) value.written

def toJson (item : Item) : Json :=
  .obj [
    ("key", item.key.toJson),
    ("fields", .array (item.fields.map .string)),
    ("path", .string item.path),
    ("operation", item.operation.toJson)]

def listToJson (items : List Item) : Json :=
  .array (items.map toJson)

end Item

end RecordPath
