import RecordPath.Client.Batch
import RecordPath.Client.ItemForm
import RecordPath.CommandLine.Invocation
import RecordPath.Config.Form
import RecordPath.Store.Memory

namespace RecordPath.CommandLine

inductive CommandFault where
  | configUnreadable
  | config (fault : ConfigFault)
  | fileUnreadable (file : String)
  | notJson (what : String)
  | document (e : DocumentError)
  deriving DecidableEq, Repr

namespace CommandFault

def message : CommandFault → String
  | .configUnreadable => "Failed to read config file"
  | .config .unreadable => "Failed to parse config"
  | .config (.invalid _) => "Invalid config"
  | .fileUnreadable file => s!"Failed to read '{file}'"
  | .notJson what => s!"Invalid JSON in {what}"
  | .document e => e.message

end CommandFault

/-- The texts of files by their names; none for a file that cannot be read. -/
abbrev Files := String → Option String

def readConfig (files : Files) : Option String → Except CommandFault ClientConfig
  | none => .ok .standard
  | some file =>
      match files file with
      | none => .error .configUnreadable
      | some text => (ClientConfig.ofText text).mapError .config

def readFile (files : Files) (file : String) : Except CommandFault String :=
  match files file with
  | some text => .ok text
  | none => .error (.fileUnreadable file)

def readJson (what text : String) : Except CommandFault Json :=
  match Json.ofText? text with
  | some value => .ok value
  | none => .error (.notJson what)

def readDocument (files : Files) : Option String → Except CommandFault Json
  | none => .ok (.object [])
  | some file => (readFile files file).bind (readJson file)

def readItems (files : Files) (file : String) : Except CommandFault (List Item) :=
  (readFile files file).bind fun text =>
    match Item.listOfText? text with
    | some items => .ok items
    | none => .error (.notJson file)

def outcome : Outcome → Json
  | .ok value => .obj [("ok", value)]
  | .error e => .obj [("error", .string e.message)]

def report (result : ItemResult) : Json :=
  .obj [
    ("key", result.key.toJson),
    ("state", .string result.state.text),
    ("fields", .obj (result.fields.map fun (field, answer) => (field, outcome answer)))]

def nothing (answer : Except DocumentError Unit) : Except DocumentError Json :=
  answer.map fun _ => .null

def exchange (files : Files) (config : ClientConfig) (key : Key) (field : String) :
    Command → Except CommandFault (Exchange (Except DocumentError Json))
  | .get path => .ok (Client.getOne config key field path)
  | .put path value =>
      (readJson "value" value).map fun value =>
        (Client.put config key [field] path (.json value)).map nothing
  | .append path value =>
      (readJson "value" value).map fun value =>
        (Client.append config key [field] path (.json value)).map nothing
  | .delete path => .ok ((Client.delete config key [field] path).map nothing)
  | .batch file =>
      (readItems files file).map fun items =>
        (Batch.perform config items).map fun results => .ok (.array (results.map report))

def output (key : Key) (field : String) :
    Except DocumentError Json × Memory → Except CommandFault Json
  | (.error e, _) => .error (.document e)
  | (.ok result, memory) =>
      .ok (.obj [("result", result), ("document", (memory.bin? key field).getD .null)])

def Invocation.run (files : Files) (clock : UInt64) (invocation : Invocation) :
    Except CommandFault Json := do
  let config ← readConfig files invocation.config
  let document ← readDocument files invocation.document
  let key : Key := ⟨config.space, config.set, invocation.key⟩
  let memory := (Memory.empty clock).seed key [(invocation.field, document)]
  let exchange ← exchange files config key invocation.field invocation.command
  output key invocation.field (exchange.run Memory.store memory)

end RecordPath.CommandLine
