import RecordPath.Config.Basic
import RecordPath.Json.Form
import RecordPath.Json.Reader

namespace RecordPath

open Written

namespace ListPutMode

def name : ListPutMode → String
  | .strict => "strict"
  | .autoExtend => "autoExtend"

def ofName? : String → Option ListPutMode
  | "strict" => some .strict
  | "autoExtend" => some .autoExtend
  | _ => none

theorem ofName?_name (mode : ListPutMode) : ofName? mode.name = some mode := by
  cases mode <;> rfl

end ListPutMode

namespace LogFormat

def name : LogFormat → String
  | .pretty => "pretty"
  | .json => "json"
  | .compact => "compact"

def ofName? : String → Option LogFormat
  | "pretty" => some .pretty
  | "json" => some .json
  | "compact" => some .compact
  | _ => none

theorem ofName?_name (format : LogFormat) : ofName? format.name = some format := by
  cases format <;> rfl

end LogFormat

def BatchConfig.ofWritten? (w : Written Numeral) : Option BatchConfig := do
  let fields ← fields? ["maxRequestsPerCall"] w
  let size ← field? (asNat? Numeral.number?) (some standard.maxRequestsPerCall)
    "maxRequestsPerCall" fields
  some ⟨size⟩

def LoggingConfig.ofWritten? (w : Written Numeral) : Option LoggingConfig := do
  let fields ← fields? ["level", "format"] w
  let level ← field? asText? (some standard.level) "level" fields
  let format ← field? (fun w => w.asWord?.bind LogFormat.ofName?) (some standard.format) "format"
    fields
  some ⟨level, format⟩

inductive ConfigFault where
  | unreadable
  | invalid (violations : List Violation)
  deriving DecidableEq, Repr

namespace ClientConfig

def fieldNames : List String :=
  ["namespace", "setName", "listPut", "batch", "logging"]

def ofWritten? (w : Written Numeral) : Option ClientConfig := do
  let fields ← fields? fieldNames w
  let space ← field? asText? none "namespace" fields
  let set ← field? asText? none "setName" fields
  let listPut ← field? (fun w => w.asWord?.bind ListPutMode.ofName?) (some standard.listPut)
    "listPut" fields
  let batch ← field? BatchConfig.ofWritten? (some standard.batch) "batch" fields
  let logging ← field? LoggingConfig.ofWritten? (some standard.logging) "logging" fields
  some ⟨space, set, listPut, batch, logging⟩

/-- Settings are checked only when all of them have been read. -/
def ofText (text : String) : Except ConfigFault ClientConfig :=
  match (Written.ofText? text).bind ofWritten? with
  | none => .error .unreadable
  | some config =>
      match config.violations with
      | [] => .ok config
      | violations => .error (.invalid violations)

def toJson (config : ClientConfig) : Json :=
  .obj [
    ("namespace", .string config.space),
    ("setName", .string config.set),
    ("listPut", .string config.listPut.name),
    ("batch", .obj [("maxRequestsPerCall", .nat config.batch.maxRequestsPerCall)]),
    ("logging", .obj [
      ("level", .string config.logging.level),
      ("format", .string config.logging.format.name)])]

theorem violations_of_ofText {text : String} {config : ClientConfig}
    (h : ofText text = .ok config) : config.violations = [] := by
  unfold ofText at h
  split at h
  · cases h
  · split at h
    · cases h
      assumption
    · cases h

end ClientConfig

end RecordPath
