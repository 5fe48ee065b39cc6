namespace RecordPath

inductive ListPutMode where
  | strict
  /-- Fills the gap with nulls. -/
  | autoExtend
  deriving DecidableEq, Repr

inductive LogFormat where
  | pretty
  | json
  | compact
  deriving DecidableEq, Repr

structure BatchConfig where
  maxRequestsPerCall : Nat
  deriving DecidableEq, Repr

structure LoggingConfig where
  level : String
  format : LogFormat
  deriving DecidableEq, Repr

structure ClientConfig where
  space : String
  set : String
  listPut : ListPutMode
  batch : BatchConfig
  logging : LoggingConfig
  deriving DecidableEq, Repr

namespace BatchConfig

def standard : BatchConfig :=
  ⟨5000⟩

end BatchConfig

namespace LoggingConfig

def standard : LoggingConfig :=
  ⟨"info", .compact⟩

end LoggingConfig

inductive Violation where
  | batchSize
  | emptyLevel
  | emptySpace
  | emptySet
  deriving DecidableEq, Repr

namespace Violation

def text : Violation → String
  | .batchSize => "batch.max_requests_per_call:range"
  | .emptyLevel => "logging.level:length"
  | .emptySpace => "namespace:length"
  | .emptySet => "set_name:length"

end Violation

namespace ClientConfig

def standard : ClientConfig :=
  ⟨"test", "documents", .strict, .standard, .standard⟩

def violates (config : ClientConfig) : Violation → Bool
  | .batchSize =>
      config.batch.maxRequestsPerCall < 1 || 10000 < config.batch.maxRequestsPerCall
  | .emptyLevel => config.logging.level.isEmpty
  | .emptySpace => config.space.isEmpty
  | .emptySet => config.set.isEmpty

def violations (config : ClientConfig) : List Violation :=
  [.batchSize, .emptyLevel, .emptySpace, .emptySet].filter config.violates

theorem violations_standard : standard.violations = [] := by
  decide +kernel

end ClientConfig

end RecordPath
