import SymbolAtlas.Log.Level
import SymbolAtlas.Value

/-!
The settings of a run, with their built-in values.
-/

set_option autoImplicit false

namespace SymbolAtlas

inductive LogFormat
  | json
  | console
  deriving DecidableEq, Repr

namespace LogFormat

def all : List LogFormat := [.json, .console]

def name : LogFormat → String
  | .json => "json"
  | .console => "console"

def ofName? (s : String) : Option LogFormat := all.find? fun f => f.name == s

end LogFormat

/-- One place log records go to: a standard stream or an absolute file path. -/
structure OutputSettings where
  format : LogFormat
  destination : String
  /-- Without a level of its own an output takes the general one. -/
  level : Option LogLevel
  deriving DecidableEq, Repr

def OutputSettings.builtin : OutputSettings := ⟨.console, "stderr", none⟩

structure LoggingSettings where
  level : LogLevel
  outputs : List OutputSettings
  deriving DecidableEq, Repr

def LoggingSettings.builtin : LoggingSettings := ⟨.info, [.builtin]⟩

inductive SizeLimit
  | builtin
  | given (megabytes : Float)

namespace SizeLimit

def builtinMegabytes : Nat := 10

def megabytes : SizeLimit → Float
  | .builtin => builtinMegabytes.toFloat
  | .given megabytes => megabytes

def toValue : SizeLimit → Value
  | .builtin => .ofNat builtinMegabytes
  | .given megabytes => .float megabytes

end SizeLimit

structure IndexerSettings where
  /-- Without a number there is a worker for every processor. -/
  maxWorkers : Option Nat
  maxFileSize : SizeLimit

def IndexerSettings.builtin : IndexerSettings := ⟨none, .builtin⟩

structure ScoringSettings where
  depthDecay : Float
  densityWeight : Float
  callBoost : Bool
  precision : Nat

def ScoringSettings.builtin : ScoringSettings := ⟨0.8, 0.2, true, 6⟩

structure Settings where
  logging : LoggingSettings
  indexer : IndexerSettings
  scoring : ScoringSettings

def Settings.builtin : Settings := ⟨.builtin, .builtin, .builtin⟩

def OutputSettings.toValue (s : OutputSettings) : Value :=
  .record [("format", .text s.format.name), ("destination", .text s.destination),
    ("level", (s.level.map fun l => Value.text l.name).getD .null)]

def LoggingSettings.toValue (s : LoggingSettings) : Value :=
  .record [("level", .text s.level.name), ("outputs", .list (s.outputs.map OutputSettings.toValue))]

def IndexerSettings.toValue (s : IndexerSettings) : Value :=
  .record [("max_workers", (s.maxWorkers.map Value.ofNat).getD .null),
    ("max_file_size_mb", s.maxFileSize.toValue)]

def ScoringSettings.toValue (s : ScoringSettings) : Value :=
  .record [("depth_decay", .float s.depthDecay), ("density_weight", .float s.densityWeight),
    ("call_boost", .bool s.callBoost), ("precision", .ofNat s.precision)]

def Settings.toValue (s : Settings) : Value :=
  .record [("logging", s.logging.toValue), ("indexer", s.indexer.toValue),
    ("scoring", s.scoring.toValue)]

end SymbolAtlas
