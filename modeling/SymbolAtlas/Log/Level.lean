/-!
Levels of log records.
-/

set_option autoImplicit false

namespace SymbolAtlas

inductive LogLevel
  | debug
  | info
  | warning
  | error
  | critical
  deriving DecidableEq, Repr

namespace LogLevel

def all : List LogLevel := [.debug, .info, .warning, .error, .critical]

def number : LogLevel → Nat
  | .debug => 10
  | .info => 20
  | .warning => 30
  | .error => 40
  | .critical => 50

/-- The name in settings. -/
def name : LogLevel → String
  | .debug => "DEBUG"
  | .info => "INFO"
  | .warning => "WARNING"
  | .error => "ERROR"
  | .critical => "CRITICAL"

/-- The name in records. -/
def word : LogLevel → String
  | .debug => "debug"
  | .info => "info"
  | .warning => "warning"
  | .error => "error"
  | .critical => "critical"

def ofName? (s : String) : Option LogLevel := all.find? fun l => l.name == s

end LogLevel

end SymbolAtlas
