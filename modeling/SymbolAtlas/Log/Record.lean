import SymbolAtlas.Json.Write
import SymbolAtlas.Log.Event
import SymbolAtlas.Settings

/-!
Log records, and the lines they are written as.
-/

set_option autoImplicit false

namespace SymbolAtlas

structure LogMessage where
  logger : String
  /-- Levels are compared as numbers. -/
  level : Int
  word : String
  event : String
  fields : List (String × Value)

namespace LogMessage

def ofLevel (level : LogLevel) (logger event : String) (fields : List (String × Value)) :
    LogMessage :=
  ⟨logger, level.number, level.word, event, fields⟩

def ofEvent (e : Event) : LogMessage := ofLevel e.level e.logger e.name e.fields

def levelWord (n : Int) : String :=
  if n = 0 then "notset"
  else
    match LogLevel.all.find? fun l => (l.number : Int) = n with
    | some l => l.word
    | none => "level " ++ writeInt n

def foreign (level : Int) (logger event : String) : LogMessage :=
  ⟨logger, level, levelWord level, event, []⟩

end LogMessage

structure LogRecord where
  rows : Rows

namespace LogRecord

/-- The record of a message. A field with the name of one of the marks keeps its place and gets the
value of the mark. -/
def ofMessage (m : LogMessage) (time : String) (requestId : Option String) : LogRecord :=
  let fields := Rows.ofList (m.fields.map fun field => (.text field.1, field.2))
  let marked := (((fields.set "event" (.text m.event)).set "level" (.text m.word)).set "logger"
    (.text m.logger)).set "timestamp" (.text time)
  match requestId with
  | none => ⟨marked⟩
  | some id => ⟨marked.set "request_id" (.text id)⟩

def jsonLine (r : LogRecord) : String := Json.write .oneLine (.map r.rows)

def needsQuotes (c : Char) : Bool :=
  c = ' ' || c = '\t' || c = '=' || c = '\r' || c = '\n' || c = '"' || c = '\x27'

def shown : Value → String
  | .scalar (.text s) => if s.toList.any needsQuotes then Text.display s else s
  | v => v.display

def columns : List (String × (Value → String)) :=
  let bracketed (v : Value) : String := "[" ++ v.plain ++ "]"
  [("timestamp", Value.plain), ("level", bracketed), ("event", Value.plain),
   ("logger", bracketed), ("logger_name", bracketed)]

def hidden : List String := ["exc_info"]

def fieldName : Scalar → String
  | .text s => s
  | k => k.display

def others (r : LogRecord) : List (String × Value) :=
  let named := r.rows.map fun row => (fieldName row.1, row.2)
  let kept := named.filter fun row =>
    !(columns.any fun column => column.1 = row.1) && !hidden.contains row.1
  kept.mergeSort fun a b => a.1 ≤ b.1

def dropBlanksAtEnd (cs : List Char) : List Char := (cs.reverse.dropWhile (· = ' ')).reverse

def consoleLine (r : LogRecord) : String :=
  let marks := columns.filterMap fun column => (r.rows.get? column.1).map column.2
  let fields := r.others.map fun row => row.1 ++ "=" ++ shown row.2
  let parts := (marks ++ fields).filter fun part => part ≠ ""
  String.ofList (dropBlanksAtEnd (joinWith " " parts).toList)

def line (format : LogFormat) (r : LogRecord) : String :=
  match format with
  | .json => r.jsonLine
  | .console => r.consoleLine

end LogRecord

end SymbolAtlas
