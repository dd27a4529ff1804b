import SymbolAtlas.Value.Display

/-!
Errors with a code, a name and structured details, and faults of code that is not the library's.
-/

set_option autoImplicit false

namespace SymbolAtlas

/-- A fault that nobody expects, by its kind and its text. -/
structure Crash where
  kind : String
  message : String
  deriving DecidableEq, Repr

inductive ErrorCode
  | rootNotFound
  | rootNotDirectory
  | badFileList
  | configParseError
  | configInvalidValue
  | grammarLoadFailed
  | queryCompileFailed
  deriving DecidableEq, Repr

namespace ErrorCode

def all : List ErrorCode :=
  [.rootNotFound, .rootNotDirectory, .badFileList, .configParseError, .configInvalidValue,
   .grammarLoadFailed, .queryCompileFailed]

def number : ErrorCode → Nat
  | .rootNotFound => 1001
  | .rootNotDirectory => 1002
  | .badFileList => 1003
  | .configParseError => 2001
  | .configInvalidValue => 2002
  | .grammarLoadFailed => 3001
  | .queryCompileFailed => 3002

def name : ErrorCode → String
  | .rootNotFound => "ROOT_NOT_FOUND"
  | .rootNotDirectory => "ROOT_NOT_DIRECTORY"
  | .badFileList => "BAD_FILE_LIST"
  | .configParseError => "CONFIG_PARSE_ERROR"
  | .configInvalidValue => "CONFIG_INVALID_VALUE"
  | .grammarLoadFailed => "GRAMMAR_LOAD_FAILED"
  | .queryCompileFailed => "QUERY_COMPILE_FAILED"

def ofNumber? (n : Int) : Option ErrorCode := all.find? fun code => (code.number : Int) == n

end ErrorCode

structure CodedError where
  code : ErrorCode
  message : String
  details : Rows

namespace CodedError

def text (e : CodedError) : String :=
  "[" ++ writeNat e.code.number ++ "] " ++ e.code.name ++ ": " ++ e.message

def toValue (e : CodedError) : Value :=
  .record [("code", .ofNat e.code.number), ("error", .text e.code.name),
    ("message", .text e.message), ("details", .map e.details)]

def ofTexts (code : ErrorCode) (message : String) (details : List (String × String)) : CodedError :=
  ⟨code, message, details.map fun row => (.text row.1, .text row.2)⟩

end CodedError

inductive ArgumentError
  | rootNotFound (root : String)
  | rootNotDirectory (root : String)
  | badFileList (reason : String)
  deriving DecidableEq, Repr

def ArgumentError.coded : ArgumentError → CodedError
  | .rootNotFound root =>
    .ofTexts .rootNotFound ("Root directory does not exist: " ++ root) [("root", root)]
  | .rootNotDirectory root =>
    .ofTexts .rootNotDirectory ("Root is not a directory: " ++ root) [("root", root)]
  | .badFileList reason =>
    .ofTexts .badFileList ("Invalid file path list: " ++ reason) [("reason", reason)]

inductive ConfigError
  | unparsable (path reason : String)
  | invalidValue (field : String) (value : Value) (reason : String)

def ConfigError.coded : ConfigError → CodedError
  | .unparsable path reason =>
    .ofTexts .configParseError ("Failed to parse config at " ++ path ++ ": " ++ reason)
      [("path", path), ("reason", reason)]
  | .invalidValue field value reason =>
    .ofTexts .configInvalidValue ("Invalid value for '" ++ field ++ "': " ++ reason)
      [("field", field), ("value", value.plain), ("reason", reason)]

inductive GrammarError
  | loadFailed (language reason : String)
  | queryRejected (language reason : String)
  deriving DecidableEq, Repr

namespace GrammarError

def coded : GrammarError → CodedError
  | .loadFailed language reason =>
    .ofTexts .grammarLoadFailed ("Failed to load grammar for " ++ language ++ ": " ++ reason)
      [("language", language), ("reason", reason)]
  | .queryRejected language reason =>
    .ofTexts .queryCompileFailed
      ("Failed to compile tag query for " ++ language ++ ": " ++ reason)
      [("language", language), ("reason", reason)]

def reason : GrammarError → String
  | .loadFailed _ reason => reason
  | .queryRejected _ reason => reason

end GrammarError

end SymbolAtlas
