import SymbolAtlas.Error
import SymbolAtlas.Language
import SymbolAtlas.Stats
import SymbolAtlas.Log.Level

/-!
What the library reports while it works.
-/

set_option autoImplicit false

namespace SymbolAtlas

inductive Event
  | grammarUnavailable (language : Language) (error : GrammarError)
  | grammarLoaded (language : Language)
  | fileTooLarge (file : String) (size : Nat) (limit : Int)
  | fileUnreadable (file error : String)
  | fileParseFailed (file reason : String)
  | fileParsedWithErrors (file : String) (errorNodes : Nat)
  | fileExtractionFailed (file error : String)
  | duplicatePathsIgnored (count : Nat)
  | tokenScoresComputed (root : String) (stats : BuildStats)
  deriving DecidableEq, Repr

namespace Event

def name : Event → String
  | .grammarUnavailable _ _ => "grammar_unavailable"
  | .grammarLoaded _ => "grammar_loaded"
  | .fileTooLarge _ _ _ => "file_too_large"
  | .fileUnreadable _ _ => "file_unreadable"
  | .fileParseFailed _ _ => "file_parse_failed"
  | .fileParsedWithErrors _ _ => "file_parsed_with_errors"
  | .fileExtractionFailed _ _ => "file_extraction_failed"
  | .duplicatePathsIgnored _ => "duplicate_paths_ignored"
  | .tokenScoresComputed _ _ => "token_scores_computed"

def level : Event → LogLevel
  | .grammarUnavailable _ _ => .warning
  | .grammarLoaded _ => .debug
  | .fileTooLarge _ _ _ => .warning
  | .fileUnreadable _ _ => .warning
  | .fileParseFailed _ _ => .warning
  | .fileParsedWithErrors _ _ => .debug
  | .fileExtractionFailed _ _ => .warning
  | .duplicatePathsIgnored _ => .debug
  | .tokenScoresComputed _ _ => .debug

def logger : Event → String
  | .grammarUnavailable _ _ => "codemap.index._internal.parsing.registry"
  | .grammarLoaded _ => "codemap.index._internal.parsing.registry"
  | _ => "codemap.index._internal.indexing.graph"

def fields : Event → List (String × Value)
  | .grammarUnavailable language error =>
    [("language", .text language.name), ("error", .text error.coded.code.name),
     ("reason", .text error.reason)]
  | .grammarLoaded language => [("language", .text language.name)]
  | .fileTooLarge file size limit =>
    [("file", .text file), ("size", .ofNat size), ("limit", .int limit)]
  | .fileUnreadable file error => [("file", .text file), ("error", .text error)]
  | .fileParseFailed file reason => [("file", .text file), ("reason", .text reason)]
  | .fileParsedWithErrors file errorNodes =>
    [("file", .text file), ("error_nodes", .ofNat errorNodes)]
  | .fileExtractionFailed file error =>
    [("file", .text file), ("error", .text error), ("exc_info", .bool true)]
  | .duplicatePathsIgnored count => [("count", .ofNat count)]
  | .tokenScoresComputed root stats => ("root", .text root) :: stats.fields

end Event

inductive Origin
  | caller
  | worker
  deriving DecidableEq, Repr

structure Notice where
  origin : Origin
  event : Event
  deriving DecidableEq, Repr

end SymbolAtlas
