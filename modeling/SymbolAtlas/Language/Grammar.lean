import SymbolAtlas.Error
import SymbolAtlas.Language.Pack
import SymbolAtlas.TagQuery.Text

/-!
Grammars as the packages offer them, and the checks a tag query has to pass for one.
-/

set_option autoImplicit false

namespace SymbolAtlas

structure Grammar where
  hasKind : String → Bool
  hasField : String → Bool
  isLeaf : String → Bool

inductive GrammarAnswer
  | grammar (g : Grammar)
  /-- There is no such module or function, or what it gives is no grammar. -/
  | refused (reason : String)
  /-- The module fails in a way that nobody expects. -/
  | crashed (crash : Crash)

/-- The modules that grammars are loaded from. They are not part of the library: each may answer as
it likes, as long as it answers the same every time. -/
structure Installation where
  ask : (moduleName function : String) → GrammarAnswer

structure GrammarModule where
  name : String
  functions : List (String × GrammarAnswer)
  texts : List String

inductive LoadFault
  | noModule (name : String)
  | noFunction (moduleName name : String)
  | notCallable
  deriving DecidableEq, Repr

def LoadFault.reason : LoadFault → String
  | .noModule name => "No module named " ++ Text.display name
  | .noFunction moduleName name => "module '" ++ moduleName ++ "' has no attribute '" ++ name ++ "'"
  | .notCallable => "'str' object is not callable"

inductive QueryFault
  | malformed
  | unknownKind (kind : String)
  | unknownField (field : String)
  | impossible (kind : String)
  deriving DecidableEq, Repr

def QueryFault.reason : QueryFault → String
  | .malformed => "Invalid syntax"
  | .unknownKind kind => "Invalid node type " ++ kind
  | .unknownField field => "Invalid field name " ++ field
  | .impossible kind => "Impossible pattern " ++ kind

namespace Grammar

def identifierKinds : List String :=
  ["identifier", "type_identifier", "property_identifier", "field_identifier",
   "package_identifier", "constant"]

def permissive : Grammar where
  hasKind _ := true
  hasField _ := true
  isLeaf kind := identifierKinds.contains kind

mutual

def fault? (g : Grammar) : Pattern → Option QueryFault
  | .node kind parts _ =>
    if !g.hasKind kind then some (.unknownKind kind)
    else if g.isLeaf kind && !parts.isEmpty then some (.impossible kind)
    else g.partFault? parts

def partFault? (g : Grammar) : List (Option String × Pattern) → Option QueryFault
  | [] => none
  | (field, p) :: rest =>
    match field.filter fun f => !g.hasField f with
    | some f => some (.unknownField f)
    | none =>
      match g.fault? p with
      | some fault => some fault
      | none => g.partFault? rest

end

def compile (g : Grammar) (tags : TagSource) : Except QueryFault TagQuery :=
  let query? :=
    match tags with
    | .patterns query => some query
    | .text s => TagQuery.read s
  match query? with
  | none => .error .malformed
  | some query =>
    match query.findSome? g.fault? with
    | some fault => .error fault
    | none => .ok query

end Grammar

namespace Installation

def ofModules (modules : List GrammarModule) : Installation where
  ask name function :=
    match modules.find? fun m => m.name == name with
    | none => .refused (LoadFault.noModule name).reason
    | some m =>
      match m.functions.lookup function with
      | some answer => answer
      | none =>
        if m.texts.contains function then .refused LoadFault.notCallable.reason
        else .refused (LoadFault.noFunction name function).reason

def moduleTexts : List String := ["__name__"]

def modulesOf (packs : List Pack) (g : Grammar) : List GrammarModule :=
  (firstSeen (packs.map Pack.moduleName)).map fun name =>
    ⟨name, (packs.filter fun p => p.moduleName == name).map fun p => (p.function, .grammar g),
      moduleTexts⟩

def ofPacks (packs : List Pack) (g : Grammar) : Installation := ofModules (modulesOf packs g)

/-- Load a pack's grammar. A refusal is an error of the library; a crash is not, and nothing is
made of it. -/
def loadGrammar (installed : Installation) (p : Pack) :
    Except Crash (Except GrammarError Grammar) :=
  match installed.ask p.moduleName p.function with
  | .grammar g => .ok (.ok g)
  | .refused reason => .ok (.error (.loadFailed p.language.name reason))
  | .crashed crash => .error crash

end Installation

def Pack.compileQuery (p : Pack) (g : Grammar) : Except GrammarError TagQuery :=
  match g.compile p.tags with
  | .ok query => .ok query
  | .error fault => .error (.queryRejected p.language.name fault.reason)

end SymbolAtlas
