import SymbolAtlas.Registry
import SymbolAtlas.Capture
import SymbolAtlas.SyntaxTree.Cursor

/-!
Source files as parsers read them. The parser is not part of the library: it is given as a value
that answers with a tree, with no tree, or with a fault.
-/

set_option autoImplicit false

namespace SymbolAtlas

inductive ParserAnswer
  | tree (t : SyntaxTree)
  | noTree
  | refused (message : String)
  | crashed (crash : Crash)

structure Parser where
  parse : (path : String) → Language → List UInt8 → ParserAnswer
  /-- A fault of running a query over the tree of a path. -/
  queryFault? : (path : String) → Option String

inductive ParseFailure
  | unsupported
  | malformed (message : String)
  deriving DecidableEq, Repr

namespace ParseFailure

def reason : ParseFailure → String
  | .unsupported => "unsupported"
  | .malformed _ => "malformed"

def message : ParseFailure → String
  | .unsupported => "No usable grammar for this file type"
  | .malformed message => message

end ParseFailure

structure Parsed where
  path : String
  source : List UInt8
  profile : Profile
  tree : SyntaxTree
  count : NodeCount
  lineCount : Nat

inductive ParseOutcome
  | parsed (p : Parsed)
  | failed (f : ParseFailure)
  | crashed (crash : Crash)

structure ParseStep where
  outcome : ParseOutcome
  registry : Registry
  events : List Event

def ParserAnswer.outcome (path : String) (profile : Profile) (source : List UInt8) :
    ParserAnswer → ParseOutcome
  | .tree t => .parsed ⟨path, source, profile, t, t.countNodes, Text.lineCount source⟩
  | .noTree => .failed (.malformed "Parser returned no tree")
  | .refused message => .failed (.malformed message)
  | .crashed crash => .crashed crash

def parseSource (installed : Installation) (parser : Parser) (r : Registry) (path : String)
    (source : List UInt8) : ParseStep :=
  let found := r.resolve installed path
  match found.profile with
  | .error crash => ⟨.crashed crash, found.registry, found.events⟩
  | .ok none => ⟨.failed .unsupported, found.registry, found.events⟩
  | .ok (some profile) =>
    ⟨(parser.parse path profile.pack.language source).outcome path profile source,
      found.registry, found.events⟩

def Parsed.captures (p : Parsed) : List Capture :=
  Capture.collect p.source (TagQuery.captured p.profile.query p.tree)

end SymbolAtlas
