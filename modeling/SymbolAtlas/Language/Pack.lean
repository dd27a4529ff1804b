import SymbolAtlas.Language
import SymbolAtlas.Table
import SymbolAtlas.Path
import SymbolAtlas.TagQuery

/-!
What is known of a language beforehand: where its grammar comes from, which file suffixes belong
to it and how its symbols are tagged.
-/

set_option autoImplicit false

namespace SymbolAtlas

inductive TagSource
  | patterns (query : TagQuery)
  | text (s : String)

structure Pack where
  language : Language
  package : String
  moduleName : String
  functionName : Option String
  extensions : List String
  tags : TagSource

namespace Pack

def usualFunction : String := "language"

def function (p : Pack) : String :=
  match p.functionName with
  | some name => if name.isEmpty then usualFunction else name
  | none => usualFunction

end Pack

abbrev PackTable := Table Language Pack

namespace PackTable

def ofPacks (packs : List Pack) : PackTable := Table.ofList (packs.map fun p => (p.language, p))

/-- Which language an extension belongs to. A later pack takes an extension from an earlier one. -/
def extensions (packs : PackTable) : Table String Language :=
  Table.ofList (packs.entries.flatMap fun row => row.2.extensions.map fun e => (e, row.1))

def languageFor (packs : PackTable) (path : String) : Option Language :=
  packs.extensions.get? (Path.suffix path)

end PackTable

end SymbolAtlas
