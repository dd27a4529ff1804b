import SymbolAtlas.Table
import SymbolAtlas.Language
import SymbolAtlas.Capture

/-!
What one file contributes: the tokens it defines and the tokens it refers to.
-/

set_option autoImplicit false

namespace SymbolAtlas

structure FileFacts where
  path : String
  language : Option Language
  definitions : Table String Nat
  /-- Referred tokens in the order of the source, with repetitions. -/
  references : List String
  lineCount : Nat
  errorCount : Nat
  error : Option String
  /-- Whether the file has no usable language. Such a file has no place in the result. -/
  unsupported : Bool

namespace FileFacts

def blank (path : String) (language : Option Language) : FileFacts where
  path := path
  language := language
  definitions := Table.empty
  references := []
  lineCount := 0
  errorCount := 0
  error := none
  unsupported := false

def isSupported (f : FileFacts) : Bool := !f.unsupported

def addCapture (f : FileFacts) (c : Capture) : FileFacts :=
  match c.kind with
  | .definition => { f with definitions := f.definitions.bump c.name }
  | .reference => { f with references := f.references ++ [c.name] }

def addCaptures (f : FileFacts) (captures : List Capture) : FileFacts :=
  captures.foldl addCapture f

end FileFacts

end SymbolAtlas
