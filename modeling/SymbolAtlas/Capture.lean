import SymbolAtlas.TagQuery
import SymbolAtlas.Text.Utf8
import SymbolAtlas.Text.Lines

/-!
Captures of a tag query, classified as definitions and references by their names.
-/

set_option autoImplicit false

namespace SymbolAtlas

inductive CaptureKind
  | definition
  | reference
  deriving DecidableEq, Repr

def CaptureKind.text : CaptureKind → String
  | .definition => "definition"
  | .reference => "reference"

def CaptureKind.stem (k : CaptureKind) : String := "name." ++ k.text ++ "."

structure Capture where
  name : String
  kind : CaptureKind
  tag : String
  line : Nat
  column : Nat
  start : Nat
  deriving DecidableEq, Repr

namespace Capture

def tagOf? (kind : CaptureKind) (name : String) : Option String :=
  if kind.stem.toList.isPrefixOf name.toList then
    some (String.ofList (name.toList.drop kind.stem.length))
  else none

/-- Kind and tag of a capture name. Other names are for the query's own use. -/
def classify (name : String) : Option (CaptureKind × String) :=
  match tagOf? .definition name with
  | some tag => some (.definition, tag)
  | none => (tagOf? .reference name).map fun tag => (.reference, tag)

def nodeText (source : List UInt8) (label : Label) : String :=
  Utf8.decodeLossy ((source.drop label.start).take (label.stop - label.start))

/-- One more node of a name. Of the nodes of one kind at one octet the first is kept, and empty
nodes do not count. -/
def addNode (source : List UInt8) (kind : CaptureKind) (tag : String) (acc : List Capture)
    (label : Label) : List Capture :=
  if acc.any fun c => c.start == label.start && c.kind == kind then acc
  else
    let text := nodeText source label
    if text.isEmpty then acc
    else acc ++ [⟨text, kind, tag, Text.lineAt source label.start,
      Text.columnAt source label.start, label.start⟩]

def addNamed (source : List UInt8) (acc : List Capture) (row : String × List Label) :
    List Capture :=
  match classify row.1 with
  | none => acc
  | some (kind, tag) => row.2.foldl (addNode source kind tag) acc

def before (a b : Capture) : Bool :=
  if a.start ≠ b.start then a.start < b.start
  else if a.kind ≠ b.kind then a.kind.text < b.kind.text
  else a.tag ≤ b.tag

/-- The symbols among captured nodes. Names are taken in order, so that the result does not hang on
the order in which they are given. -/
def collect (source : List UInt8) (captured : List (String × List Label)) : List Capture :=
  let named := captured.mergeSort fun a b => a.1 ≤ b.1
  (named.foldl (addNamed source) []).mergeSort before

end Capture

end SymbolAtlas
