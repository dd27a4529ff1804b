import SymbolAtlas.Table
import SymbolAtlas.SyntaxTree

/-!
Tag queries: patterns over syntax trees that name some of the nodes they match.
-/

set_option autoImplicit false

namespace SymbolAtlas

/-- A node of a kind, with some of its children in order, each perhaps in a given field. The node
itself is captured under the names listed. -/
inductive Pattern
  | node (kind : String) (parts : List (Option String × Pattern)) (captures : List String)
  deriving Repr

abbrev TagQuery := List Pattern

/-- A node captured under a name. The address tells nodes of one span apart. -/
structure Hit where
  name : String
  address : List Nat
  label : Label
  deriving DecidableEq, Repr

namespace Pattern

def fits (field : Option String) (child : SyntaxTree) : Bool :=
  match field with
  | none => true
  | some name => child.label.field == some name

def ownHits (captures : List String) (address : List Nat) (label : Label) : List Hit :=
  captures.map fun name => ⟨name, address, label⟩

mutual

def hits (address : List Nat) : Pattern → SyntaxTree → List (List Hit)
  | .node kind parts captures, .node label children =>
    if label.named && label.kind == kind then
      (partHits address 0 parts children).map fun inner =>
        ownHits captures address label ++ inner
    else []

/-- The same for parts over children: the parts take distinct children in order. -/
def partHits (address : List Nat) (i : Nat) :
    List (Option String × Pattern) → List SyntaxTree → List (List Hit)
  | [], _ => [[]]
  | _ :: _, [] => []
  | (field, p) :: parts, child :: children =>
    let here :=
      if fits field child then
        (p.hits (address ++ [i]) child).flatMap fun first =>
          (partHits address (i + 1) parts children).map fun others => first ++ others
      else []
    here ++ partHits address (i + 1) ((field, p) :: parts) children

end

end Pattern

namespace TagQuery

def hits (query : TagQuery) (t : SyntaxTree) : List Hit :=
  (t.located []).flatMap fun (address, subtree) =>
    query.flatMap fun p => (p.hits address subtree).flatten

/-- The captured nodes by name, each node once and in document order. -/
def captured (query : TagQuery) (t : SyntaxTree) : List (String × List Label) :=
  let found := query.hits t
  (firstSeen (found.map Hit.name)).map fun name =>
    let addresses := (found.filter fun hit => hit.name == name).map Hit.address
    (name, ((t.located []).filter fun place => addresses.contains place.1).map fun place =>
      place.2.label)

end TagQuery

end SymbolAtlas
