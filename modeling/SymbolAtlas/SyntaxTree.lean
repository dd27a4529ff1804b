/-!
Concrete syntax trees. Every node has a kind, the field it fills in its parent, if it fills one,
and the octets it spans.
-/

set_option autoImplicit false

namespace SymbolAtlas

structure Label where
  kind : String
  field : Option String
  named : Bool
  /-- Whether the node stands for something the source lacks. -/
  missing : Bool
  start : Nat
  stop : Nat
  deriving DecidableEq, Repr

inductive SyntaxTree
  | node (label : Label) (children : List SyntaxTree)
  deriving Repr

/-- The kind of a node that stands for source the grammar has no rule for. -/
def errorKind : String := "ERROR"

def Label.isFault (l : Label) : Bool := l.kind == errorKind || l.missing

namespace SyntaxTree

def label : SyntaxTree → Label
  | .node l _ => l

def children : SyntaxTree → List SyntaxTree
  | .node _ cs => cs

mutual

def size : SyntaxTree → Nat
  | .node _ cs => 1 + forestSize cs

def forestSize : List SyntaxTree → Nat
  | [] => 0
  | t :: ts => t.size + forestSize ts

end

theorem size_pos (t : SyntaxTree) : 0 < t.size := by
  cases t; simp only [size]; omega

mutual

/-- Every node with its address, parents before children and left before right. -/
def located (address : List Nat) : SyntaxTree → List (List Nat × SyntaxTree)
  | .node l cs => (address, .node l cs) :: locatedBelow address 0 cs

def locatedBelow (address : List Nat) (i : Nat) :
    List SyntaxTree → List (List Nat × SyntaxTree)
  | [] => []
  | t :: ts => t.located (address ++ [i]) ++ locatedBelow address (i + 1) ts

end

/-- One more row in front of finished trees: the deeper trees that follow are its children. -/
def attach (row : Nat × Label) (trees : List (Nat × SyntaxTree)) : List (Nat × SyntaxTree) :=
  let inside := trees.takeWhile fun t => row.1 < t.1
  (row.1, .node row.2 (inside.map Prod.snd)) :: trees.drop inside.length

def ofRows? (rows : List (Nat × Label)) : Option SyntaxTree :=
  match rows.foldr attach [] with
  | [(_, t)] => some t
  | _ => none

end SyntaxTree

end SymbolAtlas
