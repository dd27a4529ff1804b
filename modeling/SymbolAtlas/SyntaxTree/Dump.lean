import SymbolAtlas.SyntaxTree
import SymbolAtlas.Value

/-!
Syntax trees as other programs hand them over: a row for every node, parents before children, with
its depth, kind, field, marks and the octets it spans.
-/

set_option autoImplicit false

namespace SymbolAtlas.SyntaxTree

/-- The first mark says that a node is named, the second that it is missing. -/
def labelOf (kind field : String) (marks start stop : Nat) : Label where
  kind := kind
  field := if field = "" then none else some field
  named := marks % 2 == 1
  missing := marks / 2 % 2 == 1
  start := start
  stop := stop

def rowOf? : Value → Option (Nat × Label)
  | .list [.int depth, .text kind, .text field, .int marks, .int start, .int stop] =>
    some (depth.toNat, labelOf kind field marks.toNat start.toNat stop.toNat)
  | _ => none

def ofValue? : Value → Option SyntaxTree
  | .list rows => (rows.mapM rowOf?).bind ofRows?
  | _ => none

end SymbolAtlas.SyntaxTree
