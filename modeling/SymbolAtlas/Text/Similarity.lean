/-!
How alike two texts are: the characters in runs that both have, compared with their lengths.
-/

set_option autoImplicit false

namespace SymbolAtlas.Text

def sharedStart : List Char → List Char → Nat
  | a :: as, b :: bs => if a = b then sharedStart as bs + 1 else 0
  | _, _ => 0

structure SharedRun where
  left : Nat
  right : Nat
  length : Nat
  deriving DecidableEq, Repr

/-- The longest shared run. Of several the first in the left text is taken, and then the first in
the right one. -/
def longestRun (a b : List Char) : SharedRun :=
  let starts := (List.range a.length).flatMap fun i => (List.range b.length).map fun j => (i, j)
  starts.foldl (fun (best : SharedRun) (start : Nat × Nat) =>
    let length := sharedStart (a.drop start.1) (b.drop start.2)
    if best.length < length then ⟨start.1, start.2, length⟩ else best) ⟨0, 0, 0⟩

/-- How many characters lie in shared runs: the longest one and those on either side of it. -/
def sharedCount : (fuel : Nat) → List Char → List Char → Nat
  | 0, _, _ => 0
  | fuel + 1, a, b =>
    let run := longestRun a b
    if run.length = 0 then 0
    else
      run.length + sharedCount fuel (a.take run.left) (b.take run.right) +
        sharedCount fuel (a.drop (run.left + run.length)) (b.drop (run.right + run.length))

/-- Texts are alike if at least three fifths of their characters lie in shared runs. -/
def alike (s t : String) : Bool :=
  let a := s.toList
  let b := t.toList
  3 * (a.length + b.length) ≤ 5 * (2 * sharedCount (a.length + 1) a b)

def near (word : String) (names : List String) : List String :=
  (names.filter fun name => alike name word).mergeSort (· ≤ ·)

end SymbolAtlas.Text
