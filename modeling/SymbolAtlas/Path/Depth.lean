import SymbolAtlas.Path

/-!
How deep a path lies. The path is first normalised as text: `..` takes back the segment before it
where there is one.
-/

set_option autoImplicit false

namespace SymbolAtlas.Path

def isUp (segment : List Char) : Bool := segment = ['.', '.']

/-- One more segment on a stack whose head is the last segment. A step up at the start of a
relative path is kept, at an absolute root it vanishes. -/
def push (absolute : Bool) (stack : List (List Char)) (segment : List Char) : List (List Char) :=
  if isIdle segment then stack
  else if !isUp segment then segment :: stack
  else
    match stack with
    | [] => if absolute then [] else [segment]
    | last :: rest => if isUp last then segment :: last :: rest else rest

def collapse (absolute : Bool) (segments : List (List Char)) : List (List Char) :=
  (segments.foldl (push absolute) []).reverse

def normalize (cs : List Char) : List Char :=
  let anchor := anchorOf cs
  let written := Anchor.text anchor ++ join (collapse (anchor ≠ .relative) (split cs))
  if written = [] then ['.'] else written

def depth (s : String) : Nat :=
  let normal := (normalize (slashed s.toList)).dropWhile (· = '/')
  ((split normal).filter fun segment => !isIdle segment).length

end SymbolAtlas.Path
