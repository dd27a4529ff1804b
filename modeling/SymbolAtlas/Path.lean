/-!
Paths as text and as an anchor with segments. Empty segments and `.` say nothing and are dropped;
`..` is kept, since what it means depends on the files.
-/

set_option autoImplicit false

namespace SymbolAtlas

/-- Where a path starts. Exactly two leading slashes are an anchor of their own. -/
inductive Anchor
  | relative
  | root
  | doubleRoot
  deriving DecidableEq, Repr

structure Path where
  anchor : Anchor
  segments : List String
  deriving DecidableEq, Repr

namespace Path

def split : List Char → List (List Char)
  | [] => [[]]
  | c :: rest =>
    if c = '/' then [] :: split rest
    else
      match split rest with
      | [] => [[c]]
      | piece :: pieces => (c :: piece) :: pieces

def join : List (List Char) → List Char
  | [] => []
  | [piece] => piece
  | piece :: rest => piece ++ '/' :: join rest

def isIdle (segment : List Char) : Bool := segment = [] || segment = ['.']

def anchorOf : List Char → Anchor
  | '/' :: '/' :: '/' :: _ => .root
  | '/' :: '/' :: _ => .doubleRoot
  | '/' :: _ => .root
  | _ => .relative

def Anchor.text : Anchor → List Char
  | .relative => []
  | .root => ['/']
  | .doubleRoot => ['/', '/']

def ofText (s : String) : Path where
  anchor := anchorOf s.toList
  segments := ((split s.toList).filter fun piece => !isIdle piece).map String.ofList

/-- The text of a path. The empty relative path is written `.`. -/
def text (p : Path) : String :=
  let written := Anchor.text p.anchor ++ join (p.segments.map String.toList)
  if written = [] then "." else String.ofList written

def isAbsolute (p : Path) : Bool := p.anchor ≠ .relative

/-- A path below another; an absolute path stands for itself. -/
def below (base p : Path) : Path :=
  if p.isAbsolute then p else ⟨base.anchor, base.segments ++ p.segments⟩

def parent (p : Path) : Path := ⟨p.anchor, p.segments.dropLast⟩

/-- The part of a name from its last point on, if the point is neither first nor last. -/
def nameSuffix (name : List Char) : List Char :=
  let tail := (name.reverse.takeWhile (· ≠ '.')).reverse
  let before := name.length - tail.length
  if tail = [] ∨ before ≤ 1 then [] else '.' :: tail

def slashed (cs : List Char) : List Char := cs.map fun c => if c = '\\' then '/' else c

def suffix (s : String) : String :=
  match ((split (slashed s.toList)).filter fun piece => !isIdle piece).getLast? with
  | some name => String.ofList (nameSuffix name)
  | none => ""

end Path

end SymbolAtlas
