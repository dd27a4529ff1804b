import SymbolAtlas.Yaml.Fault

/-!
A place in a YAML text. The end of the text reads as the character of code zero, which no text
holds.
-/

set_option autoImplicit false

namespace SymbolAtlas.Yaml

structure Reader where
  rest : List Char
  index : Nat
  line : Nat
  column : Nat

def endMark : Char := '\x00'

def byteOrderMark : Char := '\ufeff'

def isBreak (c : Char) : Bool :=
  c = '\n' || c = '\r' || c = '\x85' || c = '\u2028' || c = '\u2029'

def isBreakOrEnd (c : Char) : Bool := isBreak c || c = endMark

def isGap (c : Char) : Bool := c = ' ' || c = '\t' || isBreakOrEnd c

def isWord (c : Char) : Bool := c.isAlphanum || c = '-' || c = '_'

namespace Reader

def ofChars (cs : List Char) : Reader := ⟨cs, 0, 0, 0⟩

def peekAt (r : Reader) (k : Nat) : Char := (r.rest[k]?).getD endMark

def peek (r : Reader) : Char := r.peekAt 0

def advance (r : Reader) : Reader :=
  match r.rest with
  | [] => r
  | c :: rest =>
    if isBreak c && !(c = '\r' && rest.head? = some '\n') then ⟨rest, r.index + 1, r.line + 1, 0⟩
    else ⟨rest, r.index + 1, r.line, if c = byteOrderMark then r.column else r.column + 1⟩

def skip (r : Reader) : Nat → Reader
  | 0 => r
  | n + 1 => r.advance.skip n

def takeWhile (r : Reader) (p : Char → Bool) : List Char × Reader :=
  let run := r.rest.takeWhile p
  (run, r.skip run.length)

def skipWhile (r : Reader) (p : Char → Bool) : Reader := (r.takeWhile p).2

def skipSpaces (r : Reader) : Reader := r.skipWhile (· = ' ')

def skipComment (r : Reader) : Reader :=
  if r.peek = '#' then r.skipWhile fun c => !isBreak c else r

/-- A line end, as the character that stands for it. -/
def takeBreak? (r : Reader) : Option (Char × Reader) :=
  let c := r.peek
  if c = '\r' ∧ r.peekAt 1 = '\n' then some ('\n', r.skip 2)
  else if c = '\r' ∨ c = '\n' ∨ c = '\x85' then some ('\n', r.advance)
  else if isBreak c then some (c, r.advance)
  else none

def atMark (r : Reader) (mark : Char) : Bool :=
  r.peek = mark && r.peekAt 1 = mark && r.peekAt 2 = mark && isGap (r.peekAt 3)

def atDocumentMark (r : Reader) : Bool := r.atMark '-' || r.atMark '.'

def fail {α : Type} (r : Reader) (what : String) : Except Fault α :=
  .error (.malformed what r.line r.column)

end Reader

end SymbolAtlas.Yaml
