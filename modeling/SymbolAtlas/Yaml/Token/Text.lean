import SymbolAtlas.Yaml.Token.Property

/-!
Texts of scalars: quoted, plain and block texts, with their foldings.
-/

set_option autoImplicit false

namespace SymbolAtlas.Yaml

def letterEscape? : Char → Option Char
  | '0' => some '\x00'
  | 'a' => some '\x07'
  | 'b' => some '\x08'
  | 't' => some '\t'
  | '\t' => some '\t'
  | 'n' => some '\n'
  | 'v' => some '\x0b'
  | 'f' => some '\x0c'
  | 'r' => some '\r'
  | 'e' => some '\x1b'
  | ' ' => some ' '
  | '"' => some '"'
  | '\\' => some '\\'
  | '/' => some '/'
  | 'N' => some '\x85'
  | '_' => some '\xa0'
  | 'L' => some '\u2028'
  | 'P' => some '\u2029'
  | _ => none

def escapeWidth? : Char → Option Nat
  | 'x' => some 2
  | 'u' => some 4
  | 'U' => some 8
  | _ => none

def numberedChar (n : Nat) : Except Fault Char :=
  if 0x80000000 ≤ n then .error .hugeCharacter
  else if 0x110000 ≤ n then .error .badCharacter
  else if 0xD800 ≤ n ∧ n < 0xE000 then .ok '\ufffd'
  else .ok (Char.ofNat n)

def quotedBreaks : (fuel : Nat) → Reader → Except Fault (List Char × Reader)
  | 0, r => .ok ([], r)
  | fuel + 1, r =>
    if r.atDocumentMark then r.fail "found a document mark in a quoted text"
    else
      let r := r.skipWhile fun c => c = ' ' || c = '\t'
      match r.takeBreak? with
      | none => .ok ([], r)
      | some (c, r) =>
        match quotedBreaks fuel r with
        | .error e => .error e
        | .ok (cs, r) => .ok (c :: cs, r)

/-- A line end with the empty lines after it: one line end alone is a blank. -/
def fold (c : Char) (breaks : List Char) : List Char :=
  if c ≠ '\n' then c :: breaks else if breaks = [] then [' '] else breaks

def quotedSpaces (r : Reader) : Except Fault (List Char × Reader) :=
  let (blanks, r) := r.takeWhile fun c => c = ' ' || c = '\t'
  if r.peek = endMark then r.fail "unexpected end in a quoted text"
  else
    match r.takeBreak? with
    | none => .ok (blanks, r)
    | some (c, r) =>
      match quotedBreaks (r.rest.length + 1) r with
      | .error e => .error e
      | .ok (breaks, r) => .ok (fold c breaks, r)

def scanEscape (r : Reader) : Except Fault (List Char × Reader) :=
  let c := r.peek
  match letterEscape? c with
  | some c => .ok ([c], r.advance)
  | none =>
    match escapeWidth? c with
    | some width =>
      let digits := r.advance.rest.take width
      if digits.length < width ∨ !digits.all isHexDigit then r.fail "bad escape"
      else
        match numberedChar (ofDigits 16 digits) with
        | .error e => .error e
        | .ok c => .ok ([c], r.skip (width + 1))
    | none =>
      match r.takeBreak? with
      | some (_, r) => quotedBreaks (r.rest.length + 1) r
      | none => r.fail "unknown escape"

def scanQuoted (double : Bool) : (fuel : Nat) → Reader → Except Fault (List Char × Reader)
  | 0, r => r.fail "unexpected end in a quoted text"
  | fuel + 1, r =>
    let c := r.peek
    let quote := if double then '"' else '\x27'
    let part : Except Fault (Option (List Char) × Reader) :=
      if c = quote then
        if !double && r.peekAt 1 = quote then .ok (some [quote], r.skip 2)
        else .ok (none, r.advance)
      else if isGap c then (quotedSpaces r).map fun (cs, r) => (some cs, r)
      else if double && c = '\\' then (scanEscape r.advance).map fun (cs, r) => (some cs, r)
      else .ok (some [c], r.advance)
    match part with
    | .error e => .error e
    | .ok (none, r) => .ok ([], r)
    | .ok (some cs, r) =>
      match scanQuoted double fuel r with
      | .error e => .error e
      | .ok (more, r) => .ok (cs ++ more, r)

def endsPlain (flow : Bool) (c next : Char) : Bool :=
  isGap c || (c = ':' && (isGap next || (flow && ",[]\x7b\x7d".toList.contains next))) ||
    (flow && ",?[]\x7b\x7d".toList.contains c)

def plainRun (flow : Bool) : List Char → List Char
  | [] => []
  | c :: rest =>
    if endsPlain flow c (rest.head?.getD endMark) then []
    else c :: plainRun flow rest

def plainBreaks : (fuel : Nat) → Reader → Option (List Char) × Reader
  | 0, r => (some [], r)
  | fuel + 1, r =>
    if r.atDocumentMark then (none, r)
    else
      let r := r.skipSpaces
      match r.takeBreak? with
      | none => (some [], r)
      | some (c, r) =>
        match plainBreaks fuel r with
        | (none, r) => (none, r)
        | (some cs, r) => (some (c :: cs), r)

/-- What stands between two runs of a plain text, where it goes, and whether a line ended. Nothing
between them ends the text. -/
def plainSpaces (r : Reader) : List Char × Reader × Bool :=
  let (blanks, r) := r.takeWhile (· = ' ')
  match r.takeBreak? with
  | none => (blanks, r, false)
  | some (c, r) =>
    match plainBreaks (r.rest.length + 1) r with
    | (none, r) => ([], r, true)
    | (some breaks, r) => (fold c breaks, r, true)

/-- A plain text: its characters, where it ends, and whether the next line may start a key. -/
def scanPlain (flow : Bool) (indent : Int) :
    (fuel : Nat) → Reader → Bool → List Char × Reader × Bool
  | 0, r, broken => ([], r, broken)
  | fuel + 1, r, broken =>
    let run := if r.peek = '#' then [] else plainRun flow r.rest
    if run = [] then ([], r, broken)
    else
      let (spaces, after, broken) := plainSpaces (r.skip run.length)
      if spaces = [] ∨ after.peek = '#' ∨ (!flow ∧ (after.column : Int) < indent) then
        (run, after, broken)
      else
        match scanPlain flow indent fuel after broken with
        | ([], after, broken) => (run, after, broken)
        | (more, after, broken) => (run ++ spaces ++ more, after, broken)

inductive Chomping
  | clip
  | strip
  | keep
  deriving DecidableEq, Repr

def chompingOf? : Char → Option Chomping
  | '+' => some .keep
  | '-' => some .strip
  | _ => none

def scanBlockHeader (r : Reader) : Except Fault (Chomping × Option Nat × Reader) :=
  let indentOf (r : Reader) : Option Nat × Reader :=
    if r.peek.isDigit then (some (digitValue r.peek), r.advance) else (none, r)
  let chompOf (r : Reader) : Option Chomping × Reader :=
    match chompingOf? r.peek with
    | some c => (some c, r.advance)
    | none => (none, r)
  let (first, r) := chompOf r
  let (indent, r) := indentOf r
  let (second, r) := if first.isNone && indent.isSome then chompOf r else (none, r)
  if indent = some 0 then r.fail "bad indentation of a block text"
  else if !isTagEnd r.peek then r.fail "bad header of a block text"
  else .ok ((first.or second).getD .clip, indent, r)

def skipIndent (indent : Nat) (r : Reader) : Reader :=
  r.skip (min (indent - r.column) (r.rest.takeWhile (· = ' ')).length)

def blockBreaks (indent : Nat) : (fuel : Nat) → Reader → List Char × Reader
  | 0, r => ([], r)
  | fuel + 1, r =>
    let r := skipIndent indent r
    match r.takeBreak? with
    | none => ([], r)
    | some (c, r) =>
      let (cs, r) := blockBreaks indent fuel r
      (c :: cs, r)

/-- Empty lines in front of a block text, and the deepest column of its blanks. -/
def blockLead : (fuel : Nat) → Reader → Nat → List Char × Nat × Reader
  | 0, r, deepest => ([], deepest, r)
  | fuel + 1, r, deepest =>
    let r := r.skipSpaces
    let deepest := max deepest r.column
    match r.takeBreak? with
    | none => ([], deepest, r)
    | some (c, r) =>
      let (cs, deepest, r) := blockLead fuel r deepest
      (c :: cs, deepest, r)

def isSpaceOrTab (c : Char) : Bool := c = ' ' || c = '\t'

def joinLines (folded : Bool) (lineEnd : List Char) (leading next : Char) (breaks : List Char) :
    List Char :=
  if folded ∧ lineEnd = ['\n'] ∧ !isSpaceOrTab leading ∧ !isSpaceOrTab next then
    if breaks = [] then [' '] else []
  else lineEnd

/-- The lines of a block text: their characters, the last line end and the empty lines after it. -/
def blockLines (folded : Bool) (indent : Nat) :
    (fuel : Nat) → Reader → List Char → List Char × List Char × List Char × Reader
  | 0, r, breaks => ([], [], breaks, r)
  | fuel + 1, r, breaks =>
    if r.column ≠ indent ∨ r.peek = endMark then ([], [], breaks, r)
    else
      let leading := r.peek
      let (line, r) := r.takeWhile fun c => !isBreak c
      let (lineEnd, r) : List Char × Reader :=
        match r.takeBreak? with
        | some (c, r) => ([c], r)
        | none => ([], r)
      let (after, r) := blockBreaks indent (r.rest.length + 1) r
      if r.column = indent ∧ r.peek ≠ endMark then
        let (more, last, tail, r') := blockLines folded indent fuel r after
        (breaks ++ line ++ joinLines folded lineEnd leading r.peek after ++ more, last, tail, r')
      else (breaks ++ line, lineEnd, after, r)

def scanBlock (folded : Bool) (outer : Int) (r : Reader) : Except Fault (String × Reader) :=
  match scanBlockHeader r with
  | .error e => .error e
  | .ok (chomping, increment, r) =>
    match endLine r with
    | .error e => .error e
    | .ok r =>
      let least := (max 1 (outer + 1)).toNat
      let fuel := r.rest.length + 1
      let (breaks, indent, r) : List Char × Nat × Reader :=
        match increment with
        | none =>
          let (breaks, deepest, r) := blockLead fuel r 0
          (breaks, max least deepest, r)
        | some n =>
          let (breaks, r) := blockBreaks (least + n - 1) fuel r
          (breaks, least + n - 1, r)
      let (body, lineEnd, tail, r) := blockLines folded indent fuel r breaks
      let ending :=
        match chomping with
        | .strip => []
        | .clip => lineEnd
        | .keep => lineEnd ++ tail
      .ok (String.ofList (body ++ ending), r)

end SymbolAtlas.Yaml
