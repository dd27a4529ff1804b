import SymbolAtlas.Yaml.Token.Text

/-!
The tokens of a whole text. A mapping key without a sign of its own is known only by the colon
after it: its place is kept in mind, and the key token is put there when the colon comes. Such a
key stands on one line and is not too long.
-/

set_option autoImplicit false

namespace SymbolAtlas.Yaml

/-- A place where a key may have begun. -/
structure KeyPlace where
  position : Nat
  /-- Whether nothing but a key can stand there. -/
  required : Bool
  index : Nat
  line : Nat
  column : Nat

def maxKeyLength : Nat := 1024

structure Stream where
  reader : Reader
  tokens : List Token
  /-- The column of the innermost block, and of the blocks around it. -/
  indent : Int
  indents : List Int
  flow : Nat
  keyAllowed : Bool
  /-- Where keys may have begun, by the number of open brackets. -/
  keys : List (Nat × KeyPlace)

namespace Stream

def ofChars (cs : List Char) : Stream := ⟨.ofChars cs, [], -1, [], 0, true, []⟩

def inFlow (s : Stream) : Bool := s.flow ≠ 0

def push (s : Stream) (t : Token) : Stream := { s with tokens := s.tokens ++ [t] }

def insertAt (s : Stream) (position : Nat) (t : Token) : Stream :=
  { s with tokens := s.tokens.take position ++ t :: s.tokens.drop position }

def fail {α : Type} (s : Stream) (what : String) : Except Fault α := s.reader.fail what

def unwind (s : Stream) (column : Int) : Stream :=
  if s.inFlow then s
  else
    let rec close : List Int → Int → List Token → List Int × Int × List Token
      | [], indent, closed => ([], indent, closed)
      | outer :: rest, indent, closed =>
        if column < indent then close rest outer (.blockEnd :: closed)
        else (outer :: rest, indent, closed)
    let (indents, indent, closed) := close s.indents s.indent []
    { s with indents := indents, indent := indent, tokens := s.tokens ++ closed }

def indentTo (s : Stream) (column : Nat) : Option Stream :=
  if s.indent < column then
    some { s with indents := s.indent :: s.indents, indent := column }
  else none

def dropKey (s : Stream) : Except Fault Stream :=
  match s.keys.lookup s.flow with
  | some key =>
    if key.required then s.fail "expected ':' after a key"
    else .ok { s with keys := s.keys.filter fun row => row.1 ≠ s.flow }
  | none => .ok s

def isStale (s : Stream) (key : KeyPlace) : Bool :=
  key.line ≠ s.reader.line || maxKeyLength < s.reader.index - key.index

/-- Give up keys that began on another line or too far back. -/
def dropStaleKeys (s : Stream) : Except Fault Stream :=
  if s.keys.any fun row => s.isStale row.2 && row.2.required then
    s.fail "expected ':' after a key"
  else .ok { s with keys := s.keys.filter fun row => !s.isStale row.2 }

def saveKey (s : Stream) : Except Fault Stream :=
  if !s.keyAllowed then .ok s
  else
    match s.dropKey with
    | .error e => .error e
    | .ok s =>
      let r := s.reader
      let required := !s.inFlow && s.indent = (r.column : Int)
      .ok { s with
        keys := (s.flow, ⟨s.tokens.length, required, r.index, r.line, r.column⟩) :: s.keys }

def skipToToken : (fuel : Nat) → Stream → Stream
  | 0, s => s
  | fuel + 1, s =>
    let r := s.reader.skipSpaces.skipComment
    match r.takeBreak? with
    | none => { s with reader := r }
    | some (_, r) =>
      skipToToken fuel { s with reader := r, keyAllowed := s.keyAllowed || !s.inFlow }

def documentToken (s : Stream) (t : Token) : Except Fault Stream :=
  let s := s.unwind (-1)
  match s.dropKey with
  | .error e => .error e
  | .ok s => .ok ({ s with keyAllowed := false, reader := s.reader.skip 3 }.push t)

def directiveToken (s : Stream) : Except Fault Stream :=
  let s := s.unwind (-1)
  match s.dropKey with
  | .error e => .error e
  | .ok s =>
    match scanDirective s.reader with
    | .error e => .error e
    | .ok (t, r) => .ok ({ s with keyAllowed := false, reader := r }.push t)

def openBracket (s : Stream) (t : Token) : Except Fault Stream :=
  match s.saveKey with
  | .error e => .error e
  | .ok s =>
    .ok ({ s with flow := s.flow + 1, keyAllowed := true, reader := s.reader.advance }.push t)

def closeBracket (s : Stream) (t : Token) : Except Fault Stream :=
  if !s.inFlow then s.fail "unexpected closing bracket"
  else
    match s.dropKey with
    | .error e => .error e
    | .ok s =>
      .ok ({ s with flow := s.flow - 1, keyAllowed := false, reader := s.reader.advance }.push t)

def comma (s : Stream) : Except Fault Stream :=
  match s.dropKey with
  | .error e => .error e
  | .ok s => .ok ({ s with keyAllowed := true, reader := s.reader.advance }.push .flowEntry)

def blockSign (s : Stream) (start sign : Token) (keyAllowed : Bool) : Except Fault Stream :=
  let opened : Except Fault Stream :=
    if s.inFlow then .ok s
    else if !s.keyAllowed then s.fail "a block may not begin here"
    else
      match s.indentTo s.reader.column with
      | some s => .ok (s.push start)
      | none => .ok s
  match opened with
  | .error e => .error e
  | .ok s =>
    match s.dropKey with
    | .error e => .error e
    | .ok s => .ok ({ s with keyAllowed := keyAllowed, reader := s.reader.advance }.push sign)

/-- A colon: it turns what stands before it into a key, or ends a key with a sign of its own. -/
def colon (s : Stream) : Except Fault Stream :=
  match s.keys.lookup s.flow with
  | some key =>
    let s := { s with keys := s.keys.filter fun row => row.1 ≠ s.flow }
    let s := s.insertAt key.position .key
    let s :=
      if s.inFlow then s
      else
        match s.indentTo key.column with
        | some s => s.insertAt key.position .blockMappingStart
        | none => s
    .ok ({ s with keyAllowed := false, reader := s.reader.advance }.push .value)
  | none => s.blockSign .blockMappingStart .value (!s.inFlow)

def keyed (s : Stream) (scan : Reader → Except Fault (Token × Reader)) : Except Fault Stream :=
  match s.saveKey with
  | .error e => .error e
  | .ok s =>
    match scan s.reader with
    | .error e => .error e
    | .ok (t, r) => .ok ({ s with keyAllowed := false, reader := r }.push t)

def quotedToken (double : Bool) (r : Reader) : Except Fault (Token × Reader) :=
  (scanQuoted double (r.rest.length + 1) r.advance).map fun (cs, r) =>
    (.scalar false (String.ofList cs), r)

def plainToken (s : Stream) : Except Fault Stream :=
  match s.saveKey with
  | .error e => .error e
  | .ok s =>
    let (cs, r, broken) :=
      scanPlain s.inFlow (s.indent + 1) (s.reader.rest.length + 1) s.reader false
    .ok ({ s with keyAllowed := broken, reader := r }.push (.scalar true (String.ofList cs)))

def blockToken (s : Stream) (folded : Bool) : Except Fault Stream :=
  match s.dropKey with
  | .error e => .error e
  | .ok s =>
    match scanBlock folded s.indent s.reader.advance with
    | .error e => .error e
    | .ok (text, r) => .ok ({ s with keyAllowed := true, reader := r }.push (.scalar false text))

def indicators : List Char := "-?:,[]\x7b\x7d#&*!|>'\"%@`".toList

def startsPlain (flow : Bool) (c next : Char) : Bool :=
  (!isGap c && !indicators.contains c) ||
    (!isGap next && (c = '-' || (!flow && (c = '?' || c = ':'))))

def next (s : Stream) : Except Fault Stream :=
  let r := s.reader
  let c := r.peek
  let spaced := isGap (r.peekAt 1)
  if r.column = 0 ∧ c = '%' then s.directiveToken
  else if r.column = 0 ∧ r.atMark '-' then s.documentToken .documentStart
  else if r.column = 0 ∧ r.atMark '.' then s.documentToken .documentEnd
  else if c = '[' then s.openBracket .flowSequenceStart
  else if c = '\x7b' then s.openBracket .flowMappingStart
  else if c = ']' then s.closeBracket .flowSequenceEnd
  else if c = '\x7d' then s.closeBracket .flowMappingEnd
  else if c = ',' then s.comma
  else if c = '-' ∧ spaced then s.blockSign .blockSequenceStart .blockEntry true
  else if c = '?' ∧ (s.inFlow ∨ spaced) then s.blockSign .blockMappingStart .key (!s.inFlow)
  else if c = ':' ∧ (s.inFlow ∨ spaced) then s.colon
  else if c = '*' then s.keyed fun r => (scanName r).map fun (name, r) => (.alias name, r)
  else if c = '&' then s.keyed fun r => (scanName r).map fun (name, r) => (.anchor name, r)
  else if c = '!' then s.keyed scanTag
  else if c = '|' ∧ !s.inFlow then s.blockToken false
  else if c = '>' ∧ !s.inFlow then s.blockToken true
  else if c = '\x27' then s.keyed (quotedToken false)
  else if c = '"' then s.keyed (quotedToken true)
  else if startsPlain s.inFlow c (r.peekAt 1) then s.plainToken
  else s.fail "found a character that cannot start any token"

/-- All tokens. Every round takes at least one character, or ends. -/
def run : (fuel : Nat) → Stream → Except Fault (List Token)
  | 0, s => .ok s.tokens
  | fuel + 1, s =>
    match (skipToToken (s.reader.rest.length + 1) s).dropStaleKeys with
    | .error e => .error e
    | .ok s =>
      let s := s.unwind s.reader.column
      if s.reader.rest = [] then
        match (s.unwind (-1)).dropKey with
        | .error e => .error e
        | .ok s => .ok s.tokens
      else
        match s.next with
        | .error e => .error e
        | .ok s => run fuel s

end Stream

def isAllowed (c : Char) : Bool :=
  let n := c.toNat
  n == 0x09 || n == 0x0A || n == 0x0D || (0x20 ≤ n && n ≤ 0x7E) || n == 0x85 ||
    (0xA0 ≤ n && n ≤ 0xFFFD) || 0x10000 ≤ n

def tokens (cs : List Char) : Except Fault (List Token) :=
  if !cs.all isAllowed then .error (.malformed "special characters are not allowed" 0 0)
  else
    let s := Stream.ofChars cs
    let s := if s.reader.peek = byteOrderMark then { s with reader := s.reader.advance } else s
    s.run (cs.length + 1)

end SymbolAtlas.Yaml
