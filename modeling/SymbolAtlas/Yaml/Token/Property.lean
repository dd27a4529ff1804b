import SymbolAtlas.Decimal.Numeral
import SymbolAtlas.Text.Utf8
import SymbolAtlas.Yaml.Token

/-!
Tokens around nodes: anchors, aliases, tags and directives.
-/

set_option autoImplicit false

namespace SymbolAtlas.Yaml

def endsAnchor (c : Char) : Bool := isGap c || "?:,]\x7d%@`".toList.contains c

def scanName (r : Reader) : Except Fault (String × Reader) :=
  let (name, after) := r.advance.takeWhile isWord
  if name = [] ∨ !endsAnchor after.peek then after.fail "bad anchor name"
  else .ok (String.ofList name, after)

def isUriChar (c : Char) : Bool :=
  c.isAlphanum || "-;/?:@&=+$,_.!~*'()[]".toList.contains c

def scanEscapes : (fuel : Nat) → Reader → Except Fault (List UInt8 × Reader)
  | 0, r => .ok ([], r)
  | fuel + 1, r =>
    if r.peek ≠ '%' then .ok ([], r)
    else
      let digits := [r.peekAt 1, r.peekAt 2]
      if !digits.all isHexDigit then r.fail "bad escape in a tag"
      else
        match scanEscapes fuel (r.skip 3) with
        | .error e => .error e
        | .ok (octets, r) => .ok (UInt8.ofNat (ofDigits 16 digits) :: octets, r)

def scanUriParts : (fuel : Nat) → Reader → Except Fault (List Char × Reader)
  | 0, r => .ok ([], r)
  | fuel + 1, r =>
    if isUriChar r.peek then
      match scanUriParts fuel r.advance with
      | .error e => .error e
      | .ok (cs, after) => .ok (r.peek :: cs, after)
    else if r.peek = '%' then
      match scanEscapes r.rest.length r with
      | .error e => .error e
      | .ok (octets, after) =>
        match Utf8.decode octets with
        | .error _ => r.fail "bad escape in a tag"
        | .ok chars =>
          match scanUriParts fuel after with
          | .error e => .error e
          | .ok (cs, after) => .ok (chars ++ cs, after)
    else .ok ([], r)

def scanUri (r : Reader) : Except Fault (String × Reader) :=
  match scanUriParts (r.rest.length + 1) r with
  | .error e => .error e
  | .ok ([], after) => after.fail "expected a tag"
  | .ok (cs, after) => .ok (String.ofList cs, after)

/-- A handle: a sign, or a word between two signs. -/
def scanHandle (r : Reader) : Except Fault (String × Reader) :=
  if r.peek ≠ '!' then r.fail "expected a tag handle"
  else if r.peekAt 1 = ' ' then .ok ("!", r.advance)
  else
    let (word, after) := r.advance.takeWhile isWord
    if after.peek ≠ '!' then after.fail "expected the end of a tag handle"
    else .ok (String.ofList ('!' :: word ++ ['!']), after.advance)

def isTagEnd (c : Char) : Bool := c = ' ' || isBreakOrEnd c

/-- Whether a second sign follows in a tag, which then begins with a handle. -/
def hasHandle (r : Reader) : Bool :=
  (r.advance.rest.takeWhile fun c => !isTagEnd c).contains '!'

def scanTagBody (r : Reader) : Except Fault (Option String × String × Reader) :=
  if r.peekAt 1 = '<' then
    match scanUri (r.skip 2) with
    | .error e => .error e
    | .ok (suffix, after) =>
      if after.peek = '>' then .ok (none, suffix, after.advance) else after.fail "expected '>'"
  else if isGap (r.peekAt 1) then .ok (none, "!", r.advance)
  else
    let handle := if hasHandle r then scanHandle r else .ok ("!", r.advance)
    match handle with
    | .error e => .error e
    | .ok (handle, after) =>
      match scanUri after with
      | .error e => .error e
      | .ok (suffix, after) => .ok (some handle, suffix, after)

def scanTag (r : Reader) : Except Fault (Token × Reader) :=
  match scanTagBody r with
  | .error e => .error e
  | .ok (handle, suffix, after) =>
    if isTagEnd after.peek then .ok (.tag handle suffix, after)
    else after.fail "expected a blank after a tag"

def scanNumber (r : Reader) : Except Fault (Nat × Reader) :=
  let (digits, after) := r.takeWhile Char.isDigit
  if digits = [] then r.fail "expected a digit" else .ok (ofDigits 10 digits, after)

def scanVersion (r : Reader) : Except Fault (Directive × Reader) :=
  match scanNumber r.skipSpaces with
  | .error e => .error e
  | .ok (major, after) =>
    if after.peek ≠ '.' then after.fail "expected '.'"
    else
      match scanNumber after.advance with
      | .error e => .error e
      | .ok (_, after) =>
        if isTagEnd after.peek then .ok (.yaml major, after)
        else after.fail "expected a digit or a blank"

def scanTagDirective (r : Reader) : Except Fault (Directive × Reader) :=
  match scanHandle r.skipSpaces with
  | .error e => .error e
  | .ok (handle, after) =>
    if after.peek ≠ ' ' then after.fail "expected a blank"
    else
      match scanUri after.skipSpaces with
      | .error e => .error e
      | .ok (stem, after) =>
        if isTagEnd after.peek then .ok (.tag handle stem, after)
        else after.fail "expected a blank"

def scanDirectiveBody (r : Reader) : Except Fault (Directive × Reader) :=
  let (name, after) := r.advance.takeWhile isWord
  if name = [] ∨ !isTagEnd after.peek then after.fail "bad directive name"
  else if name = "YAML".toList then scanVersion after
  else if name = "TAG".toList then scanTagDirective after
  else .ok (.other, after.skipWhile fun c => !isBreak c)

def endLine (r : Reader) : Except Fault Reader :=
  let r := r.skipSpaces.skipComment
  match r.takeBreak? with
  | some (_, after) => .ok after
  | none => if r.peek = endMark then .ok r else r.fail "expected a comment or a line end"

def scanDirective (r : Reader) : Except Fault (Token × Reader) :=
  match scanDirectiveBody r with
  | .error e => .error e
  | .ok (d, after) =>
    match endLine after with
    | .error e => .error e
    | .ok after => .ok (.directive d, after)

end SymbolAtlas.Yaml
