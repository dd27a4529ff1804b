import SymbolAtlas.Text.Blank
import SymbolAtlas.Value
import SymbolAtlas.Yaml.Node

/-!
What plain scalars are, and the values of scalars.
-/

set_option autoImplicit false

namespace SymbolAtlas.Yaml

def yesWords : List String := ["yes", "Yes", "YES", "true", "True", "TRUE", "on", "On", "ON"]

def noWords : List String := ["no", "No", "NO", "false", "False", "FALSE", "off", "Off", "OFF"]

def nullWords : List String := ["", "~", "null", "Null", "NULL"]

def infinityWords : List String := [".inf", ".Inf", ".INF"]

def nanWords : List String := [".nan", ".NaN", ".NAN"]

def isDigitOrLine (c : Char) : Bool := c.isDigit || c = '_'

/-- One or more groups of a colon and a number below sixty, and what follows them. -/
def dropSixties : List Char → Option (List Char)
  | ':' :: a :: b :: rest =>
    if a.isDigit ∧ a < '6' ∧ b.isDigit then some ((dropSixties rest).getD rest)
    else if a.isDigit then some ((dropSixties (b :: rest)).getD (b :: rest))
    else none
  | [':', a] => if a.isDigit then some [] else none
  | _ => none

def dropSign : List Char → List Char
  | '-' :: rest => rest
  | '+' :: rest => rest
  | cs => cs

def isUnsignedInt : List Char → Bool
  | [] => false
  | '0' :: rest =>
    match rest with
    | [] => true
    | 'b' :: digits => digits ≠ [] && digits.all fun c => c = '0' || c = '1' || c = '_'
    | 'x' :: digits => digits ≠ [] && digits.all fun c => isHexDigit c || c = '_'
    | digits => digits.all fun c => ('0' ≤ c && c ≤ '7') || c = '_'
  | c :: rest =>
    c.isDigit &&
      (let after := rest.dropWhile isDigitOrLine
       after = [] || dropSixties after = some [])

/-- An exponent needs its sign, and may be missing. -/
def isExponent : List Char → Bool
  | [] => true
  | e :: sign :: digits =>
    (e = 'e' || e = 'E') && (sign = '-' || sign = '+') && digits ≠ [] && digits.all Char.isDigit
  | _ => false

def isPointed : List Char → Bool
  | '.' :: rest => isExponent (rest.dropWhile isDigitOrLine)
  | _ => false

def isUnsignedFloat : List Char → Bool
  | [] => false
  | c :: rest =>
    c.isDigit &&
      (let after := rest.dropWhile isDigitOrLine
       isPointed after ||
         (match dropSixties after with
          | some ('.' :: rest) => rest.all isDigitOrLine
          | _ => false))

def isFraction : List Char → Bool
  | '.' :: c :: rest => c.isDigit && isExponent (rest.dropWhile isDigitOrLine)
  | _ => false

def resolve (s : String) : Tag :=
  let cs := s.toList
  let unsigned := dropSign cs
  if yesWords.contains s || noWords.contains s then .bool
  else if isUnsignedFloat unsigned || isFraction cs ||
      infinityWords.contains (String.ofList unsigned) || nanWords.contains s then .float
  else if isUnsignedInt unsigned then .int
  else if s = "<<" then .merge
  else if nullWords.contains s then .null
  else if s = "=" then .value
  else .text

def readDigits (base : Nat) (cs : List Char) : Except Fault Int :=
  let (negative, digits) := readSign (Text.trim cs)
  if digits = [] ∨ !digits.all fun c => isHexDigit c && digitValue c < base then
    .error (.badInteger base (String.ofList cs))
  else if base = 10 ∧ maxDigits < digits.length then .error (.longInteger digits.length)
  else
    let n : Int := ofDigits base digits
    .ok (if negative then -n else n)

def splitColons : List Char → List (List Char)
  | [] => [[]]
  | c :: rest =>
    if c = ':' then [] :: splitColons rest
    else
      match splitColons rest with
      | [] => [[c]]
      | part :: parts => (c :: part) :: parts

def ofSixties (parts : List Int) : Int := parts.foldl (fun n part => n * 60 + part) 0

def readUnsignedInt (cs : List Char) : Except Fault Int :=
  match cs with
  | [] => .error .emptyNumber
  | '0' :: [] => .ok 0
  | '0' :: 'b' :: digits => readDigits 2 digits
  | '0' :: 'x' :: digits => readDigits 16 digits
  | '0' :: digits => readDigits 8 ('0' :: digits)
  | cs =>
    if cs.contains ':' then
      match (splitColons cs).mapM (readDigits 10) with
      | .error e => .error e
      | .ok parts => .ok (ofSixties parts)
    else readDigits 10 cs

/-- The whole number of a scalar. Underscores divide digits at will. -/
def readInt (s : String) : Except Fault Int :=
  let cs := s.toList.filter (· ≠ '_')
  if cs = [] then .error .emptyNumber
  else
    match readUnsignedInt (dropSign cs) with
    | .error e => .error e
    | .ok n => .ok (if cs.head? = some '-' then -n else n)

def floatWords : List (String × Binary64) :=
  [("inf", .infinite false), ("infinity", .infinite false), ("nan", .nan)]

def readPlainFloat (cs : List Char) : Except Fault Float :=
  let (negative, unsigned) := readSign (Text.trim cs)
  let whole := unsigned.takeWhile Char.isDigit
  let after := unsigned.dropWhile Char.isDigit
  let (fraction, rest) :=
    match after with
    | '.' :: rest => (rest.takeWhile Char.isDigit, rest.dropWhile Char.isDigit)
    | rest => ([], rest)
  match floatWords.lookup (String.ofList unsigned), whole ++ fraction, rest with
  | some x, _, _ => .ok (if negative then x.negate else x).toFloat
  | none, _ :: _, [] => .ok (Numeral.toFloat ⟨negative, whole, fraction, 0⟩)
  | none, _ :: _, rest =>
    match readExponent? rest with
    | some (exponent, []) => .ok (Numeral.toFloat ⟨negative, whole, fraction, exponent⟩)
    | _ => .error (.badNumber (String.ofList cs))
  | none, [], _ => .error (.badNumber (String.ofList cs))

/-- A number to the base sixty, the least part first. -/
def ofSixtyFloats (parts : List Float) : Float :=
  (parts.foldl (fun (acc : Float × Float) part => (acc.1 + part * acc.2, acc.2 * 60)) (0, 1)).1

def readFloat (s : String) : Except Fault Float :=
  let cs := (s.toList.filter (· ≠ '_')).map Char.toLower
  let negative := cs.head? = some '-'
  let unsigned := dropSign cs
  let signed (x : Float) : Float := if negative then -x else x
  if cs = [] then .error .emptyNumber
  else if unsigned = ".inf".toList then .ok (Binary64.infinite negative).toFloat
  else if unsigned = ".nan".toList then .ok Binary64.nan.toFloat
  else if unsigned.contains ':' then
    match (splitColons unsigned).mapM readPlainFloat with
    | .error e => .error e
    | .ok parts => .ok (signed (ofSixtyFloats parts.reverse))
  else
    match readPlainFloat unsigned with
    | .error e => .error e
    | .ok x => .ok (signed x)

def readBool (s : String) : Except Fault Bool :=
  let word := String.ofList (s.toList.map Char.toLower)
  if yesWords.contains word then .ok true
  else if noWords.contains word then .ok false
  else .error (.badBoolean word)

end SymbolAtlas.Yaml
