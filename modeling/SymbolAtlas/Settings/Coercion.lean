import SymbolAtlas.Decimal.Numeral
import SymbolAtlas.Settings.Issue
import SymbolAtlas.Text.Blank

/-!
Settings are lenient: numbers and truth values may be given as text, and one kind of number as
another where nothing is lost.
-/

set_option autoImplicit false

namespace SymbolAtlas.Coercion

/-- Single underscores inside a text are taken out. Elsewhere they are not understood. -/
def dropUnderscores? (cs : List Char) : Option (List Char) :=
  let doubled := (cs.zip (cs.drop 1)).any fun (a, b) => a = '_' && b = '_'
  if cs.head? = some '_' ∨ cs.getLast? = some '_' ∨ doubled ∨ !cs.contains '_' then none
  else some (cs.filter (· ≠ '_'))

/-- A numeral without its leading zeros. The last zero stays where no other digit follows. -/
def dropZeros? (cs : List Char) : Option (List Char) :=
  match cs with
  | [] => none
  | c :: _ =>
    if c = '0' then
      let zeros := cs.takeWhile fun c => c = '0' || c = '_'
      match cs.drop zeros.length with
      | [] => some (zeros.drop (zeros.length - 1))
      | d :: rest =>
        if d.isDigit then some (d :: rest)
        else if d = '.' then some (zeros.drop (zeros.length - 1) ++ d :: rest)
        else none
    else if c.isDigit ∨ c = '-' then some cs
    else none

/-- A whole number may end with a point and zeros. -/
def dropFraction? (cs : List Char) : Option (List Char) :=
  let whole := cs.takeWhile (· ≠ '.')
  if (cs.drop (whole.length + 1)).all (· = '0') then some whole else none

def dropPlus? : List Char → Option (List Char)
  | '+' :: '-' :: _ => none
  | '+' :: rest => some rest
  | cs => some cs

def readInteger? (cs : List Char) : Option Int :=
  let (negative, digits) := readSign cs
  if digits = [] ∨ !digits.all Char.isDigit then none
  else
    let n : Int := ofDigits 10 digits
    some (if negative then -n else n)

def integerOfText (s : String) : Except Complaint Int :=
  let cleaned := do
    let cs ← dropPlus? (Text.trim s.toList)
    let cs ← dropZeros? cs
    dropFraction? cs
  match cleaned with
  | none => .error .unreadableInteger
  | some cs =>
    if maxDigits < cs.length then .error .oversizedInteger
    else
      match readInteger? ((dropUnderscores? cs).getD cs) with
      | some n => .ok n
      | none => .error .unreadableInteger

def wordLimit : Int := 9223372036854775808

def integerOfFloat (x : Float) : Except Complaint Int :=
  let y := Binary64.ofFloat x
  match y.ratio? with
  | none => .error .notFinite
  | some _ =>
    match y.toInt? with
    | none => .error .fractionalInteger
    | some n => if wordLimit ≤ n.natAbs then .error .oversizedInteger else .ok n

def integer : Value → Except Complaint Int
  | .scalar (.int n) => .ok n
  | .scalar (.bool b) => .ok (if b then 1 else 0)
  | .scalar (.float x) => integerOfFloat x
  | .scalar (.text s) => integerOfText s
  | _ => .error .notInteger

/-- Digits with an optional point and exponent; at least one digit stands before the exponent. -/
def readUnsigned? (negative : Bool) (cs : List Char) : Option Float :=
  let whole := cs.takeWhile Char.isDigit
  let afterWhole := cs.dropWhile Char.isDigit
  let (fraction, rest) :=
    match afterWhole with
    | '.' :: rest => (rest.takeWhile Char.isDigit, rest.dropWhile Char.isDigit)
    | rest => ([], rest)
  if whole = [] ∧ fraction = [] then none
  else
    match rest with
    | [] => some (Numeral.toFloat ⟨negative, whole, fraction, 0⟩)
    | rest =>
      match readExponent? rest with
      | some (exponent, []) => some (Numeral.toFloat ⟨negative, whole, fraction, exponent⟩)
      | _ => none

def readNumber? (cs : List Char) : Option Float :=
  let (negative, rest) := readSign cs
  let word := String.ofList (rest.map Char.toLower)
  if word = "inf" ∨ word = "infinity" then some (Binary64.infinite negative).toFloat
  else if word = "nan" then some Binary64.nan.toFloat
  else readUnsigned? negative rest

def numberOfText (s : String) : Except Complaint Float :=
  match readNumber? (Text.trim s.toList) with
  | some x => .ok x
  | none =>
    match (dropUnderscores? s.toList).bind readNumber? with
    | some x => .ok x
    | none => .error .unreadableNumber

def number : Value → Except Complaint Float
  | .scalar (.float x) => .ok x
  | .scalar (.int n) =>
    match Binary64.ofInt n with
    | .infinite _ => .error .notNumber
    | x => .ok x.toFloat
  | .scalar (.bool b) => .ok (if b then 1 else 0)
  | .scalar (.text s) => numberOfText s
  | _ => .error .notNumber

def yesWords : List String := ["1", "on", "t", "true", "y", "yes"]

def noWords : List String := ["0", "off", "f", "false", "n", "no"]

def boolean : Value → Except Complaint Bool
  | .scalar (.bool b) => .ok b
  | .scalar (.int n) =>
    if n = 0 then .ok false
    else if n = 1 then .ok true
    else if n < -wordLimit ∨ wordLimit ≤ n then .error .notBoolean
    else .error .unreadableBoolean
  | .scalar (.float x) =>
    if x == 0 then .ok false else if x == 1 then .ok true else .error .notBoolean
  | .scalar (.text s) =>
    let word := String.ofList (s.toList.map Char.toLower)
    if yesWords.contains word then .ok true
    else if noWords.contains word then .ok false
    else .error .unreadableBoolean
  | _ => .error .notBoolean

def text : Value → Except Complaint String
  | .scalar (.text s) => .ok s
  | _ => .error .notText

def choice {α : Type} (choices : List α) (name : α → String) (v : Value) : Except Complaint α :=
  let found :=
    match v with
    | .scalar (.text s) => choices.find? fun a => name a == s
    | _ => none
  match found with
  | some a => .ok a
  | none => .error (.notOneOf (choices.map name))

end SymbolAtlas.Coercion
