import SymbolAtlas.Value
import SymbolAtlas.Decimal.Numeral

/-!
Values from JSON text. Members keep their order and a repeated key its first place; a number with
a point or an exponent is a double, any other a whole number. `NaN` and the infinities are numbers.
-/

set_option autoImplicit false

namespace SymbolAtlas.Json

def isBlank (c : Char) : Bool := c = ' ' || c = '\t' || c = '\n' || c = '\r'

def skip (cs : List Char) : List Char := cs.dropWhile isBlank

def letterEscape? : Char → Option Char
  | '"' => some '"'
  | '\\' => some '\\'
  | '/' => some '/'
  | 'b' => some '\x08'
  | 'f' => some '\x0c'
  | 'n' => some '\n'
  | 'r' => some '\r'
  | 't' => some '\t'
  | _ => none

def readCodes : List Char → Option (List Nat × List Char)
  | [] => none
  | '"' :: rest => some ([], rest)
  | '\\' :: 'u' :: a :: b :: c :: d :: rest =>
    if [a, b, c, d].all isHexDigit then
      (readCodes rest).map fun (codes, rest) => (ofDigits 16 [a, b, c, d] :: codes, rest)
    else none
  | '\\' :: c :: rest =>
    match letterEscape? c with
    | some c => (readCodes rest).map fun (codes, rest) => (c.toNat :: codes, rest)
    | none => none
  | c :: rest =>
    if c.toNat < 0x20 ∨ c = '\\' then none
    else (readCodes rest).map fun (codes, rest) => (c.toNat :: codes, rest)

def isHigh (n : Nat) : Bool := 0xD800 ≤ n && n < 0xDC00

def isLow (n : Nat) : Bool := 0xDC00 ≤ n && n < 0xE000

def codeChar (n : Nat) : Char := if isHigh n || isLow n then '\ufffd' else Char.ofNat n

/-- A pair of surrogates is one character. A surrogate alone is none, so that no text can hold it,
and is replaced. -/
def joinPairs : List Nat → List Char
  | [] => []
  | [n] => [codeChar n]
  | high :: low :: rest =>
    if isHigh high ∧ isLow low then
      Char.ofNat (0x10000 + (high - 0xD800) * 0x400 + (low - 0xDC00)) :: joinPairs rest
    else codeChar high :: joinPairs (low :: rest)

def readText (cs : List Char) : Option (String × List Char) :=
  (readCodes cs).map fun (codes, rest) => (String.ofList (joinPairs codes), rest)

/-- The digits of the whole part: a zero stands alone. -/
def readWhole : List Char → Option (List Char × List Char)
  | '0' :: rest => some (['0'], rest)
  | cs =>
    let digits := cs.takeWhile Char.isDigit
    if digits = [] then none else some (digits, cs.dropWhile Char.isDigit)

def readFraction (cs : List Char) : List Char × List Char :=
  match cs with
  | '.' :: rest =>
    let digits := rest.takeWhile Char.isDigit
    if digits = [] then ([], cs) else (digits, rest.dropWhile Char.isDigit)
  | _ => ([], cs)

def readMagnitude (negative : Bool) (cs : List Char) : Option (Value × List Char) :=
  match readWhole cs with
  | none => none
  | some (whole, rest) =>
    let (fraction, rest) := readFraction rest
    match readExponent? rest with
    | some (exponent, rest) =>
      some (.float (Numeral.toFloat ⟨negative, whole, fraction, exponent⟩), rest)
    | none =>
      if fraction ≠ [] then some (.float (Numeral.toFloat ⟨negative, whole, fraction, 0⟩), rest)
      else if maxDigits < whole.length then none
      else
        let n : Int := ofDigits 10 whole
        some (.int (if negative then -n else n), rest)

def stripWord (word : String) (cs : List Char) : Option (List Char) :=
  if word.toList.isPrefixOf cs then some (cs.drop word.length) else none

def words : List (String × Value) :=
  [("null", .null), ("true", .bool true), ("false", .bool false),
   ("NaN", .float Binary64.nan.toFloat),
   ("Infinity", .float (Binary64.infinite false).toFloat),
   ("-Infinity", .float (Binary64.infinite true).toFloat)]

def readAtom (cs : List Char) : Option (Value × List Char) :=
  match words.findSome? fun (word, v) => (stripWord word cs).map fun rest => (v, rest) with
  | some found => some found
  | none =>
    match cs with
    | '-' :: rest => readMagnitude true rest
    | _ => readMagnitude false cs

mutual

def readValue : (fuel : Nat) → List Char → Option (Value × List Char)
  | 0, _ => none
  | fuel + 1, cs =>
    match cs with
    | '"' :: rest => (readText rest).map fun (s, rest) => (.text s, rest)
    | '[' :: rest =>
      match skip rest with
      | ']' :: rest => some (.list [], rest)
      | rest => (readItems fuel rest).map fun (items, rest) => (.list items, rest)
    | '\x7b' :: rest =>
      match skip rest with
      | '\x7d' :: rest => some (.map [], rest)
      | rest => (readRows fuel rest).map fun (rows, rest) => (.map (Rows.ofList rows), rest)
    | cs => readAtom cs

def readItems : (fuel : Nat) → List Char → Option (List Value × List Char)
  | 0, _ => none
  | fuel + 1, cs =>
    match readValue fuel cs with
    | none => none
    | some (v, rest) =>
      match skip rest with
      | ']' :: rest => some ([v], rest)
      | ',' :: rest => (readItems fuel (skip rest)).map fun (items, rest) => (v :: items, rest)
      | _ => none

def readRows : (fuel : Nat) → List Char → Option (List (Scalar × Value) × List Char)
  | 0, _ => none
  | fuel + 1, cs =>
    match cs with
    | '"' :: rest =>
      match readText rest with
      | none => none
      | some (key, rest) =>
        match skip rest with
        | ':' :: rest =>
          match readValue fuel (skip rest) with
          | none => none
          | some (v, rest) =>
            match skip rest with
            | '\x7d' :: rest => some ([(.text key, v)], rest)
            | ',' :: rest =>
              (readRows fuel (skip rest)).map fun (rows, rest) => ((.text key, v) :: rows, rest)
            | _ => none
        | _ => none
    | _ => none

end

/-- The value of a whole text. Every call of the readers takes at least one character or a level,
so the length bounds them. -/
def read (s : String) : Option Value :=
  let cs := s.toList
  match readValue (2 * cs.length + 2) (skip cs) with
  | some (v, rest) => if skip rest = [] then some v else none
  | none => none

end SymbolAtlas.Json
