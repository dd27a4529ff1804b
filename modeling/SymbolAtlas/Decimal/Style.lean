import SymbolAtlas.Decimal.Shortest

/-!
Writing numbers. The format's decisions stand in one record; the digits come from the exact value.
-/

set_option autoImplicit false

namespace SymbolAtlas

open scoped Power

structure NumberStyle where
  /-- The least power of ten of a leading digit that is written without an exponent. -/
  positionalFrom : Int
  /-- The first power of ten that is written with an exponent again. -/
  positionalTo : Int
  exponentDigits : Nat
  nan : String
  infinity : String

def NumberStyle.plain : NumberStyle := ⟨-4, 16, 2, "nan", "inf"⟩

def NumberStyle.json : NumberStyle := ⟨-4, 16, 2, "NaN", "Infinity"⟩

/-- Trailing zeros moved from a coefficient into the exponent, at most `fuel` of them. -/
def Decimal.strip : Nat → Decimal → Decimal
  | 0, x => x
  | fuel + 1, x =>
    if x.coefficient ≠ 0 ∧ x.coefficient % 10 = 0 then
      Decimal.strip fuel ⟨x.coefficient / 10, x.exponent + 1⟩
    else x

def padLeft (width : Nat) (fill : Char) (cs : List Char) : List Char :=
  List.replicate (width - cs.length) fill ++ cs

def padRight (width : Nat) (fill : Char) (cs : List Char) : List Char :=
  cs ++ List.replicate (width - cs.length) fill

def natDigits (n : Nat) : List Char := Nat.toDigits 10 n

def hexDigits (width n : Nat) : List Char := padLeft width '0' (Nat.toDigits 16 n)

def intDigits (n : Int) : List Char :=
  if n < 0 then '-' :: natDigits n.natAbs else natDigits n.natAbs

/-- The digits with a point after the first `whole` of them; a point at the end is followed by a
zero. -/
def pointAfter (whole : Nat) (digits : List Char) : List Char :=
  let padded := padRight whole '0' digits
  padded.take whole ++ '.' :: (if padded.drop whole = [] then ['0'] else padded.drop whole)

namespace NumberStyle

/-- A positive decimal whose coefficient has no trailing zero. -/
def writeDecimal (style : NumberStyle) (x : Decimal) : List Char :=
  let digits := natDigits x.coefficient
  let place := (digits.length : Int) - 1 + x.exponent
  if style.positionalFrom ≤ place ∧ place < style.positionalTo then
    if 0 ≤ place then pointAfter (place.toNat + 1) digits
    else '0' :: '.' :: List.replicate ((-place).toNat - 1) '0' ++ digits
  else
    let fraction := digits.drop 1
    let sign := if place < 0 then '-' else '+'
    digits.take 1 ++ (if fraction = [] then [] else '.' :: fraction) ++
      'e' :: sign :: padLeft style.exponentDigits '0' (natDigits place.natAbs)

def write (style : NumberStyle) (x : Float) : String :=
  match Binary64.ofFloat x with
  | .nan => style.nan
  | .infinite negative => if negative then "-" ++ style.infinity else style.infinity
  | .finite negative mantissa exponent =>
    let body :=
      if mantissa = 0 then "0.0".toList
      else style.writeDecimal ((Binary64.shortest mantissa exponent).strip 400)
    String.ofList (if negative then '-' :: body else body)

def writeFixed (style : NumberStyle) (places : Nat) (x : Float) : String :=
  match Binary64.ofFloat x with
  | .nan => style.nan
  | .infinite negative => if negative then "-" ++ style.infinity else style.infinity
  | .finite negative mantissa exponent =>
    let (n, d) := scaleDown mantissa 1 2 (-exponent)
    let digits := padLeft (places + 1) '0' (natDigits (roundDiv (n * 10 ^ places) d))
    let whole := digits.length - places
    let body := digits.take whole ++ (if places = 0 then [] else '.' :: digits.drop whole)
    String.ofList (if negative then '-' :: body else body)

end NumberStyle

def writeNat (n : Nat) : String := String.ofList (natDigits n)

def writeInt (n : Int) : String := String.ofList (intDigits n)

end SymbolAtlas
