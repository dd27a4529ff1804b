import SymbolAtlas.Decimal.Significant

/-!
Reading numbers from digits.
-/

set_option autoImplicit false

namespace SymbolAtlas

def digitValue (c : Char) : Nat :=
  if c.isDigit then c.toNat - '0'.toNat
  else if 'a' ≤ c ∧ c ≤ 'f' then c.toNat - 'a'.toNat + 10
  else if 'A' ≤ c ∧ c ≤ 'F' then c.toNat - 'A'.toNat + 10
  else 0

def isHexDigit (c : Char) : Bool :=
  c.isDigit || ('a' ≤ c && c ≤ 'f') || ('A' ≤ c && c ≤ 'F')

def ofDigits (base : Nat) (cs : List Char) : Nat :=
  cs.foldl (fun n c => n * base + digitValue c) 0

structure Numeral where
  negative : Bool
  whole : List Char
  fraction : List Char
  exponent : Int

namespace Numeral

def decimal (x : Numeral) : Decimal :=
  ⟨ofDigits 10 (x.whole ++ x.fraction), x.exponent - x.fraction.length⟩

def toFloat (x : Numeral) : Float :=
  let y := x.decimal.toBinary64
  (if x.negative then y.negate else y).toFloat

end Numeral

def readSign : List Char → Bool × List Char
  | '-' :: rest => (true, rest)
  | '+' :: rest => (false, rest)
  | cs => (false, cs)

def readExponent? : List Char → Option (Int × List Char)
  | c :: rest =>
    if c = 'e' ∨ c = 'E' then
      let (negative, rest) := readSign rest
      let digits := rest.takeWhile Char.isDigit
      if digits = [] then none
      else
        let n : Int := ofDigits 10 digits
        some (if negative then -n else n, rest.dropWhile Char.isDigit)
    else none
  | [] => none

/-- How many digits a whole number may be read from. -/
def maxDigits : Nat := 4300

end SymbolAtlas
