import SymbolAtlas.Decimal.Binary64

/-!
Decimal numbers as a whole coefficient and a power of ten, and rounding to a number of significant
digits. Rounding is done on the exact value; a tie goes to the even coefficient.
-/

set_option autoImplicit false

namespace SymbolAtlas

open scoped Power

/-- The number `coefficient * 10 ^ exponent`. -/
structure Decimal where
  coefficient : Nat
  exponent : Int
  deriving DecidableEq, Repr

namespace Decimal

def ratio (x : Decimal) : Nat × Nat :=
  if 0 ≤ x.exponent then (x.coefficient * 10 ^ x.exponent.toNat, 1)
  else (x.coefficient, 10 ^ (-x.exponent).toNat)

/-- The power of ten beyond which every decimal is infinite as a double, or zero. -/
def farPlace : Int := 400

/-- The double nearest to a decimal. Far exponents are settled without writing out the power. -/
def toBinary64 (x : Decimal) : Binary64 :=
  let place := (digitCount x.coefficient : Int) + x.exponent
  if x.coefficient = 0 ∨ place < -farPlace then .finite false 0 Binary64.leastExponent
  else if farPlace < place then .infinite false
  else Binary64.nearest x.ratio.1 x.ratio.2

def onGrid (n d : Nat) (place : Int) : Decimal :=
  let (n', d') := scaleDown n d 10 place
  ⟨roundDiv n' d', place⟩

/-- The nearest decimal to `n / d` with at most `digits` significant digits. A carry into the next
power of ten leaves a coefficient of `10 ^ digits`. -/
def significant (digits n d : Nat) : Decimal :=
  if n = 0 then ⟨0, 0⟩ else onGrid n d (leadingPlace n d - digits + 1)

end Decimal

/-- A double rounded to significant digits and read back. No digits asked for acts as one. -/
def roundSignificant (digits : Nat) (x : Float) : Float :=
  match (Binary64.ofFloat x).ratio? with
  | none => x
  | some (_, 0, _) => x
  | some (negative, n, d) =>
    let y := (Decimal.significant (max digits 1) n d).toBinary64
    (if negative then y.negate else y).toFloat

end SymbolAtlas
