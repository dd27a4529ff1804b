import SymbolAtlas.Decimal.Binary64

/-!
The natural logarithm of one more than a whole number, in doubles. The steps and the constants are
those of the usual mathematical library, so that the last bit is the same too.
-/

set_option autoImplicit false

namespace SymbolAtlas.Logarithm

/-- Sign, exponent and the first 20 bits of the fraction. -/
def upperHalf (x : Float) : UInt64 := x.toBits >>> 32

def withUpperHalf (x : Float) (half : UInt64) : Float :=
  .ofBits (half <<< 32 ||| (x.toBits &&& 0xffffffff))

-- The logarithm of two in two parts. The first is so short that its multiples are exact.
def lnTwoHigh : Float := 6.93147180369123816490e-01

def lnTwoLow : Float := 1.90821492927058770002e-10

/-- A double as a power of two times `1 + excess`, which lies between the root of one half and the
root of two. -/
structure Split where
  exponent : Nat
  excess : Float
  /-- The excess is below `2 ^ -20` either way. -/
  tiny : Bool

def split (u : Float) : Split :=
  let half := upperHalf u
  let exponent := (half >>> 20).toNat - 1023
  let fraction := half &&& 0xfffff
  if fraction < 0x6a09e then
    ⟨exponent, withUpperHalf u (fraction ||| 0x3ff00000) - 1, fraction == 0⟩
  else
    ⟨exponent + 1, withUpperHalf u (fraction ||| 0x3fe00000) - 1, 0x100000 - fraction < 4⟩

/-- The rest of the logarithm's series after its first two terms, in the square of
`excess / (2 + excess)`. -/
def series (z : Float) : Float :=
  let z2 := z * z
  let z4 := z2 * z2
  let z6 := z4 * z2
  z * 6.666666666666735130e-01 +
    z2 * (3.999999999940941908e-01 + z * 2.857142874366239149e-01) +
    z4 * (2.222219843214978396e-01 + z * 1.818357216161805012e-01) +
    z6 * (1.531383769920937332e-01 + z * 1.479819860511658591e-01)

/-- The logarithm of `1 + x`, where `x` is zero or a whole number above it. -/
def ofSucc (x : Float) : Float :=
  if x == 0 then x
  else
    -- From 2 ^ 53 on, one more makes no difference.
    let beyond := 0x43400000 ≤ upperHalf x
    let u := if beyond then x else 1 + x
    -- What the sum lost, as a share of it.
    let lost := if beyond then 0 else (1 - (u - x)) / u
    let parts := split u
    let f := parts.excess
    let k := (Binary64.ofInt parts.exponent).toFloat
    let low := k * lnTwoLow + lost
    let square := 0.5 * f * f
    if parts.tiny then
      if f == 0 then k * lnTwoHigh + low
      else k * lnTwoHigh - (square * (1 - 0.66666666666666666 * f) - low - f)
    else
      let s := f / (2 + f)
      k * lnTwoHigh - (square - (s * (square + series (s * s)) + low) - f)

end SymbolAtlas.Logarithm
