import SymbolAtlas.Decimal.Ratio

/-!
Double-precision numbers as exact values: a sign, a whole mantissa below `2 ^ 53` and a power of
two. The nearest double to a quotient is found in whole numbers, so no rounding is left to the
machine.
-/

set_option autoImplicit false

namespace SymbolAtlas

open scoped Power

/-- What a 64-bit pattern stands for. A finite one is `± mantissa * 2 ^ exponent`. -/
inductive Binary64
  | nan
  | infinite (negative : Bool)
  | finite (negative : Bool) (mantissa : Nat) (exponent : Int)
  deriving DecidableEq, Repr

namespace Binary64

def leastExponent : Int := -1074

def ofBits (bits : Nat) : Binary64 :=
  let negative := decide (bits / 2 ^ (63 : Nat) % 2 = 1)
  let exponent : Nat := bits / 2 ^ (52 : Nat) % 2 ^ (11 : Nat)
  let fraction : Nat := bits % 2 ^ (52 : Nat)
  if exponent = 2047 then (if fraction = 0 then .infinite negative else .nan)
  else if exponent = 0 then .finite negative fraction leastExponent
  else .finite negative (2 ^ (52 : Nat) + fraction) ((exponent : Int) - 1075)

def ofFloat (x : Float) : Binary64 := ofBits x.toBits.toNat

def signBits (negative : Bool) : Nat := if negative then 2 ^ (63 : Nat) else 0

/-- The pattern of a number that is given with a mantissa of at most `2 ^ 53`. -/
def toBits : Binary64 → Nat
  | .nan => 2047 * 2 ^ (52 : Nat) + 2 ^ (51 : Nat)
  | .infinite negative => signBits negative + 2047 * 2 ^ (52 : Nat)
  | .finite negative mantissa exponent =>
    if mantissa < 2 ^ (52 : Nat) then signBits negative + mantissa
    else signBits negative + (exponent + 1074).toNat * 2 ^ (52 : Nat) + mantissa

def toFloat (x : Binary64) : Float := Float.ofBits (UInt64.ofNat x.toBits)

def negate : Binary64 → Binary64
  | .nan => .nan
  | .infinite negative => .infinite (!negative)
  | .finite negative mantissa exponent => .finite (!negative) mantissa exponent

/-- The power of two at which `n / d` has a mantissa of 53 bits, or the least one. -/
def gridExponent (n d : Nat) : Int :=
  let e := (n.log2 : Int) - (d.log2 : Int) - 52
  let (n', d') := scaleDown n d 2 e
  max leastExponent (if n' / d' < 2 ^ (52 : Nat) then e - 1 else e)

/-- The double nearest to `n / d`, ties to the even mantissa, for positive `d`. -/
def nearest (n d : Nat) : Binary64 :=
  if n = 0 then .finite false 0 leastExponent
  else
    let e := gridExponent n d
    let (n', d') := scaleDown n d 2 e
    let m := roundDiv n' d'
    if 971 ≤ e ∧ 2 ^ (53 : Nat) ≤ m * 2 ^ (e - 971).toNat then .infinite false
    else .finite false m e

def ofInt (n : Int) : Binary64 :=
  if n < 0 then (nearest n.natAbs 1).negate else nearest n.natAbs 1

def ratio? : Binary64 → Option (Bool × Nat × Nat)
  | .finite negative mantissa exponent =>
    if 0 ≤ exponent then some (negative, mantissa * 2 ^ exponent.toNat, 1)
    else some (negative, mantissa, 2 ^ (-exponent).toNat)
  | _ => none

def toInt? (x : Binary64) : Option Int :=
  match x.ratio? with
  | some (negative, n, d) =>
    if n % d = 0 then some (if negative then - ((n / d : Nat) : Int) else ((n / d : Nat) : Int))
    else none
  | none => none

def truncate? (x : Binary64) : Option Int :=
  match x.ratio? with
  | some (negative, n, d) =>
    some (if negative then - ((n / d : Nat) : Int) else ((n / d : Nat) : Int))
  | none => none

end Binary64

end SymbolAtlas
