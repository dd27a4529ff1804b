import SymbolAtlas.Arithmetic.Logarithm
import SymbolAtlas.Decimal.Significant

/-!
The arithmetic of scores, as an interface: doubles run it, and an exact number type can stand in
for them.
-/

set_option autoImplicit false

namespace SymbolAtlas

inductive ArithmeticFault
  | divisionByZero
  | quotientTooLarge
  | domain
  | wholeTooLarge
  | powerTooLarge
  | infiniteToWhole
  | nanToWhole
  deriving DecidableEq, Repr

def ArithmeticFault.message : ArithmeticFault → String
  | .divisionByZero => "division by zero"
  | .quotientTooLarge => "integer division result too large for a float"
  | .domain => "math domain error"
  | .wholeTooLarge => "int too large to convert to float"
  | .powerTooLarge => "(34, 'Numerical result out of range')"
  | .infiniteToWhole => "cannot convert float infinity to integer"
  | .nanToWhole => "cannot convert float NaN to integer"

class ScoreArithmetic (σ : Type) where
  one : σ
  add : σ → σ → σ
  mul : σ → σ → σ
  div : σ → σ → σ
  quotient : Int → Int → Except ArithmeticFault σ
  sqrt : σ → Except ArithmeticFault σ
  power : σ → Int → Except ArithmeticFault σ
  logSucc : Int → Except ArithmeticFault σ

namespace Binary64

def quotient (n d : Int) : Except ArithmeticFault Binary64 :=
  if d = 0 then .error .divisionByZero
  else
    match nearest n.natAbs d.natAbs with
    | .infinite _ => .error .quotientTooLarge
    | x => .ok (if decide (n < 0) != decide (d < 0) then x.negate else x)

def ofIntChecked (n : Int) : Except ArithmeticFault Binary64 :=
  match ofInt n with
  | .infinite _ => .error .wholeTooLarge
  | x => .ok x

end Binary64

def truncateFloat (x : Float) : Except ArithmeticFault Int :=
  match Binary64.ofFloat x with
  | .nan => .error .nanToWhole
  | .infinite _ => .error .infiniteToWhole
  | y =>
    match y.truncate? with
    | some n => .ok n
    | none => .error .nanToWhole

/-- A power of a proper fraction. Every one lies from zero to one, so no other answer of the machine
counts. -/
def fractionPower (x k : Float) : Float :=
  let y := x.pow k
  if 0 ≤ y && y ≤ 1 then y else 0

instance : ScoreArithmetic Float where
  one := 1
  add := (· + ·)
  mul := (· * ·)
  div := (· / ·)
  quotient n d := (Binary64.quotient n d).map Binary64.toFloat
  sqrt x := if x < 0 then .error .domain else .ok x.sqrt
  power x n :=
    match Binary64.ofIntChecked n with
    | .error e => .error e
    | .ok k =>
      if 0 ≤ n && 0 < x && x < 1 then .ok (fractionPower x k.toFloat)
      else
        let y := x.pow k.toFloat
        if y.isInf && !x.isInf then .error .powerTooLarge else .ok y
  logSucc n :=
    match Binary64.ofIntChecked n with
    | .error e => .error e
    | .ok k => if k.toFloat ≤ -1 then .error .domain else .ok (Logarithm.ofSucc k.toFloat)

end SymbolAtlas
