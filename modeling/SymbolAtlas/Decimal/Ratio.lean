/-!
Exact quotients of natural numbers: rounding to the nearest whole number with ties to even, and
the decimal place of the leading digit.
-/

set_option autoImplicit false

namespace SymbolAtlas

namespace Power

/-- Powers as the natural numbers have them, whatever else is in scope. -/
scoped instance natPow : Pow Nat Nat := instPowNat

end Power

open scoped Power

/-- The whole number nearest to `n / d`; a tie goes to the even one. -/
def roundDiv (n d : Nat) : Nat :=
  let q := n / d
  let r := n % d
  if 2 * r < d then q
  else if d < 2 * r then q + 1
  else if q % 2 = 0 then q else q + 1

def digitCount (n : Nat) : Nat := (Nat.toDigits 10 n).length

/-- The power of ten of the leading digit of `n / d`, for positive `n` and `d`. -/
def leadingPlace (n d : Nat) : Int :=
  if d ≤ n then (digitCount (n / d) : Int) - 1
  else - (digitCount ((d + n - 1) / n - 1) : Int)

/-- `n / d` over `base ^ e`, as a quotient of natural numbers. -/
def scaleDown (n d base : Nat) (e : Int) : Nat × Nat :=
  if 0 ≤ e then (n, d * base ^ e.toNat) else (n * base ^ (-e).toNat, d)

theorem roundDiv_near (n d : Nat) (h : 0 < d) :
    2 * n ≤ 2 * d * roundDiv n d + d ∧ 2 * d * roundDiv n d ≤ 2 * n + d := by
  have hm := Nat.div_add_mod n d
  have hr := Nat.mod_lt n h
  simp only [roundDiv]
  generalize n / d = q at *
  generalize n % d = r at *
  have e : 2 * d * (q + 1) = 2 * d * q + 2 * d := by rw [Nat.mul_add, Nat.mul_one]
  have f : 2 * d * q = 2 * (d * q) := by rw [Nat.mul_assoc]
  split
  · omega
  · split
    · omega
    · split <;> omega

end SymbolAtlas
