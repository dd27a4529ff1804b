import SymbolAtlas.Proofs.Numerals

/-!
Rounding to significant digits, on exact numbers. The unit depends on where the leading digit of a
number stands, so it changes at every power of ten. Still no number of so many digits is nearer than
the one that is taken, whatever unit it is written in; monotony and idempotence follow from that
alone.
-/

set_option autoImplicit false

namespace SymbolAtlas

theorem lt_zpow_leadingPlace {n d : Nat} (hn : 0 < n) (hd : 0 < d) :
    (n : ℚ) / d < 10 ^ (leadingPlace n d + 1) := by
  have hq : (0 : ℚ) < d := by exact_mod_cast hd
  unfold leadingPlace
  split
  · next hle =>
    have hhigh := (digitCount_bounds (Nat.div_pos hle hd)).2
    have hmul : n < 10 ^ digitCount (n / d) * d := (Nat.div_lt_iff_lt_mul hd).1 hhigh
    rw [sub_add_cancel, zpow_natCast, div_lt_iff₀ hq]
    exact_mod_cast hmul
  · next hlt =>
    -- One numerator less than the next whole number of them is below the denominator.
    have htwo : 2 ≤ (d + n - 1) / n := by
      rw [Nat.le_div_iff_mul_le hn]
      omega
    generalize hk : (d + n - 1) / n - 1 = k
    have hbelow : n * k < d := by
      have hle := Nat.mul_div_le (d + n - 1) n
      have hsplit : n * ((d + n - 1) / n) = n * k + n := by
        rw [← Nat.mul_succ]
        congr 1
        omega
      omega
    have hlow := (digitCount_bounds (show 0 < k by omega)).1
    have hcount : 0 < digitCount k := Nat.length_toDigits_pos
    have hmul : n * 10 ^ (digitCount k - 1) < d :=
      lt_of_le_of_lt (Nat.mul_le_mul_left n hlow) hbelow
    have hmul' : (n : ℚ) * 10 ^ (digitCount k - 1) < d := by exact_mod_cast hmul
    rw [show -(digitCount k : Int) + 1 = -((digitCount k - 1 : Nat) : Int) by omega, zpow_neg,
      zpow_natCast, div_lt_iff₀ hq, lt_inv_mul_iff₀ (by positivity), mul_comm]
    exact hmul'

theorem even_roundDiv_of_tie {n d : Nat} (hd : 0 < d)
    (h : |(n : ℚ) / d - roundDiv n d| = 1 / 2) : Even (roundDiv n d) := by
  have hq : (0 : ℚ) < d := by exact_mod_cast hd
  have htie : 2 * n = 2 * (d * roundDiv n d) + d ∨ 2 * (d * roundDiv n d) = 2 * n + d := by
    rcases (abs_eq (by norm_num)).1 h with h | h
    · left
      rw [sub_eq_iff_eq_add, div_eq_iff hq.ne'] at h
      have h' : 2 * (n : ℚ) = 2 * (d * roundDiv n d) + d := by rw [h]; ring
      exact_mod_cast h'
    · right
      rw [sub_eq_iff_eq_add, div_eq_iff hq.ne'] at h
      have h' : 2 * (d * (roundDiv n d : ℚ)) = 2 * n + d := by rw [h]; ring
      exact_mod_cast h'
  have hsum := Nat.div_add_mod n d
  have hrest := Nat.mod_lt n hd
  rw [Nat.even_iff]
  simp only [roundDiv] at htie ⊢
  have hnext : d * (n / d + 1) = d * (n / d) + d := Nat.mul_succ _ _
  split
  · next hlow =>
    rw [if_pos hlow] at htie
    omega
  · next hlow =>
    rw [if_neg hlow] at htie
    split
    · next hhigh =>
      rw [if_pos hhigh] at htie
      omega
    · split <;> omega

namespace Decimal

/-- A number that can be written with so many significant digits, or with fewer. -/
def Writable (digits : Nat) (y : ℚ) : Prop := ∃ c e : ℤ, |c| < 10 ^ digits ∧ y = c * 10 ^ e

theorem Writable.neg {digits : Nat} {y : ℚ} (h : Writable digits y) : Writable digits (-y) := by
  obtain ⟨c, e, hc, rfl⟩ := h
  exact ⟨-c, e, by rwa [abs_neg], by push_cast; ring⟩

theorem writable_zpow {digits : Nat} (h : 1 ≤ digits) (k : ℤ) : Writable digits (10 ^ k) := by
  refine ⟨1, k, ?_, by norm_num⟩
  rw [abs_one]
  exact one_lt_pow₀ (by norm_num) (by omega)

theorem zpow_top (digits : Nat) (p : ℤ) : (10 : ℚ) ^ (p + digits) = 10 ^ digits * 10 ^ p := by
  rw [add_comm, zpow_add₀ (by norm_num), zpow_natCast]

theorem zpow_first {digits : Nat} (h : 1 ≤ digits) (p : ℤ) :
    (10 : ℚ) ^ (p + digits - 1) = ((10 ^ (digits - 1) : Nat) : ℤ) * 10 ^ p := by
  rw [show p + digits - 1 = ((digits - 1 : Nat) : ℤ) + p by omega, zpow_add₀ (by norm_num),
    zpow_natCast]
  push_cast
  rfl

/-- A number of so many digits that reaches their first place is a whole number of their last. -/
theorem Writable.exists_units {digits : Nat} {y : ℚ} (h : Writable digits y) {p : ℤ}
    (hy : 10 ^ (p + digits - 1) ≤ y) : ∃ k : ℤ, y = k * 10 ^ p := by
  obtain ⟨k, e, hk, rfl⟩ := h
  have hk' : (k : ℚ) < 10 ^ digits := by exact_mod_cast (abs_lt.1 hk).2
  have hbound : (10 : ℚ) ^ (p + digits - 1) < 10 ^ (e + digits) := by
    rw [zpow_top]
    exact hy.trans_lt (mul_lt_mul_of_pos_right hk' (by positivity))
  have hplace : p + digits - 1 < e + digits := (zpow_lt_zpow_iff_right₀ (by norm_num)).1 hbound
  obtain ⟨j, hj⟩ := Int.eq_ofNat_of_zero_le (show 0 ≤ e - p by omega)
  refine ⟨k * 10 ^ j, ?_⟩
  rw [show e = (j : ℤ) + p by omega, zpow_add₀ (by norm_num), zpow_natCast]
  push_cast
  ring

/-! ## On the grid of a number -/

/-- A positive number whose leading digit is the first of `digits` many down to `10 ^ place`, and
the whole number `c` of units `10 ^ place` it is rounded to. -/
structure Nearest (digits : Nat) (q : ℚ) (place : ℤ) (c : Nat) : Prop where
  low : 10 ^ (place + digits - 1) ≤ q
  high : q < 10 ^ (place + digits)
  near : |q - c * 10 ^ place| ≤ 10 ^ place / 2
  even : |q - c * 10 ^ place| = 10 ^ place / 2 → Even c

theorem nearest_significant (digits : Nat) {n d : Nat} (hn : 0 < n) (hd : 0 < d) :
    Nearest digits ((n : ℚ) / d) (significant digits n d).exponent
      (significant digits n d).coefficient := by
  generalize hp : leadingPlace n d - digits + 1 = p
  have hsignificant : significant digits n d =
      ⟨roundDiv (scaleDown n d 10 p).1 (scaleDown n d 10 p).2, p⟩ := by
    rw [significant, if_neg hn.ne', hp]
    rfl
  have hpos := scaleDown_pos n hd (show 0 < 10 by decide) p
  have hunit : (0 : ℚ) < 10 ^ p := by positivity
  have hratio := scaleDown_ratio n d 10 p
  rw [Nat.cast_ofNat] at hratio
  rw [hsignificant]
  generalize hc : roundDiv (scaleDown n d 10 p).1 (scaleDown n d 10 p).2 = c
  have hscale : |(n : ℚ) / d - c * 10 ^ p| = |(n : ℚ) / d / 10 ^ p - c| * 10 ^ p := by
    rw [← abs_of_pos hunit, ← abs_mul, abs_of_pos hunit, sub_mul, div_mul_cancel₀ _ hunit.ne']
  have hhalf : (10 : ℚ) ^ p / 2 = 1 / 2 * 10 ^ p := by ring
  refine ⟨?_, ?_, ?_, ?_⟩
  · rw [show p + digits - 1 = leadingPlace n d by omega]
    exact zpow_leadingPlace_le hn hd
  · rw [show p + digits = leadingPlace n d + 1 by omega]
    exact lt_zpow_leadingPlace hn hd
  · obtain ⟨hlow, hhigh⟩ := roundDiv_bounds (scaleDown n d 10 p).1 hpos
    rw [hratio, hc] at hlow hhigh
    rw [hscale, hhalf]
    exact mul_le_mul_of_nonneg_right (abs_le.2 ⟨by linarith, by linarith⟩) hunit.le
  · intro htie
    rw [hscale, hhalf, mul_left_inj' hunit.ne', ← hratio, ← hc] at htie
    rw [← hc]
    exact even_roundDiv_of_tie hpos htie

namespace Nearest

variable {digits : Nat} {q : ℚ} {p : ℤ} {c : Nat} (h : Nearest digits q p c)

include h

theorem le_units {k : ℤ} (hk : k ≠ c) :
    |q - c * 10 ^ p| ≤ |q - k * 10 ^ p| ∧
      (|q - k * 10 ^ p| = |q - c * 10 ^ p| → Even c ∧ Odd k) := by
  have hunit : (0 : ℚ) < 10 ^ p := by positivity
  have hstep : (1 : ℚ) ≤ |(k : ℚ) - c| := by
    exact_mod_cast Int.one_le_abs (sub_ne_zero.2 hk)
  have hapart : (10 : ℚ) ^ p * |(k : ℚ) - c| ≤ |q - c * 10 ^ p| + |q - k * 10 ^ p| := by
    calc (10 : ℚ) ^ p * |(k : ℚ) - c| = |(q - c * 10 ^ p) - (q - k * 10 ^ p)| := by
          rw [← abs_of_pos hunit, ← abs_mul, abs_of_pos hunit]
          congr 1
          ring
      _ ≤ |q - c * 10 ^ p| + |q - k * 10 ^ p| := abs_sub _ _
  have hone : (10 : ℚ) ^ p ≤ 10 ^ p * |(k : ℚ) - c| := le_mul_of_one_le_right hunit.le hstep
  have hnear := h.near
  refine ⟨by linarith, fun heq => ?_⟩
  have hhalf : |q - c * 10 ^ p| = 10 ^ p / 2 := by linarith
  have heven := h.even hhalf
  -- At a tie the other number is the next one up or down.
  have hnext : |(k : ℚ) - c| ≤ 1 := by
    refine le_of_mul_le_mul_left ?_ hunit
    linarith
  have hnext' : |k - (c : ℤ)| ≤ 1 := by exact_mod_cast hnext
  refine ⟨heven, ?_⟩
  rw [Nat.even_iff] at heven
  rw [Int.odd_iff]
  have hbounds := abs_le.1 hnext'
  omega

theorem most : c ≤ 10 ^ digits := by
  have hunit : (0 : ℚ) < 10 ^ p := by positivity
  have hhigh := h.high
  rw [zpow_top] at hhigh
  have hnear := (abs_le.1 h.near).1
  have hlt : (c : ℚ) * 10 ^ p < (10 ^ digits + 1) * 10 ^ p := by linarith
  have hlt' : (c : ℚ) < 10 ^ digits + 1 := lt_of_mul_lt_mul_right hlt hunit.le
  have hlt'' : c < 10 ^ digits + 1 := by exact_mod_cast hlt'
  omega

variable (hdigits : 1 ≤ digits)

include hdigits

theorem least : 10 ^ (digits - 1) ≤ c := by
  have hunit : (0 : ℚ) < 10 ^ p := by positivity
  have hlow := h.low
  rw [zpow_first hdigits p] at hlow
  have hnear := (abs_le.1 h.near).2
  have hlt : (((10 ^ (digits - 1) : Nat) : ℤ) : ℚ) * 10 ^ p < (c + 1) * 10 ^ p := by linarith
  have hlt' := lt_of_mul_lt_mul_right hlt hunit.le
  have hlt'' : 10 ^ (digits - 1) < c + 1 := by exact_mod_cast hlt'
  omega

/-- One unit more than the digits can say is a power of ten, which takes one digit. -/
theorem writable : Writable digits (c * 10 ^ p) := by
  rcases h.most.lt_or_eq with hlt | heq
  · refine ⟨c, p, ?_, by norm_num⟩
    rw [Nat.abs_cast]
    exact_mod_cast hlt
  · have hcarry : (c : ℚ) * 10 ^ p = 10 ^ (p + digits) := by
      rw [zpow_top, heq]
      push_cast
      rfl
    rw [hcarry]
    exact writable_zpow hdigits _

/-- No number of so many digits is nearer, and of two that are as near one is even and the other
one odd. -/
theorem le_writable {y : ℚ} (hy : Writable digits y) :
    |q - c * 10 ^ p| ≤ |q - y| ∧
      (y ≠ c * 10 ^ p → |q - y| = |q - c * 10 ^ p| →
        ∃ k : ℤ, y = k * 10 ^ p ∧ Even c ∧ Odd k) := by
  by_cases hlow : y < 10 ^ (p + digits - 1)
  · -- The least number with the same leading place lies between.
    have hlow' : |q - c * 10 ^ p| ≤ q - 10 ^ (p + digits - 1) := by
      have hfirst := zpow_first hdigits p
      have hge := h.low
      by_cases heq : ((10 ^ (digits - 1) : Nat) : ℤ) = c
      · have hc : (c : ℚ) * 10 ^ p = 10 ^ (p + digits - 1) := by
          rw [hfirst, heq]
          norm_num
        rw [hc, abs_of_nonneg (by linarith)]
      · have hle := (h.le_units heq).1
        rw [← hfirst, abs_of_nonneg (show 0 ≤ q - 10 ^ (p + digits - 1) by linarith)] at hle
        exact hle
    have hfar : |q - c * 10 ^ p| < |q - y| := by
      have hself := le_abs_self (q - y)
      linarith
    exact ⟨hfar.le, fun _ heq => absurd heq hfar.ne'⟩
  · obtain ⟨k, rfl⟩ := hy.exists_units (not_lt.1 hlow)
    by_cases hk : k = c
    · rw [hk, Int.cast_natCast]
      exact ⟨le_rfl, fun hne => absurd rfl hne⟩
    · obtain ⟨hle, htie⟩ := h.le_units hk
      exact ⟨hle, fun _ heq => ⟨k, rfl, htie heq⟩⟩

omit hdigits

theorem unique {p' : ℤ} {c' : Nat} (h' : Nearest digits q p' c') : p = p' ∧ c = c' := by
  have hten : (1 : ℚ) < 10 := by norm_num
  have hle := (zpow_lt_zpow_iff_right₀ hten).1 (h.low.trans_lt h'.high)
  have hge := (zpow_lt_zpow_iff_right₀ hten).1 (h'.low.trans_lt h.high)
  have hp : p = p' := by omega
  subst hp
  refine ⟨rfl, ?_⟩
  by_contra hne
  have hk : (c' : ℤ) ≠ c := by omega
  have hk' : (c : ℤ) ≠ c' := by omega
  obtain ⟨hnear, htie⟩ := h.le_units hk
  obtain ⟨hnear', htie'⟩ := h'.le_units hk'
  rw [Int.cast_natCast] at hnear htie hnear' htie'
  obtain ⟨-, hodd⟩ := htie (le_antisymm hnear' hnear)
  obtain ⟨heven, -⟩ := htie' (le_antisymm hnear hnear')
  rw [Nat.even_iff] at heven
  rw [Int.odd_iff] at hodd
  omega

end Nearest

/-! ## Numbers of either sign -/

def signed (negative : Bool) (q : ℚ) : ℚ := if negative then -q else q

def rounded (digits : Nat) (q : ℚ) : ℚ :=
  signed (q < 0) (significant digits q.num.natAbs q.den).value

theorem rounded_zero (digits : Nat) : rounded digits 0 = 0 := by
  simp [rounded, signed, significant, value]

theorem rounded_neg (digits : Nat) (q : ℚ) : rounded digits (-q) = -rounded digits q := by
  rcases lt_trichotomy q 0 with hq | rfl | hq
  · simp [rounded, signed, hq, hq.le]
  · simp [rounded_zero]
  · simp [rounded, signed, hq, hq.le]

theorem lowest_terms {q : ℚ} (hq : 0 < q) :
    0 < q.num.natAbs ∧ (q.num.natAbs : ℚ) / q.den = q := by
  have hnum := Rat.num_pos.2 hq
  refine ⟨Int.natAbs_pos.2 hnum.ne', ?_⟩
  rw [Nat.cast_natAbs, abs_of_pos hnum, Rat.num_div_den]

theorem rounded_ratio (digits : Nat) {n d : Nat} (hn : 0 < n) (hd : 0 < d) :
    rounded digits ((n : ℚ) / d) = (significant digits n d).value := by
  have hpos : (0 : ℚ) < (n : ℚ) / d := by positivity
  generalize hq : (n : ℚ) / d = q at hpos
  obtain ⟨hnum, hlowest⟩ := lowest_terms hpos
  have hnear : Nearest digits q _ _ := hq ▸ nearest_significant digits hn hd
  have hnear' : Nearest digits q _ _ := hlowest ▸ nearest_significant digits hnum q.den_pos
  obtain ⟨hexponent, hcoefficient⟩ := hnear.unique hnear'
  rw [rounded, decide_eq_false (not_lt.2 hpos.le), value, value, hexponent, hcoefficient]
  rfl

theorem exists_nearest (digits : Nat) {q : ℚ} (hq : 0 < q) :
    ∃ p c, Nearest digits q p c ∧ rounded digits q = c * 10 ^ p := by
  obtain ⟨hnum, hlowest⟩ := lowest_terms hq
  have hnear := nearest_significant digits hnum q.den_pos
  have hvalue := rounded_ratio digits hnum q.den_pos
  rw [hlowest] at hnear hvalue
  exact ⟨_, _, hnear, hvalue⟩

structure Rounding (digits : Nat) (q r : ℚ) : Prop where
  writable : Writable digits r
  nearest : ∀ y, Writable digits y → |q - r| ≤ |q - y|
  /-- Where another number of so many digits is as near, both end at the place of the last of them,
  this one with an even digit and the other one with an odd digit. -/
  even : ∀ y, Writable digits y → y ≠ r → |q - y| = |q - r| →
    ∃ p c k : ℤ, 10 ^ (p + digits - 1) ≤ |q| ∧ |q| < 10 ^ (p + digits) ∧
      r = c * 10 ^ p ∧ y = k * 10 ^ p ∧ Even c ∧ Odd k
  sign : SignType.sign r = SignType.sign q

theorem Rounding.neg {digits : Nat} {q r : ℚ} (h : Rounding digits q r) :
    Rounding digits (-q) (-r) := by
  have hflip : ∀ y : ℚ, |(-q) - y| = |q - -y| := by
    intro y
    rw [← abs_neg]
    congr 1
    ring
  have hself : |(-q) - -r| = |q - r| := by rw [hflip, neg_neg]
  refine ⟨h.writable.neg, fun y hy => ?_, fun y hy hne htie => ?_, ?_⟩
  · rw [hself, hflip]
    exact h.nearest _ hy.neg
  · rw [hself, hflip] at htie
    obtain ⟨p, c, k, hlow, hhigh, hr, hk, hc, hodd⟩ :=
      h.even (-y) hy.neg (fun e => hne (by rw [← e, neg_neg])) htie
    refine ⟨p, -c, -k, by rwa [abs_neg], by rwa [abs_neg], ?_, ?_, hc.neg, hodd.neg⟩
    · rw [hr]
      push_cast
      ring
    · rw [← neg_neg y, hk]
      push_cast
      ring
  · rw [Left.sign_neg, Left.sign_neg, h.sign]

theorem rounding_zero (digits : Nat) : Rounding digits 0 0 := by
  refine ⟨⟨0, 0, by simp, by simp⟩, fun y _ => by simp, fun y _ hne htie => ?_, rfl⟩
  simp only [zero_sub, abs_neg, sub_self, abs_zero, abs_eq_zero] at htie
  exact absurd htie hne

section Rounded

variable {digits : Nat} (hdigits : 1 ≤ digits)

include hdigits

theorem rounding_of_pos {q : ℚ} (hq : 0 < q) : Rounding digits q (rounded digits q) := by
  obtain ⟨p, c, hnear, hvalue⟩ := exists_nearest digits hq
  rw [hvalue]
  refine ⟨hnear.writable hdigits, fun y hy => (hnear.le_writable hdigits hy).1,
    fun y hy hne htie => ?_, ?_⟩
  · obtain ⟨k, hk, heven, hodd⟩ := (hnear.le_writable hdigits hy).2 hne htie
    refine ⟨p, c, k, ?_, ?_, by norm_num, hk, by exact_mod_cast heven, hodd⟩
    · rw [abs_of_pos hq]
      exact hnear.low
    · rw [abs_of_pos hq]
      exact hnear.high
  · have hc : 0 < c := lt_of_lt_of_le (Nat.pow_pos (by decide)) (hnear.least hdigits)
    have hpos : (0 : ℚ) < c * 10 ^ p := by positivity
    rw [sign_pos hpos, sign_pos hq]

theorem rounding_rounded (q : ℚ) : Rounding digits q (rounded digits q) := by
  rcases lt_trichotomy q 0 with hq | rfl | hq
  · have h := (rounding_of_pos hdigits (neg_pos.2 hq)).neg
    rwa [rounded_neg, neg_neg, neg_neg] at h
  · rw [rounded_zero]
    exact rounding_zero digits
  · exact rounding_of_pos hdigits hq

/-- Were the order turned round, both numbers would be halfway between the two results. -/
theorem rounded_mono : Monotone (rounded digits) := by
  intro q r hqr
  by_contra hlt
  have hq := (rounding_rounded hdigits q).nearest _ (rounding_rounded hdigits r).writable
  have hr := (rounding_rounded hdigits r).nearest _ (rounding_rounded hdigits q).writable
  rw [not_le] at hlt
  have hmid : rounded digits q + rounded digits r ≤ 2 * q := by
    rcases abs_cases (q - rounded digits q) with h | h <;>
      rcases abs_cases (q - rounded digits r) with h' | h' <;> linarith
  have hmid' : 2 * r ≤ rounded digits q + rounded digits r := by
    rcases abs_cases (r - rounded digits q) with h | h <;>
      rcases abs_cases (r - rounded digits r) with h' | h' <;> linarith
  have heq : q = r := by linarith
  rw [heq] at hlt
  exact lt_irrefl _ hlt

theorem rounded_of_writable {y : ℚ} (hy : Writable digits y) : rounded digits y = y := by
  have h := (rounding_rounded hdigits y).nearest y hy
  rw [sub_self, abs_zero] at h
  have hzero := abs_eq_zero.1 (le_antisymm h (abs_nonneg _))
  linarith

/-- From half a unit below a power of ten on, rounding carries. -/
theorem rounded_carry {q : ℚ} {k : ℤ} (hlow : 10 ^ k - 10 ^ (k - digits) / 2 ≤ q)
    (hhigh : q ≤ 10 ^ k) : rounded digits q = 10 ^ k := by
  have htop : rounded digits (10 ^ k) = 10 ^ k :=
    rounded_of_writable hdigits (writable_zpow hdigits k)
  have hunit : (0 : ℚ) < 10 ^ (k - digits) := by positivity
  have hk : (10 : ℚ) ^ k = 10 ^ digits * 10 ^ (k - digits) := by
    rw [← zpow_top, sub_add_cancel]
  have hhalf : Nearest digits (10 ^ k - 10 ^ (k - digits) / 2) (k - digits) (10 ^ digits) := by
    refine ⟨?_, ?_, ?_, fun _ => ?_⟩
    · have hfirst : (10 : ℚ) ^ k = 10 * 10 ^ (k - 1) := by
        rw [← zpow_one_add₀ (by norm_num)]
        congr 1
        ring
      have hle : (10 : ℚ) ^ (k - digits) ≤ 10 ^ (k - 1) :=
        zpow_le_zpow_right₀ (by norm_num) (by omega)
      rw [sub_add_cancel, hfirst]
      have hpos : (0 : ℚ) < 10 ^ (k - 1) := by positivity
      linarith
    · rw [sub_add_cancel]
      linarith
    · rw [hk, abs_le]
      push_cast
      constructor <;> linarith
    · exact Nat.even_pow.2 ⟨by decide, by omega⟩
  have hpos : (0 : ℚ) < 10 ^ k - 10 ^ (k - digits) / 2 :=
    lt_of_lt_of_le (by positivity) hhalf.low
  obtain ⟨p, c, hnear, hvalue⟩ := exists_nearest digits hpos
  obtain ⟨rfl, rfl⟩ := hnear.unique hhalf
  push_cast at hvalue
  rw [← hk] at hvalue
  refine le_antisymm ?_ ?_
  · exact (rounded_mono hdigits hhigh).trans_eq htop
  · exact hvalue.symm.le.trans (rounded_mono hdigits hlow)

end Rounded

/-! ## Doubles -/

theorem toFloat_zero {x : Float} {negative : Bool} {e : ℤ}
    (hx : (Binary64.finite negative 0 e).toBits = x.toBits.toNat) :
    (if negative then (Decimal.mk 0 0).toBinary64.negate
      else (Decimal.mk 0 0).toBinary64).toFloat = x := by
  have hbits : (if negative then (Decimal.mk 0 0).toBinary64.negate
      else (Decimal.mk 0 0).toBinary64).toBits = x.toBits.toNat := by
    rw [← hx]
    cases negative <;> simp [toBinary64, Binary64.negate, Binary64.toBits]
  rw [Binary64.toFloat, hbits, UInt64.ofNat_toNat, Float.ofBits_toBits]

/-- A finite double is rounded as its exact value is, and read back. -/
theorem roundSignificant_finite {digits : Nat} (h : 1 ≤ digits) {x : Float}
    (hx : x.isFinite = true) :
    ∃ negative n d, (Binary64.ofFloat x).ratio? = some (negative, n, d) ∧ 0 < d ∧
      signed negative (significant digits n d).value =
        rounded digits (signed negative ((n : ℚ) / d)) ∧
      roundSignificant digits x =
        (if negative then (significant digits n d).toBinary64.negate
          else (significant digits n d).toBinary64).toFloat := by
  obtain ⟨negative, m, e, hread, -, hbits⟩ :=
    Binary64.ofBits_finite x.toBits.toNat_lt ((isFinite_iff x).1 hx)
  have hofFloat : Binary64.ofFloat x = .finite negative m e := hread
  obtain ⟨n, d, hratio, hd, hzero⟩ : ∃ n d, (Binary64.ofFloat x).ratio? = some (negative, n, d) ∧
      0 < d ∧ (n = 0 → m = 0) := by
    rw [hofFloat, Binary64.ratio?]
    split
    · exact ⟨_, _, rfl, Nat.one_pos, fun hz =>
        (Nat.mul_eq_zero.1 hz).resolve_right (Nat.pow_pos (by decide)).ne'⟩
    · exact ⟨_, _, rfl, Nat.pow_pos (by decide), id⟩
  refine ⟨negative, n, d, hratio, hd, ?_, ?_⟩
  · rcases Nat.eq_zero_or_pos n with rfl | hn
    · have hnone : signed negative (((0 : Nat) : ℚ) / d) = 0 := by simp [signed]
      rw [hnone, rounded_zero]
      simp [significant, value, signed]
    · cases negative with
      | false => exact (rounded_ratio digits hn hd).symm
      | true =>
        simp only [signed, if_true]
        rw [rounded_neg, rounded_ratio digits hn hd]
  · rcases Nat.eq_zero_or_pos n with rfl | hn
    · rw [hzero rfl] at hbits
      have hsame : roundSignificant digits x = x := by simp only [roundSignificant, hratio]
      rw [hsame]
      exact (toFloat_zero hbits).symm
    · obtain ⟨k, rfl⟩ := Nat.exists_eq_add_one.2 hn
      simp only [roundSignificant, hratio, max_eq_left h]

/-- Rounding to significant digits takes the nearest number of so many digits, at a tie the one that
ends with an even digit. It keeps signs, zero and the order, changes nothing the second time and
carries into the next power of ten. A finite double is rounded as its exact value is, and only then
read back. -/
theorem rounded_to_digits (digits : Nat) (h : 1 ≤ digits) :
    (∀ q, Rounding digits q (rounded digits q)) ∧
    rounded digits 0 = 0 ∧
    Monotone (rounded digits) ∧
    (∀ q, rounded digits (rounded digits q) = rounded digits q) ∧
    (∀ (q : ℚ) (k : ℤ), 10 ^ k - 10 ^ (k - digits) / 2 ≤ q → q ≤ 10 ^ k →
      rounded digits q = 10 ^ k) ∧
    ∀ x : Float, x.isFinite = true →
      ∃ negative n d, (Binary64.ofFloat x).ratio? = some (negative, n, d) ∧ 0 < d ∧
        signed negative (significant digits n d).value =
          rounded digits (signed negative ((n : ℚ) / d)) ∧
        roundSignificant digits x =
          (if negative then (significant digits n d).toBinary64.negate
            else (significant digits n d).toBinary64).toFloat :=
  ⟨rounding_rounded h, rounded_zero digits, rounded_mono h,
    fun q => rounded_of_writable h (rounding_rounded h q).writable,
    fun _ _ => rounded_carry h, fun _ => roundSignificant_finite h⟩

/-- Nine and a half is as far from nine as from ten, and with one digit it carries into ten. -/
theorem rounded_of_sample : 1 ≤ 1 ∧ Writable 1 9 ∧ rounded 1 9.5 = 10 ∧
    (∃ p c k : ℤ, (10 : ℚ) ^ (p + (1 : Nat) - 1) ≤ |9.5| ∧ |(9.5 : ℚ)| < 10 ^ (p + (1 : Nat)) ∧
      (10 : ℚ) = c * 10 ^ p ∧ (9 : ℚ) = k * 10 ^ p ∧ Even c ∧ Odd k) ∧
    (-9.5 : Float).isFinite = true ∧ roundSignificant 1 (-9.5) = -10 := by
  obtain ⟨hround, _, _, _, hcarry, hdouble⟩ := rounded_to_digits 1 le_rfl
  have hnine : Writable 1 9 := ⟨9, 0, by norm_num, by norm_num⟩
  have hten : rounded 1 9.5 = 10 := by
    have h := hcarry 9.5 1 (by norm_num) (by norm_num)
    rwa [zpow_one] at h
  have heven := (hround 9.5).even 9 hnine
  rw [hten] at heven
  have hfinite : (-9.5 : Float).isFinite = true := rfl
  obtain ⟨negative, n, d, hratio, -, -, hread⟩ := hdouble (-9.5) hfinite
  have hhalves : (Binary64.ofFloat (-9.5)).ratio? = some (true, 19 * 2 ^ 48, 2 ^ 49) := by
    decide +kernel
  have hparts := hhalves.symm.trans hratio
  simp only [Option.some.injEq, Prod.mk.injEq] at hparts
  obtain ⟨rfl, rfl, rfl⟩ := hparts
  refine ⟨le_rfl, hnine, hten, heven (by norm_num) (by norm_num [abs_of_nonneg, abs_of_neg]),
    hfinite, hread.trans ?_⟩
  rfl

end Decimal

end SymbolAtlas
