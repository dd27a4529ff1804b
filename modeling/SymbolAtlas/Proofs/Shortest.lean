import SymbolAtlas.Decimal.Shortest
import SymbolAtlas.Proofs.FloatOrder
import SymbolAtlas.Proofs.Quoting

/-!
The shortest decimal of a double is read back as that double. Seventeen digits are always enough,
and every decimal in the span of a double rounds to its pattern.
-/

set_option autoImplicit false

namespace SymbolAtlas

/-- A quotient within half a unit of a whole number is rounded to it, on the edge only if the number
is even. -/
theorem roundDiv_eq {n d m : Nat} (hd : 0 < d) (hlow : 2 * (d * m) ≤ 2 * n + d)
    (hhigh : 2 * n ≤ 2 * (d * m) + d)
    (hodd : m % 2 = 1 → 2 * (d * m) < 2 * n + d ∧ 2 * n < 2 * (d * m) + d) :
    roundDiv n d = m := by
  have hsum := Nat.div_add_mod n d
  have hrest := Nat.mod_lt n hd
  have hle : n / d ≤ m := by
    by_contra hlt
    have hmul : d * (m + 1) ≤ d * (n / d) := Nat.mul_le_mul_left d (by omega)
    rw [Nat.mul_succ] at hmul
    omega
  have hge : m ≤ n / d + 1 := by
    by_contra hlt
    have hmul : d * (n / d + 2) ≤ d * m := Nat.mul_le_mul_left d (by omega)
    rw [Nat.mul_add] at hmul
    omega
  simp only [roundDiv]
  rcases (show n / d = m ∨ m = n / d + 1 by omega) with heq | heq
  · rw [heq] at hsum ⊢
    split
    · rfl
    · split
      · omega
      · split
        · rfl
        · have := hodd (by omega)
          omega
  · have hmul : d * m = d * (n / d) + d := by rw [heq, Nat.mul_succ]
    split
    · omega
    · split
      · omega
      · split
        · have := hodd (by omega)
          omega
        · omega

theorem roundDiv_eq_of_near {n d m : Nat} (hd : 0 < d) (hlow : (m : ℚ) - 1 / 2 ≤ (n : ℚ) / d)
    (hhigh : (n : ℚ) / d ≤ m + 1 / 2)
    (hodd : m % 2 = 1 → (m : ℚ) - 1 / 2 < (n : ℚ) / d ∧ (n : ℚ) / d < m + 1 / 2) :
    roundDiv n d = m := by
  have hq : (0 : ℚ) < d := by exact_mod_cast hd
  apply roundDiv_eq hd
  · rw [le_div_iff₀ hq] at hlow
    have h : 2 * ((d : ℚ) * m) ≤ 2 * n + d := by linarith
    exact_mod_cast h
  · rw [div_le_iff₀ hq] at hhigh
    have h : 2 * (n : ℚ) ≤ 2 * (d * m) + d := by linarith
    exact_mod_cast h
  · intro hm
    obtain ⟨hlt, hgt⟩ := hodd hm
    rw [lt_div_iff₀ hq] at hlt
    rw [div_lt_iff₀ hq] at hgt
    constructor
    · have h : 2 * ((d : ℚ) * m) < 2 * n + d := by linarith
      exact_mod_cast h
    · have h : 2 * (n : ℚ) < 2 * (d * m) + d := by linarith
      exact_mod_cast h

/-! ## The span of a double -/

namespace Binary64

structure Canonical (m : Nat) (e : Int) : Prop where
  fits : m < 2 ^ 53
  least : -1074 ≤ e
  last : e ≤ 971
  fills : -1074 < e → 2 ^ 52 ≤ m

/-- How far below a double the values reach that round to it, in units. Below a power of two the
doubles are twice as dense. -/
def reach (m : Nat) (e : Int) : ℚ := if m = 2 ^ 52 ∧ -1074 < e then 1 / 4 else 1 / 2

theorem reach_bounds (m : Nat) (e : Int) : 1 / 4 ≤ reach m e ∧ reach m e ≤ 1 / 2 := by
  unfold reach
  split <;> norm_num

def Rounds (m : Nat) (e : Int) (x : ℚ) : Prop :=
  if m % 2 = 0 then (m - reach m e) * 2 ^ e ≤ x ∧ x ≤ (m + 1 / 2) * 2 ^ e
  else (m - reach m e) * 2 ^ e < x ∧ x < (m + 1 / 2) * 2 ^ e

namespace Rounds

variable {m : Nat} {e : Int} {x : ℚ} (h : Rounds m e x)

include h

theorem low : (m - reach m e) * 2 ^ e ≤ x := by
  unfold Rounds at h
  split at h
  · exact h.1
  · exact h.1.le

theorem high : x ≤ (m + 1 / 2) * 2 ^ e := by
  unfold Rounds at h
  split at h
  · exact h.2
  · exact h.2.le

theorem half_low : (m - 1 / 2) * 2 ^ e ≤ x := by
  have hp : (0 : ℚ) < 2 ^ e := by positivity
  refine le_trans (mul_le_mul_of_nonneg_right ?_ hp.le) h.low
  linarith [(reach_bounds m e).2]

theorem odd (hm : m % 2 = 1) : (m - 1 / 2) * 2 ^ e < x ∧ x < (m + 1 / 2) * 2 ^ e := by
  have hp : (0 : ℚ) < 2 ^ e := by positivity
  rw [Rounds, if_neg (by omega)] at h
  refine ⟨lt_of_le_of_lt (mul_le_mul_of_nonneg_right ?_ hp.le) h.1, h.2⟩
  linarith [(reach_bounds m e).2]

theorem pos (hm : 0 < m) : 0 < x := by
  have hm' : (1 : ℚ) ≤ m := by exact_mod_cast hm
  have hp : (0 : ℚ) < 2 ^ e := by positivity
  calc (0 : ℚ) < (m - 1 / 2) * 2 ^ e := mul_pos (by linarith) hp
    _ ≤ x := h.half_low

theorem least (hcanonical : Canonical m e) (hm : 0 < m) : 1 / 2 * 2 ^ (-1074 : Int) ≤ x := by
  have hm' : (1 : ℚ) ≤ m := by exact_mod_cast hm
  have hunit : (2 : ℚ) ^ (-1074 : Int) ≤ 2 ^ e :=
    zpow_le_zpow_right₀ (by norm_num) hcanonical.least
  calc (1 / 2 : ℚ) * 2 ^ (-1074 : Int)
      ≤ (m - 1 / 2) * 2 ^ e := mul_le_mul (by linarith) hunit (by positivity) (by linarith)
    _ ≤ x := h.half_low

theorem most (hcanonical : Canonical m e) : x ≤ 2 ^ 53 * 2 ^ (971 : Int) := by
  have hm' : (m : ℚ) + 1 ≤ 2 ^ 53 := by exact_mod_cast hcanonical.fits
  have hunit : (2 : ℚ) ^ e ≤ 2 ^ (971 : Int) := zpow_le_zpow_right₀ (by norm_num) hcanonical.last
  calc x ≤ (m + 1 / 2) * 2 ^ e := h.high
    _ ≤ 2 ^ 53 * 2 ^ (971 : Int) := mul_le_mul (by linarith) hunit (by positivity) (by positivity)

end Rounds

theorem rounds_of_close {m : Nat} {e : Int} {x : ℚ} (hlow : (m - reach m e) * 2 ^ e < x)
    (hhigh : x < (m + 1 / 2) * 2 ^ e) : Rounds m e x := by
  unfold Rounds
  split
  · exact ⟨hlow.le, hhigh.le⟩
  · exact ⟨hlow, hhigh⟩

theorem rounds_of_half_step {m : Nat} {e : Int} {x step : ℚ} (hlow : m * 2 ^ e - step / 2 ≤ x)
    (hhigh : x ≤ m * 2 ^ e + step / 2) (hclose : step / 2 < reach m e * 2 ^ e) :
    Rounds m e x := by
  have hp : (0 : ℚ) < 2 ^ e := by positivity
  have hhalf : reach m e * 2 ^ e ≤ 1 / 2 * 2 ^ e :=
    mul_le_mul_of_nonneg_right (reach_bounds m e).2 hp.le
  apply rounds_of_close
  · linarith
  · linarith

theorem holds_iff (s : Span) {n d : Nat} (hd : 0 < d) :
    s.holds n d = true ↔
      if s.closed then (s.low : ℚ) ≤ n / d ∧ (n : ℚ) / d ≤ s.high
      else (s.low : ℚ) < n / d ∧ (n : ℚ) / d < s.high := by
  have hq : (0 : ℚ) < d := by exact_mod_cast hd
  simp only [le_div_iff₀ hq, div_le_iff₀ hq, lt_div_iff₀ hq, div_lt_iff₀ hq]
  unfold Span.holds
  split
  · rw [Bool.and_eq_true, decide_eq_true_eq, decide_eq_true_eq]
    exact_mod_cast Iff.rfl
  · rw [Bool.and_eq_true, decide_eq_true_eq, decide_eq_true_eq]
    exact_mod_cast Iff.rfl

end Binary64

namespace Decimal

def value (x : Decimal) : ℚ := x.coefficient * 10 ^ x.exponent

theorem coefficient_pos {x : Decimal} (h : 0 < x.value) : 0 < x.coefficient := by
  rcases Nat.eq_zero_or_pos x.coefficient with hzero | hpos
  · simp [value, hzero] at h
  · exact hpos

theorem ratio_pos (x : Decimal) : 0 < x.ratio.2 := by
  rw [ratio]
  split
  · exact Nat.one_pos
  · exact Nat.pow_pos (by decide)

theorem ratio_value (x : Decimal) : (x.ratio.1 : ℚ) / x.ratio.2 = x.value := by
  rw [ratio, value]
  split
  · next h =>
    obtain ⟨k, hk⟩ := Int.eq_ofNat_of_zero_le h
    simp [hk]
  · next h =>
    obtain ⟨k, hk⟩ := Int.eq_ofNat_of_zero_le (show 0 ≤ -x.exponent by omega)
    have he : x.exponent = -(k : Int) := by omega
    simp [he, div_eq_mul_inv]

end Decimal

namespace Binary64

theorem quarter (e : Int) : (2 : ℚ) ^ e = 4 * 2 ^ (e - 2) := by
  rw [show e = (e - 2) + 1 + 1 by omega, zpow_two_succ, zpow_two_succ]
  rw [show e - 2 + 1 + 1 - 2 = e - 2 by omega]
  ring

theorem span_ends {m : Nat} (hm : 0 < m) (e : Int) :
    ((span m e).low : ℚ) = 4 * (m - reach m e) ∧ ((span m e).high : ℚ) = 4 * (m + 1 / 2) := by
  have hlow : (span m e).low = 4 * m - if m = 2 ^ 52 ∧ -1074 < e then 1 else 2 := rfl
  have hhigh : (span m e).high = 4 * m + 2 := rfl
  rw [hlow, hhigh, reach]
  constructor
  · split
    · rw [Nat.cast_sub (by omega)]
      push_cast
      ring
    · rw [Nat.cast_sub (by omega)]
      push_cast
      ring
  · push_cast
    ring

theorem readsBack_iff {m : Nat} (hm : 0 < m) {e : Int} {x : Decimal} :
    readsBack m e x = true ↔ Rounds m e x.value := by
  have hpos := scaleDown_pos x.ratio.1 x.ratio_pos (show 0 < 2 by decide) (e - 2)
  have hvalue := scaleDown_ratio x.ratio.1 x.ratio.2 2 (e - 2)
  rw [x.ratio_value, Nat.cast_two] at hvalue
  have hunfold : readsBack m e x = (span m e).holds (scaleDown x.ratio.1 x.ratio.2 2 (e - 2)).1
    (scaleDown x.ratio.1 x.ratio.2 2 (e - 2)).2 := rfl
  have hclosed : (span m e).closed = decide (m % 2 = 0) := rfl
  have hp : (0 : ℚ) < 2 ^ (e - 2) := by positivity
  obtain ⟨hlow, hhigh⟩ := span_ends hm e
  have hunits : ∀ a : ℚ, 4 * a * 2 ^ (e - 2) = a * 2 ^ e := by
    intro a
    rw [quarter e]
    ring
  rw [hunfold, holds_iff _ hpos, hvalue, hclosed, hlow, hhigh, le_div_iff₀ hp, div_le_iff₀ hp,
    lt_div_iff₀ hp, div_lt_iff₀ hp, hunits, hunits, Rounds]
  simp only [decide_eq_true_eq]

/-! ## The nearest double -/

section Nearest

variable {m : Nat} {e : Int} {n d : Nat}

/-- A value that rounds to a double is looked for at its exponent, or one below where the doubles
get dense. -/
theorem gridExponent_of_rounds (h : Canonical m e) (hn : 0 < n) (hd : 0 < d)
    (hx : Rounds m e ((n : ℚ) / d)) :
    gridExponent n d = e ∨ gridExponent n d = e - 1 ∧ -1074 < e ∧ m = 2 ^ 52 := by
  obtain ⟨hfit, hfill⟩ := gridExponent_bounds hn hd
  obtain ⟨k, hk, -⟩ := gridExponent_eq_max hn hd
  have hleast : -1074 ≤ gridExponent n d := hk ▸ le_max_left _ _
  have hlow := hx.half_low
  have hhigh := hx.high
  have hp : (0 : ℚ) < 2 ^ e := by positivity
  have hm53 : (m : ℚ) + 1 ≤ 2 ^ 53 := by exact_mod_cast h.fits
  have hle : gridExponent n d ≤ e := by
    by_contra hlt
    have hge := hfill (show -1074 < gridExponent n d by have := h.least; omega)
    have hnext : (2 : ℚ) * 2 ^ e ≤ 2 ^ gridExponent n d := by
      rw [← zpow_two_succ]
      exact zpow_le_zpow_right₀ (by norm_num) (by omega)
    nlinarith
  have hm52 : -1074 < e → (2 : ℚ) ^ 52 ≤ m := fun he => by exact_mod_cast h.fills he
  have hge : e - 1 ≤ gridExponent n d := by
    by_contra hlt
    have hm' := hm52 (by omega)
    have hnext : (4 : ℚ) * 2 ^ gridExponent n d ≤ 2 ^ e := by
      rw [quarter e]
      exact mul_le_mul_of_nonneg_left (zpow_le_zpow_right₀ (by norm_num) (by omega)) (by norm_num)
    nlinarith
  rcases hle.eq_or_lt with heq | hlt
  · exact .inl heq
  · have hgrid : gridExponent n d = e - 1 := by omega
    refine .inr ⟨hgrid, by omega, ?_⟩
    have hfull : 2 ^ 52 ≤ m := h.fills (by omega)
    by_contra hne
    have hm' : (2 : ℚ) ^ 52 + 1 ≤ m := by
      exact_mod_cast (show 2 ^ 52 + 1 ≤ m by omega)
    have hnext : (2 : ℚ) ^ e = 2 * 2 ^ gridExponent n d := by
      rw [hgrid, ← zpow_two_succ, sub_add_cancel]
    nlinarith

theorem nearestMantissa_eq {k : Nat} {t : Int} (hd : 0 < d) (ht : gridExponent n d = t)
    (hlow : (k - 1 / 2) * 2 ^ t ≤ (n : ℚ) / d) (hhigh : (n : ℚ) / d ≤ (k + 1 / 2) * 2 ^ t)
    (hodd : k % 2 = 1 →
      (k - 1 / 2) * 2 ^ t < (n : ℚ) / d ∧ (n : ℚ) / d < (k + 1 / 2) * 2 ^ t) :
    nearestMantissa n d = k := by
  have hpos := scaleDown_pos n hd (show 0 < 2 by decide) t
  have hratio := scaleDown_ratio n d 2 t
  have hp : (0 : ℚ) < 2 ^ t := by positivity
  rw [Nat.cast_two] at hratio
  rw [nearestMantissa, ht]
  apply roundDiv_eq_of_near hpos
  · rw [hratio, le_div_iff₀ hp]
    exact hlow
  · rw [hratio, div_le_iff₀ hp]
    exact hhigh
  · rw [hratio, lt_div_iff₀ hp, div_lt_iff₀ hp]
    exact hodd

/-- Whatever rounds to a double has its pattern as the nearest one. -/
theorem toBits_nearest_of_rounds (h : Canonical m e) (hm : 0 < m) (hd : 0 < d)
    (hx : Rounds m e ((n : ℚ) / d)) : (nearest n d).toBits = (finite false m e).toBits := by
  have hlast := h.last
  have hn : 0 < n := by
    rcases Nat.eq_zero_or_pos n with rfl | hn
    · simpa using hx.pos hm
    · exact hn
  rcases gridExponent_of_rounds h hn hd hx with hgrid | ⟨hgrid, he, rfl⟩
  · have hmantissa := nearestMantissa_eq hd hgrid hx.half_low hx.high hx.odd
    have hrange : ¬ (971 ≤ e ∧ 2 ^ 53 ≤ m * 2 ^ (e - 971).toNat) := by
      rintro ⟨hle, hover⟩
      have hzero : (e - 971).toNat = 0 := by omega
      have hfits := h.fits
      rw [hzero, pow_zero, mul_one] at hover
      omega
    rw [nearest_eq hn, hmantissa, hgrid, if_neg hrange]
  · -- The mantissa is rounded up to the next power of two, which has the same pattern.
    have hunit : (2 : ℚ) ^ e = 2 * 2 ^ (e - 1) := by
      rw [← zpow_two_succ, sub_add_cancel]
    have hp : (0 : ℚ) < 2 ^ (e - 1) := by positivity
    have hreach : reach (2 ^ 52) e = 1 / 4 := if_pos ⟨rfl, he⟩
    have hlow := hx.low
    have hfit := (gridExponent_bounds hn hd).1
    rw [hreach, hunit] at hlow
    rw [hgrid] at hfit
    push_cast at hlow
    have hmantissa : nearestMantissa n d = 2 ^ 53 := by
      refine nearestMantissa_eq hd hgrid ?_ ?_ fun hodd => ?_
      · push_cast
        linarith
      · push_cast
        linarith
      · norm_num at hodd
    have hrange : ¬ (971 ≤ e - 1 ∧ 2 ^ 53 ≤ 2 ^ 53 * 2 ^ (e - 1 - 971).toNat) := by
      rintro ⟨hle, -⟩
      omega
    rw [nearest_eq hn, hmantissa, hgrid, if_neg hrange]
    have hbits : (e + 1074).toNat = (e - 1 + 1074).toNat + 1 := by omega
    simp only [toBits, signBits, Bool.false_eq_true, if_false, hbits]
    norm_num
    ring

end Nearest

end Binary64

/-! ## Decimals -/

theorem digitCount_bounds {n : Nat} (hn : 0 < n) :
    10 ^ (digitCount n - 1) ≤ n ∧ n < 10 ^ digitCount n := by
  have hpos : 0 < digitCount n := Nat.length_toDigits_pos
  constructor
  · rcases Nat.lt_or_ge 1 (digitCount n) with hmany | hone
    · by_contra hlt
      have hle : digitCount n ≤ digitCount n - 1 :=
        (Nat.length_toDigits_le_iff (by decide) (by omega)).2 (not_le.1 hlt)
      omega
    · rw [show digitCount n - 1 = 0 by omega, pow_zero]
      exact hn
  · exact (Nat.length_toDigits_le_iff (by decide) hpos).1 le_rfl

theorem zpow_leadingPlace_le {n d : Nat} (hn : 0 < n) (hd : 0 < d) :
    (10 : ℚ) ^ leadingPlace n d ≤ (n : ℚ) / d := by
  have hq : (0 : ℚ) < d := by exact_mod_cast hd
  unfold leadingPlace
  split
  · next hle =>
    have hpos : 0 < digitCount (n / d) := Nat.length_toDigits_pos
    have hlow := (digitCount_bounds (Nat.div_pos hle hd)).1
    calc (10 : ℚ) ^ ((digitCount (n / d) : Int) - 1)
        = ((10 ^ (digitCount (n / d) - 1) : Nat) : ℚ) := by
          rw [show (digitCount (n / d) : Int) - 1 = ((digitCount (n / d) - 1 : Nat) : Int) by omega,
            zpow_natCast]
          push_cast
          rfl
      _ ≤ ((n / d : Nat) : ℚ) := by exact_mod_cast hlow
      _ ≤ (n : ℚ) / d := Nat.cast_div_le
  · next hlt =>
    -- The denominator is at most the next whole number of numerators.
    have hceil : d ≤ n * ((d + n - 1) / n) := by
      have hsum := Nat.div_add_mod (d + n - 1) n
      have hrest := Nat.mod_lt (d + n - 1) hn
      omega
    have htwo : 2 ≤ (d + n - 1) / n := by
      rw [Nat.le_div_iff_mul_le hn]
      omega
    have hhigh := (digitCount_bounds (show 0 < (d + n - 1) / n - 1 by omega)).2
    have hmul : d ≤ n * 10 ^ digitCount ((d + n - 1) / n - 1) :=
      hceil.trans (Nat.mul_le_mul_left n (by omega))
    have hmul' : (d : ℚ) ≤ n * 10 ^ digitCount ((d + n - 1) / n - 1) := by exact_mod_cast hmul
    rw [zpow_neg, zpow_natCast, le_div_iff₀ hq, inv_mul_le_iff₀ (by positivity), mul_comm]
    exact hmul'

namespace Decimal

theorem value_bounds {x : Decimal} (hx : 0 < x.coefficient) :
    (10 : ℚ) ^ ((digitCount x.coefficient : Int) + x.exponent - 1) ≤ x.value ∧
      x.value < 10 ^ ((digitCount x.coefficient : Int) + x.exponent) := by
  obtain ⟨hlow, hhigh⟩ := digitCount_bounds hx
  have hpos : 0 < digitCount x.coefficient := Nat.length_toDigits_pos
  have hp : (0 : ℚ) < 10 ^ x.exponent := by positivity
  have hlow' : (10 : ℚ) ^ (digitCount x.coefficient - 1) ≤ x.coefficient := by exact_mod_cast hlow
  have hhigh' : (x.coefficient : ℚ) < 10 ^ digitCount x.coefficient := by exact_mod_cast hhigh
  constructor
  · rw [show (digitCount x.coefficient : Int) + x.exponent - 1 =
      ((digitCount x.coefficient - 1 : Nat) : Int) + x.exponent by omega,
      zpow_add₀ (by norm_num), zpow_natCast, value]
    exact mul_le_mul_of_nonneg_right hlow' hp.le
  · rw [zpow_add₀ (by norm_num), zpow_natCast, value]
    exact mul_lt_mul_of_pos_right hhigh' hp

theorem near_zero : (10 : ℚ) ^ (-401 : Int) < 1 / 2 * 2 ^ (-1074 : Int) := by
  have hgap : 2 * 2 ^ 1074 < 10 ^ 401 := by decide +kernel
  have hgap' : (2 : ℚ) * 2 ^ 1074 < 10 ^ 401 := by exact_mod_cast hgap
  rw [zpow_neg, zpow_neg, one_div, ← mul_inv]
  exact inv_strictAnti₀ (by positivity) hgap'

theorem near_infinity : (2 : ℚ) ^ 53 * 2 ^ (971 : Int) < 10 ^ (400 : Int) := by
  have hgap : 2 ^ 53 * 2 ^ 971 < 10 ^ 400 := by decide +kernel
  exact_mod_cast hgap

theorem toBits_toBinary64_of_rounds {m : Nat} {e : Int} (h : Binary64.Canonical m e) (hm : 0 < m)
    {x : Decimal} (hx : Binary64.Rounds m e x.value) :
    x.toBinary64.toBits = (Binary64.finite false m e).toBits := by
  have hcoefficient := coefficient_pos (hx.pos hm)
  obtain ⟨hlow, hhigh⟩ := value_bounds hcoefficient
  have hnear : ¬ (x.coefficient = 0 ∨
      (digitCount x.coefficient : Int) + x.exponent < -farPlace) := by
    rintro (hzero | hfar)
    · omega
    · have hfar' : (digitCount x.coefficient : Int) + x.exponent ≤ -401 := by
        simp only [farPlace] at hfar
        omega
      have hsmall : x.value < 10 ^ (-401 : Int) :=
        hhigh.trans_le (zpow_le_zpow_right₀ (by norm_num) hfar')
      exact absurd (hx.least h hm) (not_le.2 (hsmall.trans near_zero))
  have hfar : ¬ farPlace < (digitCount x.coefficient : Int) + x.exponent := by
    intro hfar
    have hfar' : (400 : Int) ≤ (digitCount x.coefficient : Int) + x.exponent - 1 := by
      simp only [farPlace] at hfar
      omega
    have hlarge : (10 : ℚ) ^ (400 : Int) ≤ x.value :=
      (zpow_le_zpow_right₀ (by norm_num) hfar').trans hlow
    exact absurd (hlarge.trans (hx.most h)) (not_le.2 near_infinity)
  rw [toBinary64, if_neg hnear, if_neg hfar]
  apply Binary64.toBits_nearest_of_rounds h hm x.ratio_pos
  rw [x.ratio_value]
  exact hx

end Decimal

/-! ## The shortest decimal -/

namespace Binary64

section Shortest

variable {m : Nat} {e : Int} {n d : Nat}

/-- Half a step of the grid of seventeen digits stays within the span. -/
theorem half_step_lt_reach (h : Canonical m e) (hn : 0 < n) (hd : 0 < d)
    (hvalue : (n : ℚ) / d = m * 2 ^ e) :
    (10 : ℚ) ^ (leadingPlace n d - 16) / 2 < reach m e * 2 ^ e := by
  have hplace := zpow_leadingPlace_le hn hd
  have hp : (0 : ℚ) < 2 ^ e := by positivity
  have hstep : (10 : ℚ) ^ leadingPlace n d = 10 ^ 16 * 10 ^ (leadingPlace n d - 16) := by
    rw [zpow_sub₀ (by norm_num)]
    norm_num
    ring
  have hm53 : (m : ℚ) + 1 ≤ 2 ^ 53 := by exact_mod_cast h.fits
  rw [hvalue] at hplace
  unfold reach
  split
  · next hdense =>
    have hm52 : (m : ℚ) = 2 ^ 52 := by exact_mod_cast hdense.1
    rw [hm52] at hplace
    linarith
  · nlinarith

/-- On the grid of seventeen digits the nearest decimal reads back. -/
theorem exists_neighbour (h : Canonical m e) (hm : 0 < m) (hn : 0 < n) (hd : 0 < d)
    (hvalue : (n : ℚ) / d = m * 2 ^ e) :
    ∃ x, neighbour? m e n d (leadingPlace n d - 16) = some x := by
  have hpos := scaleDown_pos n hd (show 0 < 10 by decide) (leadingPlace n d - 16)
  obtain ⟨hlow, hhigh⟩ := roundDiv_bounds (scaleDown n d 10 (leadingPlace n d - 16)).1 hpos
  have hstep : (0 : ℚ) < 10 ^ (leadingPlace n d - 16) := by positivity
  have hclose := half_step_lt_reach h hn hd hvalue
  rw [scaleDown_ratio, hvalue, Nat.cast_ofNat] at hlow hhigh
  refine Option.isSome_iff_exists.1 (List.find?_isSome.2 ⟨_, List.mem_cons_self, ?_⟩)
  rw [readsBack_iff hm]
  refine rounds_of_half_step ?_ ?_ hclose
  · have hscaled := mul_le_mul_of_nonneg_right hlow hstep.le
    rw [sub_mul, div_mul_cancel₀ _ hstep.ne', one_div_mul_eq_div] at hscaled
    exact hscaled
  · have hscaled := mul_le_mul_of_nonneg_right hhigh hstep.le
    rw [add_mul, div_mul_cancel₀ _ hstep.ne', one_div_mul_eq_div] at hscaled
    exact hscaled

def attempts (m : Nat) (e : Int) (n d : Nat) : List Decimal :=
  (List.range enoughDigits).filterMap fun k => neighbour? m e n d (leadingPlace n d - k)

theorem readsBack_of_mem_attempts {x : Decimal} (h : x ∈ attempts m e n d) :
    readsBack m e x = true := by
  obtain ⟨k, _, hk⟩ := List.mem_filterMap.1 h
  exact List.find?_some hk

theorem shortest_eq (m : Nat) (e : Int) :
    shortest m e =
      (attempts m e (scaleDown m 1 2 (-e)).1 (scaleDown m 1 2 (-e)).2).head?.getD
        (.significant enoughDigits (scaleDown m 1 2 (-e)).1 (scaleDown m 1 2 (-e)).2) :=
  rfl

theorem rounds_shortest (h : Canonical m e) (hm : 0 < m) : Rounds m e (shortest m e).value := by
  have hpos := scaleDown_pos m one_pos (show 0 < 2 by decide) (-e)
  have hvalue : ((scaleDown m 1 2 (-e)).1 : ℚ) / (scaleDown m 1 2 (-e)).2 = m * 2 ^ e := by
    rw [scaleDown_ratio]
    simp [zpow_neg]
  have hn : 0 < (scaleDown m 1 2 (-e)).1 := by
    unfold scaleDown
    split
    · exact hm
    · exact Nat.mul_pos hm (Nat.pow_pos (by decide))
  obtain ⟨x, hx⟩ := exists_neighbour h hm hn hpos hvalue
  have hmem : x ∈ attempts m e (scaleDown m 1 2 (-e)).1 (scaleDown m 1 2 (-e)).2 :=
    List.mem_filterMap.2 ⟨16, by decide, hx⟩
  rw [← readsBack_iff hm, shortest_eq]
  cases htries : attempts m e (scaleDown m 1 2 (-e)).1 (scaleDown m 1 2 (-e)).2 with
  | nil =>
    rw [htries] at hmem
    cases hmem
  | cons y rest =>
    apply readsBack_of_mem_attempts
    rw [htries]
    exact List.mem_cons_self

end Shortest

end Binary64

end SymbolAtlas
