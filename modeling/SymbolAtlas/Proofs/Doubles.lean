import Mathlib.Algebra.Order.Field.Basic
import Mathlib.Algebra.Order.Field.Power
import Mathlib.Data.Rat.Cast.Order
import Mathlib.Tactic.FieldSimp
import Mathlib.Tactic.Linarith
import Mathlib.Tactic.NormNum
import Mathlib.Tactic.Ring
import SymbolAtlas.Arithmetic

/-!
Doubles against exact quotients: where the nearest double overflows, which doubles can be cut to
whole numbers, and that a quotient of natural numbers is never negative as a double.
-/

set_option autoImplicit false

namespace SymbolAtlas

theorem scaleDown_ratio (n d base : Nat) (e : Int) :
    ((scaleDown n d base e).1 : ℚ) / (scaleDown n d base e).2 = (n : ℚ) / d / (base : ℚ) ^ e := by
  by_cases he : 0 ≤ e
  · obtain ⟨k, rfl⟩ := Int.eq_ofNat_of_zero_le he
    simp [scaleDown, div_div]
  · obtain ⟨k, hk⟩ := Int.eq_ofNat_of_zero_le (show 0 ≤ -e by omega)
    have hek : e = -(k : Int) := by omega
    subst hek
    simp only [scaleDown, he, if_false, neg_neg, Int.toNat_natCast, Nat.cast_mul, Nat.cast_pow,
      zpow_neg, zpow_natCast, div_inv_eq_mul]
    ring

theorem scaleDown_pos (n : Nat) {d base : Nat} (hd : 0 < d) (hb : 0 < base) (e : Int) :
    0 < (scaleDown n d base e).2 := by
  by_cases he : 0 ≤ e
  · simp only [scaleDown, he, if_true]
    exact Nat.mul_pos hd (Nat.pow_pos hb)
  · simpa [scaleDown, he] using hd

theorem roundDiv_bounds (n : Nat) {d : Nat} (hd : 0 < d) :
    (n : ℚ) / d - 1 / 2 ≤ roundDiv n d ∧ (roundDiv n d : ℚ) ≤ n / d + 1 / 2 := by
  obtain ⟨hlo, hhi⟩ := roundDiv_near n d hd
  have hq : (0 : ℚ) < d := by exact_mod_cast hd
  have hlo' : 2 * (n : ℚ) ≤ 2 * d * roundDiv n d + d := by exact_mod_cast hlo
  have hhi' : 2 * (d : ℚ) * roundDiv n d ≤ 2 * n + d := by exact_mod_cast hhi
  constructor
  · rw [sub_le_iff_le_add, div_le_iff₀ hq]
    linarith
  · rw [← sub_le_iff_le_add, le_div_iff₀ hq]
    linarith

/-- Half a step below an even number already rounds up to it. -/
theorem le_roundDiv_of_even {n d k : Nat} (hd : 0 < d) (hk : k % 2 = 0)
    (h : 2 * (k * d) ≤ 2 * n + d) : k ≤ roundDiv n d := by
  have hm := Nat.div_add_mod n d
  have hr := Nat.mod_lt n hd
  have hge : n / d ≤ roundDiv n d := by
    simp only [roundDiv]
    split
    · exact le_rfl
    · split
      · omega
      · split <;> omega
  by_cases hkq : k ≤ n / d
  · exact hkq.trans hge
  · have hnext : k = n / d + 1 := by
      by_contra hne
      have hfar := Nat.mul_le_mul_right d (show n / d + 2 ≤ k by omega)
      have hexp : (n / d + 2) * d = d * (n / d) + 2 * d := by ring
      omega
    have hexp : k * d = d * (n / d) + d := by
      rw [hnext]
      ring
    have hup : d ≤ 2 * (n % d) := by omega
    simp only [roundDiv]
    split
    · omega
    · split
      · omega
      · split <;> omega

namespace Binary64

theorem ratio_lt_zpow_log2 {n d : Nat} (hd : 0 < d) :
    (n : ℚ) / d < 2 ^ ((n.log2 : Int) - d.log2 + 1) := by
  have hn : (n : ℚ) < 2 ^ (n.log2 + 1) := by exact_mod_cast Nat.lt_log2_self
  have hdl : (2 : ℚ) ^ d.log2 ≤ d := by exact_mod_cast Nat.log2_self_le hd.ne'
  have hq : (0 : ℚ) < d := by exact_mod_cast hd
  rw [div_lt_iff₀ hq]
  calc (n : ℚ) < 2 ^ (n.log2 + 1) := hn
    _ = 2 ^ ((n.log2 : Int) - d.log2 + 1) * 2 ^ d.log2 := by
        rw [← zpow_natCast, ← zpow_natCast, ← zpow_add₀ (by norm_num)]
        congr 1
        push_cast
        ring
    _ ≤ 2 ^ ((n.log2 : Int) - d.log2 + 1) * d :=
        mul_le_mul_of_nonneg_left hdl (by positivity)

theorem zpow_log2_lt_ratio {n d : Nat} (hn : 0 < n) (hd : 0 < d) :
    (2 : ℚ) ^ ((n.log2 : Int) - d.log2 - 1) < n / d := by
  have hnl : (2 : ℚ) ^ n.log2 ≤ n := by exact_mod_cast Nat.log2_self_le hn.ne'
  have hdl : (d : ℚ) < 2 ^ (d.log2 + 1) := by exact_mod_cast Nat.lt_log2_self
  have hq : (0 : ℚ) < d := by exact_mod_cast hd
  rw [lt_div_iff₀ hq]
  calc (2 : ℚ) ^ ((n.log2 : Int) - d.log2 - 1) * d
      < 2 ^ ((n.log2 : Int) - d.log2 - 1) * 2 ^ (d.log2 + 1) :=
        mul_lt_mul_of_pos_left hdl (by positivity)
    _ = 2 ^ n.log2 := by
        rw [← zpow_natCast, ← zpow_natCast, ← zpow_add₀ (by norm_num)]
        congr 1
        push_cast
        ring
    _ ≤ n := hnl

theorem scaleDown_div_lt_iff (n : Nat) {d : Nat} (hd : 0 < d) (e : Int) :
    (scaleDown n d 2 e).1 / (scaleDown n d 2 e).2 < 2 ^ 52 ↔ (n : ℚ) / d / 2 ^ e < 2 ^ 52 := by
  have hpos := scaleDown_pos n hd (show 0 < 2 by decide) e
  have hratio := scaleDown_ratio n d 2 e
  rw [Nat.cast_two] at hratio
  rw [Nat.div_lt_iff_lt_mul hpos, ← hratio, div_lt_iff₀ (by exact_mod_cast hpos)]
  exact_mod_cast Iff.rfl

/-- The chosen power of two is the least one, or the one at which a quotient fills 53 bits. -/
theorem gridExponent_eq_max {n d : Nat} (hn : 0 < n) (hd : 0 < d) :
    ∃ k, gridExponent n d = max leastExponent k ∧
      2 ^ 52 * 2 ^ k ≤ (n : ℚ) / d ∧ (n : ℚ) / d < 2 ^ 53 * 2 ^ k := by
  have hup := ratio_lt_zpow_log2 (n := n) hd
  have hlo := zpow_log2_lt_ratio hn hd
  have hfloor := scaleDown_div_lt_iff n hd ((n.log2 : Int) - d.log2 - 52)
  have hgrid : gridExponent n d = max leastExponent
      (if (scaleDown n d 2 ((n.log2 : Int) - d.log2 - 52)).1 /
          (scaleDown n d 2 ((n.log2 : Int) - d.log2 - 52)).2 < 2 ^ 52
        then (n.log2 : Int) - d.log2 - 52 - 1 else (n.log2 : Int) - d.log2 - 52) := rfl
  rw [show (n.log2 : Int) - d.log2 + 1 = (53 : Nat) + ((n.log2 : Int) - d.log2 - 52) by omega,
    zpow_add₀ (by norm_num), zpow_natCast] at hup
  rw [show (n.log2 : Int) - d.log2 - 1 = (52 : Nat) + ((n.log2 : Int) - d.log2 - 52 - 1) by omega,
    zpow_add₀ (by norm_num), zpow_natCast] at hlo
  generalize (n.log2 : Int) - d.log2 - 52 = e at *
  have hpe : (0 : ℚ) < 2 ^ e := by positivity
  have hhalf : (2 : ℚ) ^ e = 2 * 2 ^ (e - 1) := by
    rw [zpow_sub_one₀ (by norm_num)]
    ring
  by_cases hsmall : (n : ℚ) / d / 2 ^ e < 2 ^ 52
  · rw [if_pos (hfloor.2 hsmall)] at hgrid
    rw [div_lt_iff₀ hpe] at hsmall
    exact ⟨e - 1, hgrid, hlo.le, by linarith⟩
  · rw [if_neg fun h => hsmall (hfloor.1 h)] at hgrid
    rw [not_lt, le_div_iff₀ hpe] at hsmall
    exact ⟨e, hgrid, hsmall, hup⟩

theorem gridExponent_bounds {n d : Nat} (hn : 0 < n) (hd : 0 < d) :
    (n : ℚ) / d < 2 ^ 53 * 2 ^ gridExponent n d ∧
      (leastExponent < gridExponent n d → 2 ^ 52 * 2 ^ gridExponent n d ≤ (n : ℚ) / d) := by
  obtain ⟨k, hk, hfill, hfit⟩ := gridExponent_eq_max hn hd
  constructor
  · have hpow : (2 : ℚ) ^ k ≤ 2 ^ gridExponent n d :=
      zpow_le_zpow_right₀ (by norm_num) (hk ▸ le_max_right _ _)
    linarith
  · intro hlt
    have heq : gridExponent n d = k := by omega
    rw [heq]
    exact hfill

def nearestMantissa (n d : Nat) : Nat :=
  roundDiv (scaleDown n d 2 (gridExponent n d)).1 (scaleDown n d 2 (gridExponent n d)).2

theorem nearest_eq {n : Nat} (hn : 0 < n) (d : Nat) :
    nearest n d =
      if 971 ≤ gridExponent n d ∧ 2 ^ 53 ≤ nearestMantissa n d * 2 ^ (gridExponent n d - 971).toNat
      then .infinite false else .finite false (nearestMantissa n d) (gridExponent n d) := by
  have hne : n ≠ 0 := hn.ne'
  simp only [nearest, hne, if_false, nearestMantissa]
  rfl

theorem nearestMantissa_bounds {n d : Nat} (hd : 0 < d) :
    (n : ℚ) / d / 2 ^ gridExponent n d - 1 / 2 ≤ nearestMantissa n d ∧
      (nearestMantissa n d : ℚ) ≤ n / d / 2 ^ gridExponent n d + 1 / 2 := by
  have hpos := scaleDown_pos n hd (show 0 < 2 by decide) (gridExponent n d)
  have h := roundDiv_bounds (scaleDown n d 2 (gridExponent n d)).1 hpos
  rwa [scaleDown_ratio, Nat.cast_two] at h

theorem nearestMantissa_le {n d : Nat} (hn : 0 < n) (hd : 0 < d) :
    nearestMantissa n d ≤ 2 ^ 53 := by
  have hfit := (gridExponent_bounds hn hd).1
  have hm := (nearestMantissa_bounds (n := n) hd).2
  have hpe : (0 : ℚ) < 2 ^ gridExponent n d := by positivity
  rw [← div_lt_iff₀ hpe] at hfit
  have hlt : (nearestMantissa n d : ℚ) < 2 ^ 53 + 1 := by linarith
  have hlt' : nearestMantissa n d < 2 ^ 53 + 1 := by exact_mod_cast hlt
  omega

/-- The least quotient that is out of range: half a step above the greatest double. -/
def overflow : ℚ := (2 ^ 54 - 1) * 2 ^ (970 : Int)

theorem zpow_two_succ (e : Int) : (2 : ℚ) ^ (e + 1) = 2 * 2 ^ e := by
  rw [zpow_add_one₀ (by norm_num), mul_comm]

theorem overflow_eq : overflow = (2 ^ 53 - 1 / 2) * 2 ^ (971 : Int) := by
  rw [overflow, show (971 : Int) = 970 + 1 from rfl, zpow_two_succ]
  ring

theorem le_nearestMantissa_of_overflow {n d : Nat} (hd : 0 < d) (he : gridExponent n d = 971)
    (h : overflow ≤ (n : ℚ) / d) : 2 ^ 53 ≤ nearestMantissa n d := by
  have hpos := scaleDown_pos n hd (show 0 < 2 by decide) 971
  have hratio := scaleDown_ratio n d 2 971
  simp only [nearestMantissa, he]
  apply le_roundDiv_of_even hpos (by decide)
  have hq : (0 : ℚ) < (scaleDown n d 2 971).2 := by exact_mod_cast hpos
  have hx : 2 ^ 53 - 1 / 2 ≤ ((scaleDown n d 2 971).1 : ℚ) / (scaleDown n d 2 971).2 := by
    rw [hratio, le_div_iff₀ (by positivity), Nat.cast_two, ← overflow_eq]
    exact h
  rw [le_div_iff₀ hq] at hx
  have hz : (2 : ℚ) * (2 ^ 53 * (scaleDown n d 2 971).2) ≤
      2 * (scaleDown n d 2 971).1 + (scaleDown n d 2 971).2 := by linarith
  exact_mod_cast hz

/-- Quotients overflow exactly from half a step above the greatest double. -/
theorem nearest_eq_infinite_iff {n d : Nat} (hn : 0 < n) (hd : 0 < d) :
    nearest n d = .infinite false ↔ overflow ≤ (n : ℚ) / d := by
  obtain ⟨hfit, hfill⟩ := gridExponent_bounds hn hd
  obtain ⟨hmlo, hmhi⟩ := nearestMantissa_bounds (n := n) hd
  have hpe : (0 : ℚ) < 2 ^ gridExponent n d := by positivity
  rw [nearest_eq hn, ite_eq_left_iff]
  simp only [reduceCtorEq, imp_false, not_not]
  constructor
  · rintro ⟨he, hm⟩
    rcases he.eq_or_lt with heq | hlt
    · rw [← heq, sub_self, Int.toNat_zero, pow_zero, mul_one] at hm
      have hm' : (2 : ℚ) ^ 53 ≤ nearestMantissa n d := by exact_mod_cast hm
      rw [← heq] at hmhi
      have hx : (2 : ℚ) ^ 53 - 1 / 2 ≤ n / d / 2 ^ (971 : Int) := by linarith
      rwa [le_div_iff₀ (by positivity), ← overflow_eq] at hx
    · have hge := hfill (by simp only [leastExponent]; omega)
      have hp : (0 : ℚ) < 2 ^ (971 : Int) := by positivity
      have hnext : (2 : ℚ) ^ ((971 : Int) + 1) ≤ 2 ^ gridExponent n d :=
        zpow_le_zpow_right₀ (by norm_num) hlt
      rw [zpow_two_succ] at hnext
      rw [overflow_eq]
      generalize (2 : ℚ) ^ (971 : Int) = unit at *
      linarith
  · intro h
    have he : 971 ≤ gridExponent n d := by
      by_contra hlt
      have hle : (2 : ℚ) ^ gridExponent n d ≤ 2 ^ (970 : Int) :=
        zpow_le_zpow_right₀ (by norm_num) (by omega)
      have hp : (0 : ℚ) < 2 ^ (970 : Int) := by positivity
      rw [overflow] at h
      generalize (2 : ℚ) ^ (970 : Int) = unit at *
      linarith
    refine ⟨he, ?_⟩
    rcases he.eq_or_lt with heq | hlt
    · simpa [← heq] using le_nearestMantissa_of_overflow hd heq.symm h
    · have hge := hfill (by simp only [leastExponent]; omega)
      rw [← le_div_iff₀ hpe] at hge
      have hm : (2 : ℚ) ^ 52 - 1 < nearestMantissa n d := by linarith
      have hm' : 2 ^ 52 ≤ nearestMantissa n d := by
        have : (2 : ℚ) ^ 52 < nearestMantissa n d + 1 := by linarith
        have : 2 ^ 52 < nearestMantissa n d + 1 := by exact_mod_cast this
        omega
      calc 2 ^ 53 = 2 ^ 52 * 2 ^ 1 := by norm_num
        _ ≤ nearestMantissa n d * 2 ^ (gridExponent n d - 971).toNat := by
            gcongr
            · norm_num
            · omega

end Binary64

end SymbolAtlas
