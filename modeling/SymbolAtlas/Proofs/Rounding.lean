import SymbolAtlas.Proofs.MachineScores

/-!
Rounding to the format of doubles, for numbers that are not negative. A number is moved to a double
but never past another one, so every bound that is a double itself is kept. Only numbers from half a
step above the greatest double are lost.
-/

set_option autoImplicit false

namespace SymbolAtlas

open Float.Model Float.Model.UnpackedFloat

section Bits

def shown (em : ExtendedMantissa) : ℚ := em.mantissa + if em.roundBit then 1 / 2 else 0

/-- A mantissa with its bits stands for a value it shows, or for a little more if the sticky bit is
set. -/
structure Stands (em : ExtendedMantissa) (x : ℚ) : Prop where
  le : shown em ≤ x
  lt : x < shown em + 1 / 2
  exact : em.stickyBit = false → x = shown em

theorem shown_shiftRightOne (em : ExtendedMantissa) : shown em.shiftRightOne = em.mantissa / 2 := by
  have hm : ((em.mantissa % 2 : ℕ) : ℚ) + 2 * ((em.mantissa / 2 : ℕ) : ℚ) = em.mantissa := by
    exact_mod_cast Nat.mod_add_div em.mantissa 2
  rcases Nat.mod_two_eq_zero_or_one em.mantissa with hr | hr
  · simp only [hr, Nat.cast_zero, zero_add] at hm
    simp only [shown, ExtendedMantissa.shiftRightOne, hr, bne_self_eq_false, Bool.false_eq_true,
      if_false]
    linarith
  · simp only [hr, Nat.cast_one] at hm
    have hodd : (em.mantissa % 2 != 0) = true := by simp [hr]
    simp only [shown, ExtendedMantissa.shiftRightOne, hodd, if_true]
    linarith

theorem Stands.shiftRightOne {em : ExtendedMantissa} {x : ℚ} (h : Stands em x) :
    Stands em.shiftRightOne (x / 2) := by
  obtain ⟨hle, hlt, hexact⟩ := h
  have hround : (em.mantissa : ℚ) ≤ shown em ∧ shown em ≤ em.mantissa + 1 / 2 := by
    cases hb : em.roundBit <;> simp [shown, hb]
  refine ⟨?_, ?_, fun hs => ?_⟩
  · rw [shown_shiftRightOne]
    linarith
  · rw [shown_shiftRightOne]
    linarith
  · obtain ⟨hr, hs⟩ : em.roundBit = false ∧ em.stickyBit = false := by
      simpa [ExtendedMantissa.shiftRightOne] using hs
    rw [shown_shiftRightOne, hexact hs]
    simp [shown, hr]

theorem Stands.shiftRight {em : ExtendedMantissa} {x : ℚ} (h : Stands em x) (k : Nat) :
    Stands (em >>> k) (x / 2 ^ k) := by
  show Stands (k.repeat ExtendedMantissa.shiftRightOne em) (x / 2 ^ k)
  induction k with
  | zero => simpa [Nat.repeat] using h
  | succ k ih =>
    have hnext := ih.shiftRightOne
    rwa [div_div, ← pow_succ] at hnext

theorem Stands.near {em : ExtendedMantissa} {x : ℚ} (h : Stands em x) :
    x - 1 / 2 ≤ em.roundedMantissa ∧ (em.roundedMantissa : ℚ) ≤ x + 1 / 2 := by
  obtain ⟨m, round, sticky⟩ := em
  obtain ⟨hle, hlt, hexact⟩ := h
  cases round with
  | false =>
    simp only [shown, Bool.false_eq_true, if_false, add_zero] at hle hlt
    have hr : (ExtendedMantissa.mk m false sticky).roundedMantissa = m := by
      cases sticky <;> rfl
    rw [hr]
    constructor <;> linarith
  | true =>
    simp only [shown, if_true] at hle hlt hexact
    cases sticky with
    | true =>
      have hr : (ExtendedMantissa.mk m true true).roundedMantissa = m + 1 := rfl
      rw [hr]
      push_cast
      constructor <;> linarith
    | false =>
      -- A tie: either neighbour is half a step away.
      have hr : (ExtendedMantissa.mk m true false).roundedMantissa = m + m % 2 := rfl
      have htie := hexact rfl
      rw [hr]
      rcases Nat.mod_two_eq_zero_or_one m with h2 | h2 <;> rw [h2] <;> push_cast <;>
        constructor <;> linarith

theorem stands_exact (m : Nat) : Stands (.ofMantissaAndAccuracy m .exact) m := by
  constructor <;> simp [shown, ExtendedMantissa.ofMantissaAndAccuracy]

theorem stands_quotient (n : Nat) {d : Nat} (hd : 0 < d) :
    Stands (.ofMantissaAndAccuracy (n / d) (accuracyOfFraction (n % d) d)) ((n : ℚ) / d) := by
  have hq : (0 : ℚ) < d := by exact_mod_cast hd
  have hn : (n : ℚ) / d = ((n / d : ℕ) : ℚ) + ((n % d : ℕ) : ℚ) / d := by
    rw [eq_comm, ← mul_left_inj' hq.ne', add_mul, div_mul_cancel₀ _ hq.ne',
      div_mul_cancel₀ _ hq.ne']
    exact_mod_cast Nat.div_add_mod' n d
  have hlt : ((n % d : ℕ) : ℚ) / d < 1 := by
    rw [div_lt_one hq]
    exact_mod_cast Nat.mod_lt n hd
  have hge : (0 : ℚ) ≤ ((n % d : ℕ) : ℚ) / d := by positivity
  rw [hn]
  by_cases h0 : n % d = 0
  · constructor <;> simp [accuracyOfFraction, h0, shown, ExtendedMantissa.ofMantissaAndAccuracy]
  · rcases lt_trichotomy (2 * (n % d)) d with h | h | h
    · have hc : compare (2 * (n % d)) d = .lt := Nat.compare_eq_lt.2 h
      have hhalf : ((n % d : ℕ) : ℚ) / d < 1 / 2 := by
        rw [div_lt_iff₀ hq]
        have h' : (2 : ℚ) * (n % d : ℕ) < d := by exact_mod_cast h
        linarith
      constructor <;>
        simp only [accuracyOfFraction, h0, hc, shown, ExtendedMantissa.ofMantissaAndAccuracy,
          if_false, Bool.false_eq_true, reduceCtorEq, false_implies] <;> linarith
    · have hc : compare (2 * (n % d)) d = .eq := Nat.compare_eq_eq.2 h
      have hhalf : ((n % d : ℕ) : ℚ) / d = 1 / 2 := by
        rw [div_eq_iff hq.ne']
        have h' : (2 : ℚ) * (n % d : ℕ) = d := by exact_mod_cast h
        linarith
      constructor <;>
        simp only [accuracyOfFraction, h0, hc, hhalf, shown,
          ExtendedMantissa.ofMantissaAndAccuracy, if_false, if_true] <;> norm_num
    · have hc : compare (2 * (n % d)) d = .gt := Nat.compare_eq_gt.2 h
      have hhalf : 1 / 2 < ((n % d : ℕ) : ℚ) / d := by
        rw [lt_div_iff₀ hq]
        have h' : (d : ℚ) < 2 * (n % d : ℕ) := by exact_mod_cast h
        linarith
      constructor <;>
        simp only [accuracyOfFraction, h0, hc, shown, ExtendedMantissa.ofMantissaAndAccuracy,
          if_false, if_true, Bool.true_eq_false, false_implies] <;> linarith

end Bits

def Normal : UnpackedFloat → Prop
  | .zero _ => True
  | .finite _ m e _ => m < 2 ^ 53 ∧ -1074 ≤ e ∧ (2 ^ 52 ≤ m ∨ e = -1074)
  | _ => False

def magnitude : UnpackedFloat → ℚ
  | .finite _ m e _ => m * 2 ^ e
  | _ => 0

theorem magnitude_zero (s : Sign) : magnitude (.zero s) = 0 := rfl

theorem Normal.exists_magnitude {u : UnpackedFloat} (h : Normal u) :
    ∃ (m : Nat) (e : Int), m < 2 ^ 53 ∧ -1074 ≤ e ∧ magnitude u = m * 2 ^ e := by
  cases u with
  | infinity s => exact h.elim
  | notANumber => exact h.elim
  | zero s => exact ⟨0, -1074, by decide, le_rfl, by simp [magnitude]⟩
  | finite s m e hm => exact ⟨m, e, h.1, h.2.1, rfl⟩

theorem magnitude_nonneg (u : UnpackedFloat) : 0 ≤ magnitude u := by
  cases u with
  | finite s m e hm => exact mul_nonneg (Nat.cast_nonneg m) (by positivity)
  | infinity s => exact le_rfl
  | notANumber => exact le_rfl
  | zero s => exact le_rfl

theorem greatest_eq : (Binary64.greatest : ℚ) = (2 ^ 53 - 1) * 2 ^ (971 : Int) := by
  rw [Binary64.greatest, Nat.cast_mul, Nat.cast_pow, ← zpow_natCast]
  norm_num

theorem le_greatest_of_exponent {m : Nat} {e : Int} (hm : m < 2 ^ 53) (he : e ≤ 971) :
    (m : ℚ) * 2 ^ e ≤ Binary64.greatest := by
  have hn : ((2 ^ 53 - 1 : Nat) : ℚ) = 2 ^ 53 - 1 := by norm_num
  have hm' : (m : ℚ) ≤ ((2 ^ 53 - 1 : Nat) : ℚ) := Nat.cast_le.2 (by omega)
  rw [greatest_eq, ← hn]
  exact mul_le_mul hm' (zpow_le_zpow_right₀ (by norm_num) he) (by positivity) (by positivity)

theorem exponent_le {m : Nat} {e : Int} (hfull : 2 ^ 52 ≤ m ∨ e = -1074)
    (h : (m : ℚ) * 2 ^ e < Binary64.overflow) : e ≤ 971 := by
  by_contra hlt
  have hm : (2 : ℚ) ^ 52 ≤ m := by exact_mod_cast hfull.resolve_right (by omega)
  have hnext : (2 : ℚ) * 2 ^ (971 : Int) ≤ 2 ^ e := by
    rw [← Binary64.zpow_two_succ]
    exact zpow_le_zpow_right₀ (by norm_num) (by omega)
  have hunit : (0 : ℚ) < 2 ^ (971 : Int) := by positivity
  have hmul : (2 : ℚ) ^ 52 * 2 ^ e ≤ m * 2 ^ e := mul_le_mul_of_nonneg_right hm (by positivity)
  rw [Binary64.overflow_eq] at h
  generalize (2 : ℚ) ^ (971 : Int) = unit at *
  linarith

/-- A number that is not negative, moved to the format of doubles. -/
structure Rounded (x : ℚ) (u : UnpackedFloat) : Prop where
  normal : Normal u
  sign : NonNegative u
  le : ∀ v, Normal v → x ≤ magnitude v → magnitude u ≤ magnitude v
  ge : ∀ v, Normal v → magnitude v ≤ x → magnitude v ≤ magnitude u
  top : x < Binary64.overflow → magnitude u ≤ Binary64.greatest

/-- A whole number `r` of units `2 ^ t` that is at most half a unit from `x`. The unit is the one a
mantissa of 53 bits has. -/
structure Near (x : ℚ) (t : Int) (r : Nat) : Prop where
  least : -1074 ≤ t
  fits : x < 2 ^ 53 * 2 ^ t
  fills : -1074 < t → 2 ^ 52 * 2 ^ t ≤ x
  lower : x / 2 ^ t - 1 / 2 ≤ r
  upper : (r : ℚ) ≤ x / 2 ^ t + 1 / 2

namespace Near

variable {x : ℚ} {t : Int} {r : Nat} (h : Near x t r)

include h

theorem le_of_lt {n : Nat} (hx : x < (n + 1 / 2) * 2 ^ t) : r ≤ n := by
  have hp : (0 : ℚ) < 2 ^ t := by positivity
  rw [← div_lt_iff₀ hp] at hx
  have hlt : (r : ℚ) < n + 1 := by linarith [h.upper]
  have hlt' : r < n + 1 := by exact_mod_cast hlt
  omega

theorem ge_of_le {n : Nat} (hx : n * 2 ^ t ≤ x) : n ≤ r := by
  have hp : (0 : ℚ) < 2 ^ t := by positivity
  rw [← le_div_iff₀ hp] at hx
  have hlt : (n : ℚ) < r + 1 := by linarith [h.lower]
  have hlt' : n < r + 1 := by exact_mod_cast hlt
  omega

theorem carry : r ≤ 2 ^ 53 := by
  have hp : (0 : ℚ) < 2 ^ t := by positivity
  apply h.le_of_lt
  push_cast
  linarith [h.fits]

theorem full : 2 ^ 52 ≤ r ∨ t = -1074 := by
  by_cases ht : t = -1074
  · exact .inr ht
  · left
    have hleast := h.least
    apply h.ge_of_le
    push_cast
    exact h.fills (by omega)

theorem le_double {m : Nat} {e : Int} (hm : m < 2 ^ 53) (he : -1074 ≤ e) (hx : x ≤ m * 2 ^ e) :
    (r : ℚ) * 2 ^ t ≤ m * 2 ^ e := by
  have hp : (0 : ℚ) < 2 ^ t := by positivity
  by_cases hte : t ≤ e
  · obtain ⟨k, hk⟩ := Int.eq_ofNat_of_zero_le (show 0 ≤ e - t by omega)
    have hunits : (m : ℚ) * 2 ^ e = ((m * 2 ^ k : Nat) : ℚ) * 2 ^ t := by
      rw [show e = (k : Int) + t by omega, zpow_add₀ (by norm_num), zpow_natCast]
      push_cast
      ring
    rw [hunits] at hx ⊢
    have hr : r ≤ m * 2 ^ k := h.le_of_lt (by linarith)
    exact mul_le_mul_of_nonneg_right (by exact_mod_cast hr) hp.le
  · -- A number that needs a coarser unit is above every double of a finer one.
    have hfill := h.fills (by omega)
    have hm' : (m : ℚ) < 2 ^ 53 := by exact_mod_cast hm
    have hpe : (0 : ℚ) < 2 ^ e := by positivity
    have hnext : (2 : ℚ) * 2 ^ e ≤ 2 ^ t := by
      rw [← Binary64.zpow_two_succ]
      exact zpow_le_zpow_right₀ (by norm_num) (by omega)
    have hlt : (m : ℚ) * 2 ^ e < 2 ^ 53 * 2 ^ e := mul_lt_mul_of_pos_right hm' hpe
    linarith

theorem ge_double {m : Nat} {e : Int} (hm : m < 2 ^ 53) (he : -1074 ≤ e) (hx : m * 2 ^ e ≤ x) :
    (m : ℚ) * 2 ^ e ≤ r * 2 ^ t := by
  have hp : (0 : ℚ) < 2 ^ t := by positivity
  by_cases hte : t ≤ e
  · obtain ⟨k, hk⟩ := Int.eq_ofNat_of_zero_le (show 0 ≤ e - t by omega)
    have hunits : (m : ℚ) * 2 ^ e = ((m * 2 ^ k : Nat) : ℚ) * 2 ^ t := by
      rw [show e = (k : Int) + t by omega, zpow_add₀ (by norm_num), zpow_natCast]
      push_cast
      ring
    rw [hunits] at hx ⊢
    have hr : m * 2 ^ k ≤ r := h.ge_of_le hx
    exact mul_le_mul_of_nonneg_right (by exact_mod_cast hr) hp.le
  · have hfull : 2 ^ 52 ≤ r := h.full.resolve_right (by omega)
    have hr : (2 : ℚ) ^ 52 * 2 ^ t ≤ r * 2 ^ t :=
      mul_le_mul_of_nonneg_right (by exact_mod_cast hfull) hp.le
    have hm' : (m : ℚ) < 2 ^ 53 := by exact_mod_cast hm
    have hpe : (0 : ℚ) < 2 ^ e := by positivity
    have hnext : (2 : ℚ) * 2 ^ e ≤ 2 ^ t := by
      rw [← Binary64.zpow_two_succ]
      exact zpow_le_zpow_right₀ (by norm_num) (by omega)
    have hlt : (m : ℚ) * 2 ^ e < 2 ^ 53 * 2 ^ e := mul_lt_mul_of_pos_right hm' hpe
    linarith

theorem le_greatest (hx : x < Binary64.overflow) : (r : ℚ) * 2 ^ t ≤ Binary64.greatest := by
  have hp : (0 : ℚ) < 2 ^ t := by positivity
  have hunit : (0 : ℚ) < 2 ^ (971 : Int) := by positivity
  rw [Binary64.overflow_eq] at hx
  rw [greatest_eq]
  rcases lt_trichotomy t 971 with ht | rfl | ht
  · have hle : (2 : ℚ) * 2 ^ t ≤ 2 ^ (971 : Int) := by
      rw [← Binary64.zpow_two_succ]
      exact zpow_le_zpow_right₀ (by norm_num) (by omega)
    have hr : (r : ℚ) ≤ 2 ^ 53 := by exact_mod_cast h.carry
    have hmul : (r : ℚ) * 2 ^ t ≤ 2 ^ 53 * 2 ^ t := mul_le_mul_of_nonneg_right hr hp.le
    generalize (2 : ℚ) ^ (971 : Int) = unit at *
    linarith
  · have hn : ((2 ^ 53 - 1 : Nat) : ℚ) = 2 ^ 53 - 1 := by norm_num
    have hr : r ≤ 2 ^ 53 - 1 := by
      apply h.le_of_lt
      rw [hn]
      linarith
    have hr' : (r : ℚ) ≤ ((2 ^ 53 - 1 : Nat) : ℚ) := Nat.cast_le.2 hr
    rw [hn] at hr'
    exact mul_le_mul_of_nonneg_right hr' hunit.le
  · have hfill := h.fills (by omega)
    have hle : (2 : ℚ) * 2 ^ (971 : Int) ≤ 2 ^ t := by
      rw [← Binary64.zpow_two_succ]
      exact zpow_le_zpow_right₀ (by norm_num) (by omega)
    generalize (2 : ℚ) ^ (971 : Int) = unit at *
    linarith

end Near

section Round

theorem target_eq (m : Nat) (e : Int) :
    Format.binary64.targetExponent (totalExponent m e) = max ((m.log2 : Int) + e - 52) (-1074) := by
  simp only [Format.targetExponent, totalExponent, Format.mantissaBits, Format.minExponent]
  omega

def finish (s : Sign) (p : ExtendedMantissa × Int) : UnpackedFloat :=
  if h : p.1.mantissa = 0 then .zero s else .finite s p.1.mantissa p.2 (Nat.pos_of_ne_zero h)

theorem roundWithAccuracy_eq (s : Sign) (m : Nat) (e : Int) (a : Accuracy) :
    roundWithAccuracy .binary64 s m e a =
      finish s (shiftToTargetExponent .binary64
        (shiftToTargetExponent .binary64 m e a).1.roundedMantissa
        (shiftToTargetExponent .binary64 m e a).2 .exact) :=
  rfl

theorem finish_carry {r : Nat} {t : Int} (hr : r ≤ 2 ^ 53) (ht : -1074 ≤ t)
    (hfull : 2 ^ 52 ≤ r ∨ t = -1074) :
    Normal (finish .positive (shiftToTargetExponent .binary64 r t .exact)) ∧
      NonNegative (finish .positive (shiftToTargetExponent .binary64 r t .exact)) ∧
      magnitude (finish .positive (shiftToTargetExponent .binary64 r t .exact)) = r * 2 ^ t := by
  rcases hr.lt_or_eq with hlt | rfl
  · have hlog : r.log2 ≤ 52 := by
      by_cases h0 : r = 0
      · simp [h0]
      · have := (Nat.log2_lt h0).2 hlt
        omega
    have hk : (max ((r.log2 : Int) + t - 52) (-1074) - t).toNat = 0 := by omega
    have hshift : shiftToTargetExponent .binary64 r t .exact = (⟨r, false, false⟩, t) := by
      simp only [shiftToTargetExponent, target_eq, shiftToExponent, hk]
      simp [HShiftRight.hShiftRight, Nat.repeat, ExtendedMantissa.ofMantissaAndAccuracy]
    rw [hshift]
    by_cases h0 : r = 0
    · simp [finish, h0, Normal, NonNegative, magnitude]
    · have hf : finish .positive (⟨r, false, false⟩, t) =
          .finite .positive r t (Nat.pos_of_ne_zero h0) := by simp [finish, h0]
      rw [hf]
      exact ⟨⟨hlt, ht, hfull⟩, rfl, rfl⟩
  · have hk : (max (((2 ^ 53 : Nat).log2 : Int) + t - 52) (-1074) - t).toNat = 1 := by
      rw [Nat.log2_two_pow]
      omega
    have hshift : shiftToTargetExponent .binary64 (2 ^ 53) t .exact =
        (⟨2 ^ 52, false, false⟩, t + 1) := by
      simp only [shiftToTargetExponent, target_eq, shiftToExponent, hk]
      simp [HShiftRight.hShiftRight, Nat.repeat, ExtendedMantissa.ofMantissaAndAccuracy,
        ExtendedMantissa.shiftRightOne]
    have hvalue : ((2 ^ 52 : Nat) : ℚ) * 2 ^ (t + 1) = ((2 ^ 53 : Nat) : ℚ) * 2 ^ t := by
      rw [zpow_add_one₀ (by norm_num)]
      push_cast
      ring
    rw [hshift]
    refine ⟨⟨by norm_num, by omega, .inl le_rfl⟩, rfl, hvalue⟩

theorem Near.rounded {x : ℚ} {t : Int} {r : Nat} (h : Near x t r) :
    Rounded x (finish .positive (shiftToTargetExponent .binary64 r t .exact)) := by
  obtain ⟨hnormal, hsign, hvalue⟩ := finish_carry h.carry h.least h.full
  refine ⟨hnormal, hsign, fun v hv hle => ?_, fun v hv hle => ?_, fun hlt => ?_⟩
  · obtain ⟨m, e, hm, he, hmag⟩ := hv.exists_magnitude
    rw [hmag] at hle
    rw [hvalue, hmag]
    exact h.le_double hm he hle
  · obtain ⟨m, e, hm, he, hmag⟩ := hv.exists_magnitude
    rw [hmag] at hle
    rw [hvalue, hmag]
    exact h.ge_double hm he hle
  · rw [hvalue]
    exact h.le_greatest hlt

variable {m : Nat} {e : Int} {a : Accuracy} {x : ℚ}
  (hx : Stands (.ofMantissaAndAccuracy m a) x) (he : e ≤ max ((m.log2 : Int) + e - 52) (-1074))

include hx

theorem Stands.bounds : (m : ℚ) ≤ x ∧ x < m + 1 := by
  obtain ⟨hle, hlt, _⟩ := hx
  have hm : (ExtendedMantissa.ofMantissaAndAccuracy m a).mantissa = m := by
    rcases a with _ | o
    · rfl
    · cases o <;> rfl
  have hshown : (m : ℚ) ≤ shown (.ofMantissaAndAccuracy m a) ∧
      shown (.ofMantissaAndAccuracy m a) ≤ m + 1 / 2 := by
    cases hb : (ExtendedMantissa.ofMantissaAndAccuracy m a).roundBit <;> simp [shown, hb, hm]
  constructor <;> linarith

include he

/-- At the exponent of the result a number fits into 53 bits, and fills them above the least. -/
theorem Stands.fits {t : Int} (ht : t = max ((m.log2 : Int) + e - 52) (-1074)) :
    x * 2 ^ e < 2 ^ 53 * 2 ^ t ∧ (-1074 < t → 2 ^ 52 * 2 ^ t ≤ x * 2 ^ e) := by
  obtain ⟨hlo, hhi⟩ := hx.bounds
  have hpe : (0 : ℚ) < 2 ^ e := by positivity
  constructor
  · have hm : (m : ℚ) + 1 ≤ 2 ^ (m.log2 + 1) := by exact_mod_cast Nat.lt_log2_self
    calc x * 2 ^ e < 2 ^ (m.log2 + 1) * 2 ^ e := mul_lt_mul_of_pos_right (by linarith) hpe
      _ = 2 ^ ((m.log2 : Int) + 1 + e) := by
          rw [← zpow_natCast, ← zpow_add₀ (by norm_num)]
          push_cast
          rfl
      _ ≤ 2 ^ (53 + t) := zpow_le_zpow_right₀ (by norm_num) (by omega)
      _ = 2 ^ 53 * 2 ^ t := by
          rw [zpow_add₀ (by norm_num)]
          norm_num
  · intro hleast
    have hm0 : m ≠ 0 := by
      rintro rfl
      rw [Nat.log2_zero] at ht he
      omega
    have hm : (2 : ℚ) ^ m.log2 ≤ m := by exact_mod_cast Nat.log2_self_le hm0
    calc (2 : ℚ) ^ 52 * 2 ^ t = 2 ^ (52 + t) := by
          rw [zpow_add₀ (by norm_num)]
          norm_num
      _ = 2 ^ m.log2 * 2 ^ e := by
          rw [← zpow_natCast, ← zpow_add₀ (by norm_num)]
          congr 1
          omega
      _ ≤ x * 2 ^ e := mul_le_mul_of_nonneg_right (hm.trans hlo) hpe.le

theorem Stands.near_units {t : Int} (ht : t = max ((m.log2 : Int) + e - 52) (-1074)) :
    shiftToTargetExponent .binary64 m e a =
        (ExtendedMantissa.ofMantissaAndAccuracy m a >>> (t - e).toNat, t) ∧
      Near (x * 2 ^ e) t
        (ExtendedMantissa.ofMantissaAndAccuracy m a >>> (t - e).toNat).roundedMantissa := by
  obtain ⟨hfit, hfill⟩ := hx.fits he ht
  have hk : e + ((t - e).toNat : Int) = t := by omega
  have hunits : x / 2 ^ (t - e).toNat = x * 2 ^ e / 2 ^ t := by
    have hpe : (2 : ℚ) ^ e ≠ 0 := by positivity
    rw [← hk, zpow_add₀ (by norm_num), zpow_natCast, hk, mul_comm x, mul_div_mul_left _ _ hpe]
  obtain ⟨hlo, hhi⟩ := (hx.shiftRight (t - e).toNat).near
  rw [hunits] at hlo hhi
  refine ⟨?_, by omega, hfit, hfill, hlo, hhi⟩
  simp only [shiftToTargetExponent, target_eq, ← ht, shiftToExponent, hk]

theorem rounded_roundWithAccuracy :
    Rounded (x * 2 ^ e) (roundWithAccuracy .binary64 .positive m e a) := by
  obtain ⟨hshift, hnear⟩ := hx.near_units he rfl
  rw [roundWithAccuracy_eq, hshift]
  exact hnear.rounded

end Round

section Packing

theorem toNat_implicit (f : BitVec 52) : (1#1 ++ f).toNat = 2 ^ 52 + f.toNat := by
  have hf := f.isLt
  rw [BitVec.toNat_append, Nat.shiftLeft_eq, Nat.or_comm]
  have h1 : (1#1).toNat * 2 ^ 52 = 2 ^ 52 := by decide
  rw [h1, Nat.or_two_pow_eq_add_of_lt hf, Nat.add_comm]

/-- A pattern stands for a finite number of the format with an exponent in range, or for none. -/
theorem unpack_cases (b : BitVec Format.binary64.numBits) :
    (unpack .binary64 b).isFinite = false ∨
      ∃ s, unpack .binary64 b = .zero s ∨
        ∃ m e hm, unpack .binary64 b = .finite s m e hm ∧ m < 2 ^ 53 ∧ -1074 ≤ e ∧
          (2 ^ 52 ≤ m ∨ e = -1074) ∧ e ≤ 971 := by
  have hf := (unpackMantissa b).isLt
  have he := (unpackExponent b).isLt
  by_cases hall : unpackExponent b = -1#_
  · left
    simp only [UnpackedFloat.unpack, hall, if_true]
    split <;> rfl
  · right
    refine ⟨Sign.ofBitVec (unpackSign b), ?_⟩
    simp only [UnpackedFloat.unpack, hall, if_false]
    by_cases h0 : unpackExponent b = 0#_
    · by_cases hz : unpackMantissa b = 0#_
      · left
        simp [h0, hz]
      · right
        simp only [h0, hz, if_true, dif_neg, not_false_eq_true]
        have hpos : 0 < (unpackMantissa b).toNat := by
          rw [Nat.pos_iff_ne_zero]
          intro h
          exact hz (BitVec.eq_of_toNat_eq h)
        refine ⟨_, _, hpos, rfl, ?_, ?_, .inr ?_, ?_⟩
        · exact hf.trans (by decide)
        · decide
        · decide
        · decide
    · right
      have hpos : 0 < (unpackExponent b).toNat := by
        rw [Nat.pos_iff_ne_zero]
        intro h
        exact h0 (BitVec.eq_of_toNat_eq h)
      have hlast : (unpackExponent b).toNat ≠ 2047 := by
        intro h
        exact hall (BitVec.eq_of_toNat_eq (h.trans (by decide)))
      have hbias : ((Format.binary64.exponentBias : Int) +
          (Format.binary64.mantissaBitsWithoutImplicit : Int)) = 1075 := rfl
      have he' : (unpackExponent b).toNat < 2048 := he
      have hf' : (unpackMantissa b).toNat < 2 ^ 52 := hf
      have hm := toNat_implicit (unpackMantissa b)
      simp only [h0, if_false, hbias]
      refine ⟨_, _, (show 0 < (1#1 ++ unpackMantissa b).toNat by omega), rfl, ?_, ?_, .inl ?_, ?_⟩
      · rw [hm]
        omega
      · omega
      · rw [hm]
        omega
      · omega

theorem normal_unpack {b : BitVec Format.binary64.numBits}
    (h : (unpack .binary64 b).isFinite = true) :
    Normal (unpack .binary64 b) ∧ magnitude (unpack .binary64 b) ≤ Binary64.greatest := by
  rcases unpack_cases b with hb | ⟨s, hb | ⟨m, e, hm, hb, hlt, hle, hfull, htop⟩⟩
  · simp [hb] at h
  · rw [hb]
    exact ⟨trivial, Nat.cast_nonneg _⟩
  · rw [hb]
    exact ⟨⟨hlt, hle, hfull⟩, le_greatest_of_exponent hlt htop⟩

/-- Packing loses nothing that is in range. -/
theorem unpack_pack {u : UnpackedFloat} (h : Normal u)
    (hle : magnitude u ≤ Binary64.greatest) : unpack .binary64 (pack .binary64 u) = u := by
  cases u with
  | infinity s => exact h.elim
  | notANumber => exact h.elim
  | zero s => cases s <;> rfl
  | finite s m e hm =>
    obtain ⟨hlt, hleast, hfull⟩ := h
    have hexp : e ≤ 971 := exponent_le hfull (hle.trans_lt Binary64.greatest_lt_overflow)
    have hrange : ¬ 2 ^ Format.binary64.exponentBits ≤
        (e + Format.binary64.exponentBias +
          Format.binary64.mantissaBitsWithoutImplicit).toNat + 1 := by
      show ¬ 2048 ≤ (e + 1023 + 52).toNat + 1
      omega
    simp only [UnpackedFloat.pack, hrange, if_false]
    by_cases hbits : 2 ^ 52 ≤ m
    · have hlog : m.log2 + 1 = Format.binary64.mantissaBits := by
        show m.log2 + 1 = 53
        have := (Nat.log2_eq_iff hm.ne').2 ⟨hbits, hlt⟩
        omega
      simp only [hlog, if_true, UnpackedFloat.unpack, unpackExponent_packComponents,
        unpackMantissa_packComponents, unpackSign_packComponents,
        Sign.ofBitVec_toBitVec]
      have hbiased : (BitVec.ofNat 11
          (e + (Format.binary64.exponentBias : Int) + ((52 : Nat) : Int)).toNat).toNat =
            (e + 1075).toNat := by
        rw [BitVec.toNat_ofNat]
        show (e + 1023 + 52).toNat % 2048 = (e + 1075).toNat
        omega
      generalize BitVec.ofNat 11
        (e + (Format.binary64.exponentBias : Int) + ((52 : Nat) : Int)).toNat = biased at hbiased ⊢
      have hall : ¬ biased = -1#11 := by
        rintro rfl
        have hlast : (-1#11).toNat = 2047 := by decide
        omega
      have hzero : ¬ biased = 0#11 := by
        rintro rfl
        have hfirst : (0#11).toNat = 0 := rfl
        omega
      have hmantissa : (1#1 ++ BitVec.ofNat 52 m).toNat = m := by
        rw [toNat_implicit, BitVec.toNat_ofNat]
        omega
      have hexponent : (biased.toNat : Int) -
          ((Format.binary64.exponentBias : Int) + ((52 : Nat) : Int)) = e := by
        show (biased.toNat : Int) - (1023 + 52) = e
        omega
      simp only [hall, hzero, if_false, hmantissa, hexponent]
    · have he : e = -1074 := hfull.resolve_left hbits
      have hlog : ¬ m.log2 + 1 = Format.binary64.mantissaBits := by
        show ¬ m.log2 + 1 = 53
        have := (Nat.log2_lt hm.ne').2 (not_le.1 hbits)
        omega
      simp only [hlog, if_false, UnpackedFloat.unpack, unpackExponent_packComponents,
        unpackMantissa_packComponents, unpackSign_packComponents,
        Sign.ofBitVec_toBitVec]
      have hmantissa : (BitVec.ofNat 52 m).toNat = m := by
        rw [BitVec.toNat_ofNat]
        omega
      have hall : ¬ (0#11 = -1#11) := by decide
      have hzero : ¬ BitVec.ofNat 52 m = 0#52 := by
        intro h
        have h0 : (0#52).toNat = 0 := rfl
        rw [← h, hmantissa] at h0
        omega
      have hexponent : ((0#11).toNat : Int) -
          ((Format.binary64.exponentBias : Int) + ((52 : Nat) : Int)) + 1 = e := he.symm
      simp only [hall, hzero, if_false, if_true, dif_neg, not_false_eq_true, hmantissa, hexponent]

end Packing

end SymbolAtlas
