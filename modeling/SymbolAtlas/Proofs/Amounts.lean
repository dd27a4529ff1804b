import SymbolAtlas.Proofs.Rounding

/-!
Machine arithmetic against exact arithmetic, for numbers that are not negative: every operation
rounds its exact result.
-/

set_option autoImplicit false

namespace SymbolAtlas

open Float.Model Float.Model.UnpackedFloat

section Operations

theorem rounded_self {u : UnpackedFloat} (hn : Normal u) (hs : NonNegative u) :
    Rounded (magnitude u) u := by
  refine ⟨hn, hs, fun v _ h => h, fun v _ h => h, fun h => ?_⟩
  cases u with
  | finite s m e hm => exact le_greatest_of_exponent hn.1 (exponent_le hn.2.2 h)
  | infinity s => exact hn.elim
  | notANumber => exact hn.elim
  | zero s => exact Nat.cast_nonneg _

theorem rounded_zero : Rounded 0 (.zero .positive) :=
  rounded_self (u := .zero .positive) trivial rfl

theorem Normal.cases {u : UnpackedFloat} (hn : Normal u) (hs : NonNegative u) :
    u = .zero .positive ∨ ∃ m e hm, u = .finite .positive m e hm ∧ -1074 ≤ e ∧
      (2 ^ 52 ≤ m ∨ e = -1074) := by
  cases u with
  | infinity s => exact hn.elim
  | notANumber => exact hn.elim
  | zero s =>
    cases hs
    exact .inl rfl
  | finite s m e hm =>
    cases hs
    exact .inr ⟨m, e, hm, rfl, hn.2.1, hn.2.2⟩

theorem rounded_mul {u v : UnpackedFloat} (hu : Normal u) (hv : Normal v) (hus : NonNegative u)
    (hvs : NonNegative v) : Rounded (magnitude u * magnitude v) (mul .binary64 u v) := by
  rcases hu.cases hus with rfl | ⟨m, e, hm, rfl, hle, hfull⟩
  · rcases hv.cases hvs with rfl | ⟨m', e', hm', rfl, _⟩
    · rw [magnitude_zero, zero_mul]
      exact rounded_zero
    · rw [magnitude_zero, zero_mul]
      exact rounded_zero
  · rcases hv.cases hvs with rfl | ⟨m', e', hm', rfl, hle', hfull'⟩
    · rw [magnitude_zero, mul_zero]
      exact rounded_zero
    · -- One full mantissa makes the product full; two small ones are at the least exponent.
      have hexp : e + e' ≤ max (((m * m').log2 : Int) + (e + e') - 52) (-1074) := by
        rcases hfull with h | h
        · have hlog : 52 ≤ (m * m').log2 :=
            (Nat.le_log2 (by positivity)).2 (h.trans (Nat.le_mul_of_pos_right m hm'))
          omega
        · rcases hfull' with h' | h'
          · have hlog : 52 ≤ (m * m').log2 :=
              (Nat.le_log2 (by positivity)).2 (h'.trans (Nat.le_mul_of_pos_left m' hm))
            omega
          · omega
      have hr := rounded_roundWithAccuracy (stands_exact (m * m')) hexp
      have hvalue : ((m * m' : Nat) : ℚ) * 2 ^ (e + e') = (m * 2 ^ e) * (m' * 2 ^ e') := by
        rw [zpow_add₀ (by norm_num)]
        push_cast
        ring
      rw [hvalue] at hr
      exact hr

theorem rounded_round {m : Nat} (hm : 0 < m) (e : Int) :
    Rounded (m * 2 ^ e) (UnpackedFloat.round .binary64 .positive m e) := by
  generalize ht : max ((m.log2 : Int) + e - 52) (-1074) = t
  generalize hk : (e - t).toNat = k
  have hlog : (m * 2 ^ k).log2 = m.log2 + k := by
    rw [Nat.log2_eq_iff (by positivity)]
    have hp : 0 < 2 ^ k := Nat.two_pow_pos k
    constructor
    · rw [Nat.pow_add]
      exact Nat.mul_le_mul_right _ (Nat.log2_self_le hm.ne')
    · rw [show m.log2 + k + 1 = m.log2 + 1 + k by omega, Nat.pow_add]
      exact Nat.mul_lt_mul_of_pos_right Nat.lt_log2_self hp
  have hexp : e - (k : Int) ≤ max (((m * 2 ^ k).log2 : Int) + (e - k) - 52) (-1074) := by
    rw [hlog]
    omega
  have hr := rounded_roundWithAccuracy (stands_exact (m * 2 ^ k)) hexp
  have hvalue : ((m * 2 ^ k : Nat) : ℚ) * 2 ^ (e - (k : Int)) = m * 2 ^ e := by
    rw [zpow_sub₀ (by norm_num), zpow_natCast]
    push_cast
    field_simp
  rw [hvalue] at hr
  simpa only [UnpackedFloat.round, target_eq, ht, decreaseExponent, hk, Nat.shiftLeft_eq] using hr

theorem decreaseExponent_eq {m : Nat} {e t : Int} (h : t ≤ e) :
    ∃ k : Nat, decreaseExponent m e t = (m * 2 ^ k, t) ∧
      (m : ℚ) * 2 ^ e = (m * 2 ^ k : Nat) * 2 ^ t := by
  refine ⟨(e - t).toNat, ?_, ?_⟩
  · rw [decreaseExponent, Nat.shiftLeft_eq]
    congr 1
    omega
  · obtain ⟨k, hk⟩ := Int.eq_ofNat_of_zero_le (show 0 ≤ e - t by omega)
    rw [hk, show e = (k : Int) + t by omega, zpow_add₀ (by norm_num), zpow_natCast]
    push_cast
    rw [Int.toNat_natCast]
    ring

theorem rounded_add {u v : UnpackedFloat} (hu : Normal u) (hv : Normal v) (hus : NonNegative u)
    (hvs : NonNegative v) : Rounded (magnitude u + magnitude v) (add .binary64 u v) := by
  rcases hu.cases hus with rfl | ⟨m, e, hm, rfl, _⟩
  · rw [magnitude_zero, zero_add]
    rcases hv.cases hvs with rfl | ⟨m', e', hm', rfl, _⟩
    · exact rounded_zero
    · exact rounded_self hv hvs
  · rcases hv.cases hvs with rfl | ⟨m', e', hm', rfl, _⟩
    · rw [magnitude_zero, add_zero]
      exact rounded_self hu hus
    · obtain ⟨k, hk, hvalue⟩ := decreaseExponent_eq (m := m) (min_le_left e e')
      obtain ⟨k', hk', hvalue'⟩ := decreaseExponent_eq (m := m') (min_le_right e e')
      have hpos : 0 < m * 2 ^ k + m' * 2 ^ k' := by positivity
      have hr := rounded_round hpos (min e e')
      have hsum : ((m * 2 ^ k + m' * 2 ^ k' : Nat) : ℚ) * 2 ^ min e e' =
          m * 2 ^ e + m' * 2 ^ e' := by
        rw [hvalue, hvalue']
        push_cast
        ring
      have hcompare : compare (((m * 2 ^ k : Nat) : Int) + ((m' * 2 ^ k' : Nat) : Int)) 0 = .gt :=
        Int.compare_eq_gt.2 (by omega)
      have hnat : (((m * 2 ^ k : Nat) : Int) + ((m' * 2 ^ k' : Nat) : Int)).toNat =
          m * 2 ^ k + m' * 2 ^ k' := by omega
      rw [hsum] at hr
      simpa only [magnitude, UnpackedFloat.add, hk, hk', Sign.apply, UnpackedFloat.normalize,
        hcompare, hnat] using hr

theorem rounded_div {u v : UnpackedFloat} (hu : Normal u) (hv : Normal v) (hus : NonNegative u)
    (hvs : NonNegative v) (hpos : 0 < magnitude v) :
    Rounded (magnitude u / magnitude v) (div .binary64 u v) := by
  rcases hv.cases hvs with rfl | ⟨m', e', hm', rfl, _⟩
  · exact absurd hpos (lt_irrefl _)
  · rcases hu.cases hus with rfl | ⟨m, e, hm, rfl, _⟩
    · rw [magnitude_zero, zero_div]
      exact rounded_zero
    · have htarget : Format.binary64.targetExponent (totalExponent m e - totalExponent m' e') =
          max ((m.log2 : Int) + e - (m'.log2 + e') - 53) (-1074) := by
        simp only [Format.targetExponent, totalExponent, Format.mantissaBits, Format.minExponent]
        omega
      generalize ht : min (e - e')
        (Format.binary64.targetExponent (totalExponent m e - totalExponent m' e')) = t
      generalize hk : (e - e' - t).toNat = k
      have hexp : t ≤ max (((m * 2 ^ k / m').log2 : Int) + t - 52) (-1074) := by
        by_cases hleast : t ≤ -1074
        · omega
        · -- Above the least exponent the divisor leaves a full mantissa.
          have hfull : 2 ^ 52 ≤ m * 2 ^ k / m' := by
            rw [Nat.le_div_iff_mul_le hm']
            calc 2 ^ 52 * m' ≤ 2 ^ 52 * 2 ^ (m'.log2 + 1) :=
                  Nat.mul_le_mul_left _ Nat.lt_log2_self.le
              _ = 2 ^ (52 + (m'.log2 + 1)) := (Nat.pow_add ..).symm
              _ ≤ 2 ^ (m.log2 + k) := Nat.pow_le_pow_right (by decide) (by omega)
              _ = 2 ^ m.log2 * 2 ^ k := Nat.pow_add ..
              _ ≤ m * 2 ^ k := Nat.mul_le_mul_right _ (Nat.log2_self_le hm.ne')
          have hlog := (Nat.le_log2 (by omega)).2 hfull
          omega
      have hr := rounded_roundWithAccuracy (stands_quotient (m * 2 ^ k) hm') hexp
      have hvalue : ((m * 2 ^ k : Nat) : ℚ) / m' * 2 ^ t = m * 2 ^ e / (m' * 2 ^ e') := by
        have he : (2 : ℚ) ^ e = 2 ^ k * 2 ^ t * 2 ^ e' := by
          rw [← zpow_natCast, ← zpow_add₀ (by norm_num), ← zpow_add₀ (by norm_num)]
          congr 1
          omega
        have hpe : (2 : ℚ) ^ e' ≠ 0 := by positivity
        have hm0 : (m' : ℚ) ≠ 0 := by exact_mod_cast hm'.ne'
        rw [he]
        push_cast
        field_simp
      have hsign : Sign.positive / Sign.positive = .positive := rfl
      rw [hvalue] at hr
      simpa only [magnitude, UnpackedFloat.div, divCore, ht, hk, Nat.shiftLeft_eq, hsign] using hr

/-- What a square root is rounded from is at least the whole part of the root and less than the
next whole number. -/
theorem stands_root (n : Nat) : ∃ y : ℚ, (n.sqrt : ℚ) ≤ y ∧ y < n.sqrt + 1 ∧
    Stands (.ofMantissaAndAccuracy n.sqrt (if n - n.sqrt * n.sqrt = 0 then .exact
      else .inexact (if n - n.sqrt * n.sqrt ≤ n.sqrt then .lt else .gt))) y := by
  by_cases h0 : n - n.sqrt * n.sqrt = 0
  · refine ⟨n.sqrt, le_rfl, by linarith, ?_⟩
    rw [if_pos h0]
    exact stands_exact n.sqrt
  · rw [if_neg h0]
    by_cases hle : n - n.sqrt * n.sqrt ≤ n.sqrt
    · refine ⟨n.sqrt, le_rfl, by linarith, ?_⟩
      rw [if_pos hle]
      constructor <;> simp [shown, ExtendedMantissa.ofMantissaAndAccuracy]
    · refine ⟨n.sqrt + 1 / 2, by linarith, by linarith, ?_⟩
      rw [if_neg hle]
      constructor <;> simp [shown, ExtendedMantissa.ofMantissaAndAccuracy]

theorem rounded_sqrt {u : UnpackedFloat} (hu : Normal u) (hus : NonNegative u)
    (hle : magnitude u ≤ Binary64.greatest) :
    ∃ y, y < Binary64.overflow ∧ Rounded y (UnpackedFloat.sqrt .binary64 u) := by
  rcases hu.cases hus with rfl | ⟨m, e, hm, rfl, hleast, hfull⟩
  · exact ⟨0, (Nat.cast_nonneg _).trans_lt Binary64.greatest_lt_overflow, rounded_zero⟩
  · have htop : e ≤ 971 := exponent_le hfull (hle.trans_lt Binary64.greatest_lt_overflow)
    have htarget : Format.binary64.targetExponent ((totalExponent m e + 1).ediv 2) =
        max (((m.log2 : Int) + 2 + e) / 2 - 53) (-1074) := by
      show max (((m.log2 : Int) + 1 + e + 1) / 2 - 53) (-1074) = _
      rw [show (m.log2 : Int) + 1 + e + 1 = (m.log2 : Int) + 2 + e by omega]
    have hhalf : e.ediv 2 = e / 2 := rfl
    generalize ht : min (e.ediv 2)
      (Format.binary64.targetExponent ((totalExponent m e + 1).ediv 2)) = t
    generalize hk : (e - 2 * t).toNat = k
    have hexp : t ≤ max (((m * 2 ^ k).sqrt.log2 : Int) + t - 52) (-1074) := by
      by_cases hmin : t ≤ -1074
      · omega
      · have hroot : 2 ^ 52 ≤ (m * 2 ^ k).sqrt := by
          rw [Nat.le_sqrt]
          calc 2 ^ 52 * 2 ^ 52 = 2 ^ 104 := by norm_num
            _ ≤ 2 ^ (m.log2 + k) := Nat.pow_le_pow_right (by decide) (by omega)
            _ = 2 ^ m.log2 * 2 ^ k := Nat.pow_add ..
            _ ≤ m * 2 ^ k := Nat.mul_le_mul_right _ (Nat.log2_self_le hm.ne')
        have hlog := (Nat.le_log2 (by omega)).2 hroot
        omega
    obtain ⟨y, hylo, hyhi, hy⟩ := stands_root (m * 2 ^ k)
    refine ⟨y * 2 ^ t, ?_, ?_⟩
    · -- The root of a double is far from the greatest one.
      have hroot : (m * 2 ^ k).sqrt + 1 ≤ 2 ^ ((54 + k) / 2) := by
        rw [Nat.add_one_le_iff, Nat.sqrt_lt', ← Nat.pow_mul]
        calc m * 2 ^ k < 2 ^ 53 * 2 ^ k := Nat.mul_lt_mul_of_pos_right hu.1 (Nat.two_pow_pos k)
          _ = 2 ^ (53 + k) := (Nat.pow_add ..).symm
          _ ≤ 2 ^ ((54 + k) / 2 * 2) := Nat.pow_le_pow_right (by decide) (by omega)
      have hroot' : ((m * 2 ^ k).sqrt : ℚ) + 1 ≤ 2 ^ ((54 + k) / 2) := by exact_mod_cast hroot
      calc y * 2 ^ t < 2 ^ ((54 + k) / 2) * 2 ^ t :=
            mul_lt_mul_of_pos_right (hyhi.trans_le hroot') (by positivity)
        _ = 2 ^ (((54 + k) / 2 : Nat) + t) := by rw [zpow_add₀ (by norm_num), zpow_natCast]
        _ ≤ 2 ^ (970 : Int) := zpow_le_zpow_right₀ (by norm_num) (by omega)
        _ ≤ Binary64.overflow :=
            le_mul_of_one_le_left (by positivity) (by norm_num)
    · have hr := rounded_roundWithAccuracy hy hexp
      simpa only [UnpackedFloat.sqrt, sqrtCore, ht, hk, Nat.shiftLeft_eq] using hr

end Operations

section Amounts

/-- A finite machine number that is not negative. -/
structure Amount (x : Float) : Prop where
  finite : x.isFinite = true
  sign : NonNegative x.toModel.unpack

def amount (x : Float) : ℚ := magnitude x.toModel.unpack

theorem Amount.normal {x : Float} (h : Amount x) :
    Normal x.toModel.unpack ∧ amount x ≤ Binary64.greatest :=
  normal_unpack h.finite

theorem Rounded.amount {y : ℚ} {u : UnpackedFloat} (h : Rounded y u)
    (hy : y < Binary64.overflow) {x : Float} (hx : x.toModel = Float.Model.pack u) :
    Amount x ∧ x.toModel.unpack = u := by
  have hu : x.toModel.unpack = u := by
    rw [hx]
    exact unpack_pack h.normal (h.top hy)
  refine ⟨⟨?_, hu ▸ h.sign⟩, hu⟩
  show x.toModel.unpack.isFinite = true
  rw [hu]
  cases u with
  | finite s m e hm => rfl
  | zero s => rfl
  | infinity s => exact h.normal.elim
  | notANumber => exact h.normal.elim

theorem amount_one : Amount 1 ∧ amount 1 = 1 := by
  have hone : (1 : Float).toModel.unpack = .finite .positive (2 ^ 52) (-52) (by decide) := rfl
  refine ⟨⟨rfl, by rw [hone]; rfl⟩, ?_⟩
  rw [amount, hone, magnitude]
  norm_num

theorem Amount.sqrt {x : Float} (h : Amount x) : Amount x.sqrt := by
  obtain ⟨hn, hle⟩ := h.normal
  obtain ⟨y, hy, hr⟩ := rounded_sqrt hn h.sign hle
  exact (hr.amount hy rfl).1

theorem one_add_greatest_lt : 1 + (Binary64.greatest : ℚ) < Binary64.overflow := by
  have hunit : (2 : ℚ) ^ (2 : Int) ≤ 2 ^ (971 : Int) :=
    zpow_le_zpow_right₀ (by norm_num) (by norm_num)
  rw [greatest_eq, Binary64.overflow_eq]
  generalize (2 : ℚ) ^ (971 : Int) = unit at *
  norm_num at hunit
  linarith

theorem Amount.one_add {x : Float} (h : Amount x) :
    Amount (1 + x) ∧ amount x ≤ amount (1 + x) ∧ 1 ≤ amount (1 + x) := by
  obtain ⟨hn, hle⟩ := h.normal
  obtain ⟨h1, hone⟩ := amount_one
  have hx : 0 ≤ amount x := magnitude_nonneg _
  have hr : Rounded (amount 1 + amount x) _ := rounded_add h1.normal.1 hn h1.sign h.sign
  rw [hone] at hr
  obtain ⟨hamount, hu⟩ := hr.amount (x := 1 + x) (by linarith [one_add_greatest_lt]) rfl
  have hge := hr.ge _ hn
  have hge1 := hr.ge _ h1.normal.1
  rw [← hu] at hge hge1
  refine ⟨hamount, hge ?_, hone ▸ hge1 ?_⟩
  · show amount x ≤ 1 + amount x
    linarith
  · show amount 1 ≤ 1 + amount x
    linarith

theorem Amount.div {x y : Float} (hx : Amount x) (hy : Amount y) (hpos : 0 < amount y)
    (hle : amount x ≤ amount y) : Amount (x / y) ∧ amount (x / y) ≤ 1 := by
  obtain ⟨h1, hone⟩ := amount_one
  have hr : Rounded (amount x / amount y) _ :=
    rounded_div hx.normal.1 hy.normal.1 hx.sign hy.sign hpos
  have hq : amount x / amount y ≤ 1 := (div_le_one hpos).2 hle
  have hg : (0 : ℚ) ≤ Binary64.greatest := Nat.cast_nonneg _
  obtain ⟨hamount, hu⟩ := hr.amount (x := x / y) (by linarith [one_add_greatest_lt]) rfl
  have hle1 := hr.le _ h1.normal.1 (hq.trans hone.ge)
  rw [← hu] at hle1
  exact ⟨hamount, hle1.trans hone.le⟩

theorem Amount.mul {x y : Float} (hx : Amount x) (hy : Amount y) (hle : amount y ≤ 1) :
    Amount (x * y) := by
  obtain ⟨hn, hgreatest⟩ := hx.normal
  have hr : Rounded (amount x * amount y) _ := rounded_mul hn hy.normal.1 hx.sign hy.sign
  have hx0 : 0 ≤ amount x := magnitude_nonneg _
  have hprod : amount x * amount y ≤ amount x := mul_le_of_le_one_right hx0 hle
  exact (hr.amount (x := x * y) (by linarith [Binary64.greatest_lt_overflow]) rfl).1

end Amounts

end SymbolAtlas
