import Mathlib
import SymbolAtlas.Proofs.Doubles

/-!
Machine numbers through their bit patterns. Only signs and finiteness are looked at here.
-/

set_option autoImplicit false

namespace SymbolAtlas

open Float.Model Float.Model.UnpackedFloat

theorem toNat_unpackMantissa (b : BitVec Format.binary64.numBits) :
    (unpackMantissa b).toNat = b.toNat % 2 ^ 52 := by
  simp only [unpackMantissa, BitVec.toNat_cast, BitVec.extractLsb_toNat, Nat.shiftRight_zero]

theorem toNat_unpackExponent (b : BitVec Format.binary64.numBits) :
    (unpackExponent b).toNat = b.toNat / 2 ^ 52 % 2 ^ 11 := by
  simp only [unpackExponent, BitVec.toNat_cast, BitVec.extractLsb_toNat, Nat.shiftRight_eq_div_pow]

theorem unpackExponent_full (b : BitVec Format.binary64.numBits) :
    unpackExponent b = -1#_ ↔ b.toNat / 2 ^ 52 % 2 ^ 11 = 2047 := by
  rw [← BitVec.toNat_inj, toNat_unpackExponent]
  rfl

theorem toNat_unpackSign (b : BitVec Format.binary64.numBits) :
    (unpackSign b).toNat = b.toNat / 2 ^ 63 % 2 := by
  simp only [unpackSign, BitVec.toNat_cast, BitVec.extractLsb_toNat, Nat.shiftRight_eq_div_pow]

/-- No number below zero; what is no number at all is not excluded. -/
def NonNegative : UnpackedFloat → Prop
  | .notANumber => True
  | .infinity s => s = .positive
  | .zero s => s = .positive
  | .finite s _ _ _ => s = .positive

theorem nonNegative_unpack {b : BitVec Format.binary64.numBits} (h : unpackSign b = 0#1) :
    NonNegative (unpack .binary64 b) := by
  have hs : Sign.ofBitVec (unpackSign b) = .positive := by rw [h]; rfl
  simp only [UnpackedFloat.unpack, hs]
  split
  · split <;> simp [NonNegative]
  · split
    · split <;> simp [NonNegative]
    · simp [NonNegative]

theorem unpackSign_of_lt {b : BitVec Format.binary64.numBits} (h : b.toNat < 2 ^ 63) :
    unpackSign b = 0#1 := by
  apply BitVec.eq_of_toNat_eq
  rw [toNat_unpackSign, Nat.div_eq_of_lt h]
  rfl

/-- A pattern is kept, but for the many patterns that stand for no number. -/
theorem unpack_pack_unpack (b : BitVec Format.binary64.numBits) :
    unpack .binary64 (pack .binary64 (unpack .binary64 b)) = unpack .binary64 b := by
  rw [pack_unpack b]
  by_cases h : isNaNBits b = true
  · obtain ⟨he, hm⟩ : unpackExponent b = -1#_ ∧ unpackMantissa b ≠ 0#_ := by
      rwa [isNaNBits, decide_eq_true_iff] at h
    rw [if_pos h, unpack_packedNaN]
    simp only [UnpackedFloat.unpack, he, hm, if_true, if_false]
  · rw [if_neg h]

theorem unpack_ofBits (a : UInt64) :
    (Float.ofBits a).toModel.unpack = unpack .binary64 a.toBitVec :=
  unpack_pack_unpack a.toBitVec

theorem nonNegative_ofBits {a : UInt64} (h : a.toNat < 2 ^ 63) :
    NonNegative (Float.ofBits a).toModel.unpack := by
  rw [unpack_ofBits]
  exact nonNegative_unpack (unpackSign_of_lt h)

theorem float_lt_iff (x y : Float) :
    x < y ↔ x.toModel.unpack.compare y.toModel.unpack = some .lt := by
  show decide (x.toModel < y.toModel) = true ↔ _
  rw [decide_eq_true_iff]
  show (x.toModel.unpack.compare y.toModel.unpack == some .lt) = true ↔ _
  exact beq_iff_eq

theorem float_le_iff (x y : Float) :
    x ≤ y ↔ ∃ o, x.toModel.unpack.compare y.toModel.unpack = some o ∧ o.isLE = true := by
  show decide (x.toModel ≤ y.toModel) = true ↔ _
  rw [decide_eq_true_iff]
  show ((x.toModel.unpack.compare y.toModel.unpack).any (·.isLE)) = true ↔ _
  exact Option.any_eq_true ..

theorem compare_zero {u : UnpackedFloat} (h : NonNegative u) :
    u.compare (.zero .positive) ≠ some .lt := by
  cases u with
  | notANumber => simp [UnpackedFloat.compare]
  | infinity s =>
    cases h
    simp [UnpackedFloat.compare]
  | zero s => simp [UnpackedFloat.compare]
  | finite s m e hm =>
    cases h
    simp [UnpackedFloat.compare]

theorem not_lt_zero {x : Float} (h : NonNegative x.toModel.unpack) : ¬ x < 0 := by
  have h0 : (0 : Float).toModel.unpack = .zero .positive := rfl
  rw [float_lt_iff, h0]
  exact compare_zero h

theorem compare_negative {u : UnpackedFloat} (h : NonNegative u) {m : Nat} {e : Int}
    {hm : 0 < m} {o : Ordering} (ho : u.compare (.finite .negative m e hm) = some o) : o = .gt := by
  cases u with
  | notANumber => simp [UnpackedFloat.compare] at ho
  | infinity s =>
    cases h
    simpa [UnpackedFloat.compare] using ho.symm
  | zero s =>
    cases h
    simpa [UnpackedFloat.compare] using ho.symm
  | finite s m e hm =>
    cases h
    simpa [UnpackedFloat.compare] using ho.symm

theorem not_le_neg_one {x : Float} (h : NonNegative x.toModel.unpack) : ¬ x ≤ -1 := by
  have h1 : (-1 : Float).toModel.unpack =
      .finite .negative (2 ^ 52) (-52) (by decide) := rfl
  rw [float_le_iff, h1]
  rintro ⟨o, ho, hle⟩
  rw [compare_negative h ho] at hle
  exact absurd hle (by decide)

theorem isFinite_unpack_iff (b : BitVec Format.binary64.numBits) :
    (unpack .binary64 b).isFinite = true ↔ b.toNat / 2 ^ 52 % 2 ^ 11 ≠ 2047 := by
  have hfinite : (unpack .binary64 b).isFinite = true ↔ ¬ unpackExponent b = -1#_ := by
    by_cases h : unpackExponent b = -1#_
    · simp only [UnpackedFloat.unpack, h, if_true]
      split <;> simp [UnpackedFloat.isFinite]
    · simp only [UnpackedFloat.unpack, h, if_false]
      split
      · split <;> simp [UnpackedFloat.isFinite]
      · simp [UnpackedFloat.isFinite]
  rw [hfinite, unpackExponent_full]

def Binary64.greatest : Nat := (2 ^ 53 - 1) * 2 ^ 971

theorem isFinite_iff (x : Float) : x.isFinite = true ↔ x.toBits.toNat / 2 ^ 52 % 2 ^ 11 ≠ 2047 :=
  isFinite_unpack_iff x.toBits.toBitVec

theorem ofBits_of_finite {bits : Nat} (h : bits / 2 ^ 52 % 2 ^ 11 ≠ 2047) :
    ∃ negative mantissa exponent, Binary64.ofBits bits = .finite negative mantissa exponent ∧
      mantissa ≤ 2 ^ 53 - 1 ∧ exponent ≤ 971 := by
  have hlt := Nat.mod_lt (bits / 2 ^ 52) (show 0 < 2 ^ 11 by decide)
  have hf := Nat.mod_lt bits (show 0 < 2 ^ 52 by decide)
  by_cases h0 : bits / 2 ^ 52 % 2 ^ 11 = 0
  · refine ⟨_, _, _, by simp only [Binary64.ofBits, h0]; rfl, ?_, by decide⟩
    omega
  · refine ⟨_, _, _, by simp only [Binary64.ofBits, h, h0]; rfl, ?_, ?_⟩
    · omega
    · omega

theorem ofBits_of_not_finite {bits : Nat} (h : bits / 2 ^ 52 % 2 ^ 11 = 2047) :
    Binary64.ofBits bits = .nan ∨ ∃ negative, Binary64.ofBits bits = .infinite negative := by
  by_cases h0 : bits % 2 ^ 52 = 0
  · exact .inr ⟨_, by simp only [Binary64.ofBits, h, h0]; rfl⟩
  · exact .inl (by simp only [Binary64.ofBits, h, h0]; rfl)

theorem Binary64.truncate?_finite (negative : Bool) {mantissa : Nat} {exponent : Int}
    (hm : mantissa ≤ 2 ^ 53 - 1) (he : exponent ≤ 971) :
    ∃ n : Int, (Binary64.finite negative mantissa exponent).truncate? = some n ∧
      n ≤ (greatest : Int) := by
  have hbound : ∃ n d, (Binary64.finite negative mantissa exponent).ratio? =
      some (negative, n, d) ∧ n / d ≤ greatest := by
    by_cases h0 : 0 ≤ exponent
    · refine ⟨_, _, by simp only [ratio?, h0]; rfl, ?_⟩
      rw [Nat.div_one]
      have hexp : exponent.toNat ≤ 971 := by omega
      exact Nat.mul_le_mul hm (pow_le_pow_right₀ one_le_two hexp)
    · refine ⟨_, _, by simp only [ratio?, h0]; rfl, ?_⟩
      calc mantissa / 2 ^ (-exponent).toNat ≤ mantissa := Nat.div_le_self ..
        _ ≤ (2 ^ 53 - 1) * 1 := by rwa [Nat.mul_one]
        _ ≤ greatest := Nat.mul_le_mul_left _ (one_le_pow₀ one_le_two)
  obtain ⟨n, d, hr, hle⟩ := hbound
  refine ⟨_, by simp only [truncate?, hr]; rfl, ?_⟩
  generalize n / d = q at hle
  split <;> omega

theorem truncateFloat_of_finite {x : Float} (h : x.isFinite = true) :
    ∃ n, truncateFloat x = .ok n ∧ n ≤ (Binary64.greatest : Int) := by
  obtain ⟨negative, mantissa, exponent, hx, hm, he⟩ := ofBits_of_finite ((isFinite_iff x).1 h)
  obtain ⟨n, hn, hle⟩ := Binary64.truncate?_finite negative hm he
  exact ⟨n, by simp only [truncateFloat, Binary64.ofFloat, hx, hn], hle⟩

theorem truncateFloat_of_not_finite {x : Float} (h : ¬ x.isFinite = true) :
    ∃ e, truncateFloat x = .error e := by
  rw [isFinite_iff, not_not] at h
  rcases ofBits_of_not_finite h with hx | ⟨negative, hx⟩
  · exact ⟨.nanToWhole, by simp only [truncateFloat, Binary64.ofFloat, hx]⟩
  · exact ⟨.infiniteToWhole, by simp only [truncateFloat, Binary64.ofFloat, hx]⟩

end SymbolAtlas
