import Mathlib.Data.Prod.Lex
import SymbolAtlas.Proofs.Amounts

/-!
The order of machine numbers. Away from what is no number at all, comparisons are those of a rank
in a linear order, and rounding to significant digits keeps equal numbers equal.
-/

set_option autoImplicit false

namespace SymbolAtlas

open Float.Model Float.Model.UnpackedFloat

section Rank

/-- The place of a number: its kind, then exponent and mantissa. Both zeros have one place. -/
def rank : UnpackedFloat → ℤ ×ₗ ℤ ×ₗ ℤ
  | .infinity .negative => toLex (-2, toLex (0, 0))
  | .finite .negative m e _ => toLex (-1, toLex (-e, -m))
  | .zero _ => toLex (0, toLex (0, 0))
  | .notANumber => toLex (0, toLex (0, 0))
  | .finite .positive m e _ => toLex (1, toLex (e, m))
  | .infinity .positive => toLex (2, toLex (0, 0))

theorem compare_eq_lt_iff {u v : UnpackedFloat} (hu : u ≠ .notANumber) (hv : v ≠ .notANumber) :
    u.compare v = some .lt ↔ rank u < rank v := by
  -- Numbers of different kinds compare as their kinds do.
  rcases u with (_ | _) | _ | (_ | _) | ⟨_ | _, m, e, hm⟩ <;>
    rcases v with (_ | _) | _ | (_ | _) | ⟨_ | _, m', e', hm'⟩ <;>
    simp_all [UnpackedFloat.compare, rank, Prod.Lex.toLex_lt_toLex]
  · rfl
  · rw [Ordering.then_eq_gt, compare_gt_iff_gt, compare_eq_iff_eq, compare_gt_iff_gt]
  · rw [Ordering.then_eq_lt, compare_lt_iff_lt, compare_eq_iff_eq, compare_lt_iff_lt]

theorem compare_eq_eq_iff {u v : UnpackedFloat} (hu : u ≠ .notANumber) (hv : v ≠ .notANumber) :
    u.compare v = some .eq ↔ rank u = rank v := by
  rcases u with (_ | _) | _ | (_ | _) | ⟨_ | _, m, e, hm⟩ <;>
    rcases v with (_ | _) | _ | (_ | _) | ⟨_ | _, m', e', hm'⟩ <;>
    simp_all [UnpackedFloat.compare, rank]
  · rfl
  · rfl

theorem isSome_compare_iff (u v : UnpackedFloat) :
    (u.compare v).isSome ↔ u ≠ .notANumber ∧ v ≠ .notANumber := by
  rcases u with (_ | _) | _ | (_ | _) | ⟨_ | _, m, e, hm⟩ <;>
    rcases v with (_ | _) | _ | (_ | _) | ⟨_ | _, m', e', hm'⟩ <;>
    simp [UnpackedFloat.compare]

theorem eq_of_rank_eq {u v : UnpackedFloat} (hu : u ≠ .notANumber) (hv : v ≠ .notANumber)
    (h : rank u = rank v) : u = v ∨ ∃ s t, u = .zero s ∧ v = .zero t := by
  rcases u with (_ | _) | _ | (_ | _) | ⟨_ | _, m, e, hm⟩ <;>
    rcases v with (_ | _) | _ | (_ | _) | ⟨_ | _, m', e', hm'⟩ <;>
    simp_all [rank]

end Rank

section Numbers

def IsNumber (x : Float) : Prop := x.toModel.unpack ≠ .notANumber

def place (x : Float) : ℤ ×ₗ ℤ ×ₗ ℤ := rank x.toModel.unpack

theorem float_lt_iff_place {x y : Float} (hx : IsNumber x) (hy : IsNumber y) :
    x < y ↔ place x < place y :=
  (float_lt_iff x y).trans (compare_eq_lt_iff hx hy)

theorem float_beq_iff (x y : Float) :
    (x == y) = true ↔ IsNumber x ∧ IsNumber y ∧ place x = place y := by
  have hbeq : (x == y) = true ↔ x.toModel.unpack.compare y.toModel.unpack = some .eq := by
    show (x.toModel.unpack.compare y.toModel.unpack == some .eq) = true ↔ _
    exact beq_iff_eq
  rw [hbeq]
  constructor
  · intro h
    obtain ⟨hx, hy⟩ := (isSome_compare_iff ..).1 (Option.isSome_of_eq_some h)
    exact ⟨hx, hy, (compare_eq_eq_iff hx hy).1 h⟩
  · rintro ⟨hx, hy, h⟩
    exact (compare_eq_eq_iff hx hy).2 h

end Numbers

section Packing

theorem unpack_ne_nan {b : BitVec Format.binary64.numBits} (h : unpackExponent b ≠ -1#_) :
    unpack .binary64 b ≠ .notANumber := by
  simp only [UnpackedFloat.unpack, h, if_false]
  split
  · split <;> simp
  · simp

/-- Packing makes infinities, but nothing that is no number. -/
theorem unpack_pack_ne_nan {u : UnpackedFloat} (h : u ≠ .notANumber) :
    unpack .binary64 (pack .binary64 u) ≠ .notANumber := by
  have hinfinity : ∀ s, unpack .binary64 (packedInfinity .binary64 s) ≠ .notANumber := by
    intro s hs
    cases s <;> cases hs
  cases u with
  | notANumber => exact absurd rfl h
  | infinity s => exact hinfinity s
  | zero s => cases s <;> exact unpack_ne_nan (by decide)
  | finite s m e hm =>
    simp only [UnpackedFloat.pack]
    split
    · exact hinfinity s
    · next hrange =>
      split
      · apply unpack_ne_nan
        rw [unpackExponent_packComponents]
        intro hall
        have hbiased : _ = 2047 := congrArg BitVec.toNat hall
        rw [BitVec.toNat_ofNat] at hbiased
        have hbits : 2 ^ Format.binary64.exponentBits = 2048 := rfl
        omega
      · apply unpack_ne_nan
        rw [unpackExponent_packComponents]
        decide

theorem isNumber_mul {x y : Float} (hx : x.isFinite = true) (hy : y.isFinite = true) :
    IsNumber (x * y) := by
  have hround : ∀ s m e a, roundWithAccuracy .binary64 s m e a ≠ .notANumber := by
    intro s m e a
    rw [roundWithAccuracy_eq, finish]
    split <;> simp
  refine unpack_pack_ne_nan ?_
  have hx' : x.toModel.unpack.isFinite = true := hx
  have hy' : y.toModel.unpack.isFinite = true := hy
  show UnpackedFloat.mul .binary64 x.toModel.unpack y.toModel.unpack ≠ _
  cases hu : x.toModel.unpack with
  | infinity s => simp [hu, UnpackedFloat.isFinite] at hx'
  | notANumber => simp [hu, UnpackedFloat.isFinite] at hx'
  | zero s =>
    cases hv : y.toModel.unpack with
    | infinity t => simp [hv, UnpackedFloat.isFinite] at hy'
    | notANumber => simp [hv, UnpackedFloat.isFinite] at hy'
    | zero t => simp [UnpackedFloat.mul]
    | finite t m' e' hm' => simp [UnpackedFloat.mul]
  | finite s m e hm =>
    cases hv : y.toModel.unpack with
    | infinity t => simp [hv, UnpackedFloat.isFinite] at hy'
    | notANumber => simp [hv, UnpackedFloat.isFinite] at hy'
    | zero t => simp [UnpackedFloat.mul]
    | finite t m' e' hm' => exact fun h => hround _ _ _ _ h

end Packing

section Digits

namespace Binary64

def ofUnpacked : UnpackedFloat → Binary64
  | .notANumber => .nan
  | .infinity s => .infinite (s == .negative)
  | .zero s => .finite (s == .negative) 0 leastExponent
  | .finite s m e _ => .finite (s == .negative) m e

theorem unpackSign_eq (b : BitVec Format.binary64.numBits) :
    (Sign.ofBitVec (unpackSign b) == .negative) = decide (b.toNat / 2 ^ 63 % 2 = 1) := by
  rw [← toNat_unpackSign]
  have hlt := (unpackSign b).isLt
  by_cases h0 : unpackSign b = 0#1
  · rw [h0]
    rfl
  · have h1 : unpackSign b = 1#1 := by
      apply BitVec.eq_of_toNat_eq
      have hne : (unpackSign b).toNat ≠ 0 := fun h => h0 (BitVec.eq_of_toNat_eq h)
      show (unpackSign b).toNat = 1
      omega
    rw [h1]
    rfl

theorem ofBits_eq (b : BitVec Format.binary64.numBits) :
    ofBits b.toNat = ofUnpacked (unpack .binary64 b) := by
  have hm := toNat_unpackMantissa b
  have he := toNat_unpackExponent b
  have hs := unpackSign_eq b
  have hall := unpackExponent_full b
  have hnone : unpackExponent b = 0#_ ↔ b.toNat / 2 ^ 52 % 2 ^ 11 = 0 := by
    rw [← BitVec.toNat_inj, he]
    rfl
  have hzero : unpackMantissa b = 0#_ ↔ b.toNat % 2 ^ 52 = 0 := by
    rw [← BitVec.toNat_inj, hm]
    rfl
  have hbias : ((Format.binary64.exponentBias : Int) +
      (Format.binary64.mantissaBitsWithoutImplicit : Int)) = 1075 := rfl
  have himplicit := toNat_implicit (unpackMantissa b)
  simp only [ofBits, UnpackedFloat.unpack, ← hall, ← hnone, ← hzero]
  by_cases h1 : unpackExponent b = -1#_
  · by_cases h2 : unpackMantissa b = 0#_
    · simp only [h1, h2, if_true, ofUnpacked, hs]
    · simp only [h1, h2, if_true, if_false, ofUnpacked]
  · by_cases h3 : unpackExponent b = 0#_
    · have h01 : ¬ (0#11 = -1#11) := by decide
      by_cases h2 : unpackMantissa b = 0#_
      · have h0 := hzero.1 h2
        simp only [h01, h2, h3, if_true, if_false, dif_pos, ofUnpacked, hs, h0]
      · simp only [h01, h2, h3, if_true, if_false, dif_neg, not_false_eq_true, ofUnpacked, hs, hm]
        rfl
    · simp only [h1, h3, if_false, ofUnpacked, hs, hbias, himplicit, hm, he]

theorem ofFloat_eq (x : Float) : ofFloat x = ofUnpacked x.toModel.unpack :=
  ofBits_eq x.toBits.toBitVec

theorem isNumber_ofBits {a : UInt64} (h : a.toNat % 2 ^ 63 ≤ 2047 * 2 ^ 52) :
    IsNumber (Float.ofBits a) := by
  intro hnan
  have hread : ofBits a.toNat = .nan := by
    rw [← UInt64.toNat_toBitVec, ofBits_eq, ← unpack_ofBits, hnan]
    rfl
  simp only [ofBits] at hread
  split at hread
  · split at hread
    · cases hread
    · omega
  · split at hread <;> cases hread

theorem toBits_signed (n : Nat) {d : Nat} (hd : 0 < d) (negative : Bool) :
    (if negative then (nearest n d).negate else nearest n d).toBits =
      signBits negative + (nearest n d).toBits := by
  cases negative with
  | false => exact (Nat.zero_add _).symm
  | true =>
    rcases nearest_cases n hd with h | ⟨m, e, h, -⟩
    · rw [h]
      rfl
    · rw [h]
      simp only [if_true, negate, toBits, signBits, Bool.not_false, Bool.false_eq_true, if_false]
      split <;> omega

end Binary64

theorem Decimal.toBits_toBinary64 (x : Decimal) :
    ∃ bits ≤ 2047 * 2 ^ 52, ∀ negative,
      (if negative then x.toBinary64.negate else x.toBinary64).toBits =
        Binary64.signBits negative + bits := by
  have hd : 0 < x.ratio.2 := by
    rw [ratio]
    split
    · exact Nat.one_pos
    · exact Nat.pow_pos (by decide)
  simp only [toBinary64]
  split
  · exact ⟨0, by decide, fun negative => by cases negative <;> rfl⟩
  · split
    · exact ⟨2047 * 2 ^ 52, le_rfl, fun negative => by cases negative <;> rfl⟩
    · exact ⟨_, (Binary64.toBits_nearest _ hd).1, Binary64.toBits_signed _ hd⟩

theorem Decimal.isNumber_toFloat (x : Decimal) (negative : Bool) :
    IsNumber (if negative then x.toBinary64.negate else x.toBinary64).toFloat := by
  obtain ⟨bits, hle, h⟩ := x.toBits_toBinary64
  apply Binary64.isNumber_ofBits
  rw [h, UInt64.toNat_ofNat', Binary64.signBits]
  cases negative with
  | false =>
    simp only [Bool.false_eq_true, if_false]
    omega
  | true =>
    simp only [if_true]
    omega

theorem roundSignificant_zero (digits : Nat) {x : Float} {s : Sign}
    (hx : x.toModel.unpack = .zero s) : roundSignificant digits x = x := by
  have hread : Binary64.ofFloat x = .finite (s == .negative) 0 Binary64.leastExponent := by
    rw [Binary64.ofFloat_eq, hx]
    rfl
  have hleast : ¬ 0 ≤ Binary64.leastExponent := by decide
  simp only [roundSignificant, hread, Binary64.ratio?, hleast, if_false]

theorem roundSignificant_beq (digits : Nat) {x y : Float} (h : (x == y) = true) :
    (roundSignificant digits x == roundSignificant digits y) = true := by
  obtain ⟨hx, hy, hplace⟩ := (float_beq_iff x y).1 h
  rcases eq_of_rank_eq hx hy hplace with hu | ⟨s, t, hs, ht⟩
  · have hread : Binary64.ofFloat y = Binary64.ofFloat x := by
      rw [Binary64.ofFloat_eq, Binary64.ofFloat_eq, hu]
    simp only [roundSignificant, hread]
    split
    · exact h
    · exact h
    · rw [float_beq_iff]
      exact ⟨Decimal.isNumber_toFloat _ _, Decimal.isNumber_toFloat _ _, rfl⟩
  · rw [roundSignificant_zero digits hs, roundSignificant_zero digits ht]
    exact h

end Digits

end SymbolAtlas
