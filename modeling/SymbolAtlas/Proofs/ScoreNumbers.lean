import SymbolAtlas.Proofs.Acceptance
import SymbolAtlas.Proofs.FloatOrder
import SymbolAtlas.Scoring

/-!
Scores of definitions are numbers. Under accepted settings every step of a score stays finite: the
density is at most one, the weight is finite, and a level is a power of a proper fraction.
-/

set_option autoImplicit false

namespace SymbolAtlas

open Float.Model Float.Model.UnpackedFloat

theorem cases_of_nonneg {x : Float} (h : 0 ≤ x) :
    x.toModel.unpack = .infinity .positive ∨ (∃ s, x.toModel.unpack = .zero s) ∨ Amount x := by
  obtain ⟨o, ho, hle⟩ := (float_le_iff 0 x).1 h
  have h0 : (0 : Float).toModel.unpack = .zero .positive := rfl
  rw [h0] at ho
  cases hu : x.toModel.unpack with
  | notANumber => simp [hu, UnpackedFloat.compare] at ho
  | zero s => exact .inr (.inl ⟨s, rfl⟩)
  | infinity s =>
    cases s with
    | positive => exact .inl rfl
    | negative =>
      simp only [hu, UnpackedFloat.compare, Option.some.injEq] at ho
      simp [← ho] at hle
  | finite s m e hm =>
    cases s with
    | positive =>
      refine .inr (.inr ⟨?_, by rw [hu]; rfl⟩)
      show x.toModel.unpack.isFinite = true
      rw [hu]
      rfl
    | negative =>
      simp only [hu, UnpackedFloat.compare, Option.some.injEq] at ho
      simp [← ho] at hle

theorem not_infinity_lt {x y : Float} (hx : x.toModel.unpack = .infinity .positive) : ¬ x < y := by
  rw [float_lt_iff, hx]
  cases y.toModel.unpack with
  | infinity s => cases s <;> simp [UnpackedFloat.compare]
  | _ => simp [UnpackedFloat.compare]

theorem isFinite_fractionPower (x k : Float) : (fractionPower x k).isFinite = true := by
  simp only [fractionPower]
  split
  · next h =>
    obtain ⟨h0, h1⟩ : 0 ≤ x.pow k ∧ x.pow k ≤ 1 := by simpa using h
    rcases cases_of_nonneg h0 with hu | ⟨s, hu⟩ | ha
    · obtain ⟨o, ho, hle⟩ := (float_le_iff _ _).1 h1
      have hone : (1 : Float).toModel.unpack = .finite .positive (2 ^ 52) (-52) (by decide) := rfl
      simp only [hu, hone, UnpackedFloat.compare, Option.some.injEq] at ho
      simp [← ho] at hle
    · show (x.pow k).toModel.unpack.isFinite = true
      rw [hu]
      rfl
    · exact ha.finite
  · rfl

theorem unpack_zero_mul {x y : Float} {s : Sign} (hx : x.toModel.unpack = .zero s)
    (hy : Amount y) : ∃ t, (x * y).toModel.unpack = .zero t := by
  have hmul : ∃ t, (x * y).toModel = Float.Model.pack (.zero t) := by
    show ∃ t, Float.Model.pack (mul .binary64 x.toModel.unpack y.toModel.unpack) = _
    rw [hx]
    rcases hy.normal.1.cases hy.sign with hv | ⟨m, e, hm, hv, _⟩
    · exact ⟨_, by rw [hv]; rfl⟩
    · exact ⟨_, by rw [hv]; rfl⟩
  obtain ⟨t, ht⟩ := hmul
  refine ⟨t, ?_⟩
  rw [ht]
  exact unpack_pack (u := .zero t) trivial (Nat.cast_nonneg _)

theorem amount_one_add_zero {x : Float} {s : Sign} (hx : x.toModel.unpack = .zero s) :
    Amount (1 + x) := by
  obtain ⟨h1, hone⟩ := amount_one
  have hadd : (1 + x).toModel = Float.Model.pack (1 : Float).toModel.unpack := by
    show Float.Model.pack (add .binary64 (1 : Float).toModel.unpack x.toModel.unpack) = _
    rw [hx]
    rfl
  have hr := rounded_self h1.normal.1 h1.sign
  exact (hr.amount (h1.normal.2.trans_lt Binary64.greatest_lt_overflow) hadd).1

/-- A finite weight of a density makes a finite bonus. The weight may be the negative zero. -/
theorem amount_bonus {weight limit d : Float} (h0 : 0 ≤ weight) (h : weight < limit)
    (hd : Amount d) (hle : amount d ≤ 1) : Amount (1 + weight * d) := by
  rcases cases_of_nonneg h0 with hu | ⟨s, hu⟩ | ha
  · exact absurd h (not_infinity_lt hu)
  · obtain ⟨t, ht⟩ := unpack_zero_mul hu hd
    exact amount_one_add_zero ht
  · exact (ha.mul hd hle).one_add.1

theorem Binary64.amount_nearest (n : Nat) {d : Nat} (hd : 0 < d)
    (h : ∀ negative, nearest n d ≠ .infinite negative) : Amount (nearest n d).toFloat := by
  have hlt := (toBits_nearest n hd).2 h
  refine ⟨?_, nonNegative_nearest n hd⟩
  show (Float.ofBits (UInt64.ofNat (nearest n d).toBits)).toModel.unpack.isFinite = true
  rw [unpack_ofBits, isFinite_unpack_iff, UInt64.toNat_toBitVec, toNat_ofNat_nearest n hd]
  omega

namespace Score

theorem quotient_amount {n d : Nat} (hd : 0 < d) {q : Float}
    (h : ScoreArithmetic.quotient (n : Int) (d : Int) = .ok q) : Amount q := by
  have hd0 : ¬ ((d : Int) = 0) := by omega
  have hn : decide ((n : Int) < 0) = false := by simp
  have hd' : decide ((d : Int) < 0) = false := by simp
  simp only [ScoreArithmetic.quotient, Binary64.quotient, hd0, if_false, Int.natAbs_natCast, hn,
    hd'] at h
  split at h
  · cases h
  · next hfinite =>
    cases h
    exact Binary64.amount_nearest n hd hfinite

theorem density_amount {lines definitions : Nat} {d : Float}
    (h : density (lines : Int) (definitions : Int) = .ok d) : Amount d ∧ amount d ≤ 1 := by
  have hlines : max (lines : Int) 0 = lines := by omega
  have hdefinitions : (definitions : Int) + 1 = ((definitions + 1 : Nat) : Int) := by omega
  simp only [density, hlines, hdefinitions] at h
  cases hq : (ScoreArithmetic.quotient (lines : Int) ((definitions + 1 : Nat) : Int) :
      Except ArithmeticFault Float) with
  | error e =>
    simp only [hq] at h
    cases h
  | ok q =>
    have ha := quotient_amount (Nat.succ_pos definitions) hq
    simp only [hq, ScoreArithmetic.sqrt, not_lt_zero ha.sign, if_false, Except.ok.injEq] at h
    subst h
    obtain ⟨hsum, hle, hone⟩ := ha.sqrt.one_add
    have hpos : 0 < amount (1 + q.sqrt) := by linarith
    exact ha.sqrt.div hsum hpos hle

theorem power_finite {decay : Float} (h0 : 0 < decay) (h1 : decay < 1) {depth : Nat} {level : Float}
    (h : ScoreArithmetic.power decay (depth : Int) = .ok level) : level.isFinite = true := by
  have hd : (0 : Int) ≤ depth := by omega
  cases hk : Binary64.ofIntChecked depth with
  | error e => simp [ScoreArithmetic.power, hk] at h
  | ok k =>
    simp only [ScoreArithmetic.power, hk, h0, h1, hd, decide_true, Bool.and_self, if_true,
      Except.ok.injEq] at h
    subst h
    exact isFinite_fractionPower decay k.toFloat

/-- Under a decay and a weight that are accepted, the score of a definition is a number. -/
theorem isNumber_definition {rule : ScoringRule Float} (h0 : 0 < rule.decay) (h1 : rule.decay < 1)
    (hw : 0 ≤ rule.weight) {limit : Float} (hl : rule.weight < limit)
    {depth lines definitions : Nat} {score : Float}
    (h : definition rule depth lines definitions = .ok score) : IsNumber score := by
  cases hlevel : ScoreArithmetic.power rule.decay (depth : Int) with
  | error e => simp [definition, hlevel] at h
  | ok level =>
    cases hdensity : (density (lines : Int) (definitions : Int) : Except ArithmeticFault Float) with
    | error e => simp [definition, hlevel, hdensity] at h
    | ok d =>
      obtain ⟨hd, hle⟩ := density_amount hdensity
      simp only [definition, hlevel, hdensity, Except.ok.injEq] at h
      subst h
      exact isNumber_mul (power_finite h0 h1 hlevel) (amount_bonus hw hl hd hle).finite

end Score

theorem Settings.isNumber_ofTokens {accounts : Accounts} {v : Value} {s : Settings}
    (h : Validation.settings accounts v = .accepted s) {f : FileFacts} {score : Float}
    (hs : Score.ofTokens s.scoringRule f = .ok score) : IsNumber score := by
  obtain ⟨h0, h1⟩ : 0 < s.scoringRule.decay ∧ s.scoringRule.decay < 1 :=
    Validation.settings_accepted h
  obtain ⟨hw, hl⟩ : 0 ≤ s.scoringRule.weight ∧ s.scoringRule.weight < _ :=
    Validation.settings_weight h
  exact Score.isNumber_definition h0 h1 hw hl hs

end SymbolAtlas
