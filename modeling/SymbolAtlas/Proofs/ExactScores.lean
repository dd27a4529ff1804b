import Mathlib.Analysis.Real.Sqrt
import Mathlib.Analysis.SpecialFunctions.Log.Basic
import SymbolAtlas.Proofs.Scores

/-!
Scores in exact arithmetic. The bound on the density weight keeps a file below every file that lies
less deep, whatever their lines; at equal depths the score rises with the lines per definition.
-/

set_option autoImplicit false

namespace SymbolAtlas

noncomputable instance : ScoreArithmetic ℝ where
  one := 1
  add := (· + ·)
  mul := (· * ·)
  div := (· / ·)
  quotient n d := if d = 0 then .error .divisionByZero else .ok ((n : ℝ) / d)
  sqrt x := if x < 0 then .error .domain else .ok (Real.sqrt x)
  power x n := .ok (x ^ n)
  logSucc n := if n ≤ -1 then .error .domain else .ok (Real.log (1 + n))

structure ScoringRule.Accepted (rule : ScoringRule ℝ) : Prop where
  decay_pos : 0 < rule.decay
  decay_lt_one : rule.decay < 1
  weight_nonneg : 0 ≤ rule.weight
  weight_lt : rule.weight < (1 - rule.decay) / rule.decay

namespace Score

def lineShare (f : FileFacts) : ℚ := f.lineCount / (f.definitions.size + 1)

noncomputable def fraction (q : ℝ) : ℝ := Real.sqrt q / (1 + Real.sqrt q)

theorem fraction_nonneg (q : ℝ) : 0 ≤ fraction q := by
  have h := Real.sqrt_nonneg q
  exact div_nonneg h (by linarith)

theorem fraction_lt_one (q : ℝ) : fraction q < 1 := by
  have h := Real.sqrt_nonneg q
  rw [fraction, div_lt_one (by linarith)]
  linarith

theorem fraction_lt {p q : ℝ} (hp : 0 ≤ p) (h : p < q) : fraction p < fraction q := by
  have hs : Real.sqrt p < Real.sqrt q := Real.sqrt_lt_sqrt hp h
  have h0 := Real.sqrt_nonneg p
  rw [fraction, fraction, div_lt_div_iff₀ (by linarith) (by linarith)]
  linarith

/-- The score of the tokens of a file, in closed form. -/
noncomputable def exact (rule : ScoringRule ℝ) (f : FileFacts) : ℝ :=
  rule.decay ^ Path.depth f.path * (1 + rule.weight * fraction (lineShare f))

theorem ofTokens_exact (rule : ScoringRule ℝ) (f : FileFacts) :
    ofTokens rule f = .ok (exact rule f) := by
  have hd : ¬ ((f.definitions.size : Int) + 1 = 0) := by omega
  have hl : max (f.lineCount : Int) 0 = f.lineCount := by omega
  have hq : ((f.lineCount : Int) : ℝ) / (((f.definitions.size : Int) + 1 : Int) : ℝ) =
      (lineShare f : ℝ) := by
    simp [lineShare]
  have hn : ¬ ((lineShare f : ℝ) < 0) := by
    rw [not_lt, lineShare]
    positivity
  simp only [ofTokens, definition, density, ScoreArithmetic.power, ScoreArithmetic.quotient,
    ScoreArithmetic.sqrt, hl, hd, if_false, hq, hn, zpow_natCast]
  rfl

section Precedence

variable {rule : ScoringRule ℝ} (hr : rule.Accepted)

include hr

theorem pow_le_exact (f : FileFacts) : rule.decay ^ Path.depth f.path ≤ exact rule f := by
  have hpow := pow_pos hr.decay_pos (Path.depth f.path)
  have hfactor : 1 ≤ 1 + rule.weight * fraction (lineShare f) := by
    have := mul_nonneg hr.weight_nonneg (fraction_nonneg (lineShare f))
    linarith
  exact le_mul_of_one_le_right hpow.le hfactor

theorem exact_mul_decay_lt (f : FileFacts) :
    exact rule f * rule.decay < rule.decay ^ Path.depth f.path := by
  have hpow := pow_pos hr.decay_pos (Path.depth f.path)
  have hweight : rule.weight * rule.decay < 1 - rule.decay :=
    (lt_div_iff₀ hr.decay_pos).1 hr.weight_lt
  have hbonus : rule.weight * fraction (lineShare f) ≤ rule.weight :=
    mul_le_of_le_one_right hr.weight_nonneg (fraction_lt_one _).le
  have hfactor : (1 + rule.weight * fraction (lineShare f)) * rule.decay < 1 := by
    have := mul_le_mul_of_nonneg_right hbonus hr.decay_pos.le
    linarith
  calc exact rule f * rule.decay
      = rule.decay ^ Path.depth f.path *
          ((1 + rule.weight * fraction (lineShare f)) * rule.decay) := by rw [exact, mul_assoc]
    _ < rule.decay ^ Path.depth f.path * 1 := mul_lt_mul_of_pos_left hfactor hpow
    _ = rule.decay ^ Path.depth f.path := mul_one _

/-- A file that lies less deep scores higher, whatever its lines. -/
theorem exact_lt_of_depth_lt {f g : FileFacts} (h : Path.depth f.path < Path.depth g.path) :
    exact rule g < exact rule f := by
  -- Compared after one more factor `decay`, since the bonus of `g` is worth less than a level.
  have hpow : rule.decay ^ Path.depth g.path ≤ rule.decay ^ (Path.depth f.path + 1) :=
    pow_le_pow_of_le_one hr.decay_pos.le hr.decay_lt_one.le h
  have hscaled : exact rule g * rule.decay < exact rule f * rule.decay :=
    calc exact rule g * rule.decay < rule.decay ^ Path.depth g.path := exact_mul_decay_lt hr g
      _ ≤ rule.decay ^ (Path.depth f.path + 1) := hpow
      _ = rule.decay ^ Path.depth f.path * rule.decay := pow_succ ..
      _ ≤ exact rule f * rule.decay :=
        mul_le_mul_of_nonneg_right (pow_le_exact hr f) hr.decay_pos.le
  exact lt_of_mul_lt_mul_right hscaled hr.decay_pos.le

theorem exact_lt_of_lineShare_lt {f g : FileFacts} (hd : Path.depth f.path = Path.depth g.path)
    (hw : 0 < rule.weight) (h : lineShare f < lineShare g) : exact rule f < exact rule g := by
  have hq : (0 : ℝ) ≤ (lineShare f : ℝ) := by
    rw [lineShare]
    positivity
  have hfraction : fraction (lineShare f) < fraction (lineShare g) :=
    fraction_lt hq (by exact_mod_cast h)
  rw [exact, exact, hd]
  have hbonus := mul_lt_mul_of_pos_left hfraction hw
  exact mul_lt_mul_of_pos_left (by linarith) (pow_pos hr.decay_pos _)

end Precedence

/-- The place of a file among those that define a token: by depth, then by lines per definition if
these count at all, then by path. -/
def precedence (byLines : Bool) (f : FileFacts) : ℕ ×ₗ ℚ ×ₗ String :=
  toLex (Path.depth f.path, toLex (if byLines then -lineShare f else 0, f.path))

open Definers in
theorem preference_lt_of_precedence_lt {rule : ScoringRule ℝ} (hr : rule.Accepted)
    {f g : FileFacts}
    (h : precedence (decide (0 < rule.weight)) f < precedence (decide (0 < rule.weight)) g) :
    preference (exact rule f, f.path) < preference (exact rule g, g.path) := by
  rw [preference, preference, Prod.Lex.toLex_lt_toLex]
  simp only [OrderDual.toDual_lt_toDual, OrderDual.toDual_inj]
  rw [precedence, precedence, Prod.Lex.toLex_lt_toLex, Prod.Lex.toLex_lt_toLex] at h
  rcases h with hdepth | ⟨hdepth, hrest⟩
  · exact .inl (exact_lt_of_depth_lt hr hdepth)
  · simp only at hdepth hrest
    by_cases hw : 0 < rule.weight
    · simp only [hw, decide_true, if_true, neg_lt_neg_iff, neg_inj] at hrest
      rcases hrest with hshare | ⟨hshare, hpath⟩
      · exact .inl (exact_lt_of_lineShare_lt hr hdepth.symm hw hshare)
      · exact .inr ⟨by rw [exact, exact, hdepth, hshare], hpath⟩
    · have hzero : rule.weight = 0 := le_antisymm (not_lt.1 hw) hr.weight_nonneg
      simp only [hw, decide_false, Bool.false_eq_true, if_false, lt_self_iff_false, false_or,
        true_and] at hrest
      exact .inr ⟨by rw [exact, exact, hdepth, hzero, zero_mul, zero_mul], hrest⟩

open Definers in
theorem precedence_le_iff {rule : ScoringRule ℝ} (hr : rule.Accepted) (f g : FileFacts) :
    precedence (decide (0 < rule.weight)) f ≤ precedence (decide (0 < rule.weight)) g ↔
      preference (exact rule f, f.path) ≤ preference (exact rule g, g.path) := by
  rcases lt_trichotomy (precedence (decide (0 < rule.weight)) f)
    (precedence (decide (0 < rule.weight)) g) with h | h | h
  · exact iff_of_true h.le (preference_lt_of_precedence_lt hr h).le
  · have hparts := Prod.mk.inj (toLex.injective h)
    have hrest := Prod.mk.inj (toLex.injective hparts.2)
    have hexact : exact rule f = exact rule g := by
      by_cases hw : 0 < rule.weight
      · have hshare : lineShare f = lineShare g := by simpa [hw] using hrest.1
        rw [exact, exact, hparts.1, hshare]
      · have hzero : rule.weight = 0 := le_antisymm (not_lt.1 hw) hr.weight_nonneg
        rw [exact, exact, hparts.1, hzero, zero_mul, zero_mul]
    rw [hexact, hrest.2]
    exact iff_of_true h.le le_rfl
  · exact iff_of_false h.not_ge (preference_lt_of_precedence_lt hr h).not_ge

theorem ofFacts_exact (rule : ScoringRule ℝ) (facts : List FileFacts) :
    ∃ raw, ofFacts rule facts = .ok raw :=
  ofFacts_of_ok fun f _ _ => ⟨exact rule f, ofTokens_exact rule f⟩

/-- The home of a token is the file that comes first among those that define it. -/
theorem get?_definers_exact {rule : ScoringRule ℝ} (hr : rule.Accepted)
    {facts : List FileFacts} {raw : ScoreTable ℝ} (hn : (facts.map FileFacts.path).Nodup)
    (h : ofFacts rule facts = .ok raw) (token path : String) :
    raw.definers.get? token = some path ↔
      ∃ f ∈ facts, f.path = path ∧ token ∈ f.definitions.keys ∧
        ∀ g ∈ facts, token ∈ g.definitions.keys →
          precedence (decide (0 < rule.weight)) f ≤ precedence (decide (0 < rule.weight)) g := by
  have hscore : ∀ path score, raw.score? path token = some score ↔
      ∃ f ∈ facts, f.path = path ∧ token ∈ f.definitions.keys ∧ exact rule f = score := by
    intro path score
    simp only [score?_ofFacts hn h, ofTokens_exact, Except.ok.injEq]
  rw [ScoreTable.get?_definers_eq_some_iff]
  simp only [hscore]
  constructor
  · rintro ⟨score, ⟨f, hf, rfl, ht, rfl⟩, hleast⟩
    refine ⟨f, hf, rfl, ht, fun g hg htg => ?_⟩
    exact (precedence_le_iff hr f g).2 (hleast g.path _ ⟨g, hg, rfl, htg, rfl⟩)
  · rintro ⟨f, hf, rfl, ht, hleast⟩
    refine ⟨exact rule f, ⟨f, hf, rfl, ht, rfl⟩, ?_⟩
    rintro _ _ ⟨g, hg, rfl, htg, rfl⟩
    exact (precedence_le_iff hr f g).1 (hleast g hg htg)

theorem callBoost_exact (calls : Nat) : ∃ factor : ℝ, callBoost (calls : Int) = .ok factor := by
  have h : ¬ ((calls : Int) ≤ -1) := by omega
  exact ⟨_, by simp only [callBoost, ScoreArithmetic.logSucc, h, if_false]; rfl⟩

end Score

end SymbolAtlas
