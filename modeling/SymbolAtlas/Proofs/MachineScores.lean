import Mathlib.Data.List.Count
import SymbolAtlas.Proofs.Extracts
import SymbolAtlas.Proofs.Scores
import SymbolAtlas.Proofs.Segments

/-!
Scores in machine arithmetic. The lines and the depth of a file that was read are far below where
doubles end, so scoring its tokens never fails; only a count of calls can be too large.
-/

set_option autoImplicit false

namespace SymbolAtlas

namespace Binary64

theorem nearest_cases (n : Nat) {d : Nat} (hd : 0 < d) :
    nearest n d = .infinite false ∨
      ∃ m e, nearest n d = .finite false m e ∧
        (m < 2 ^ 52 ∨ m ≤ 2 ^ 53 ∧ e ≤ 971 ∧ (e = 971 → m < 2 ^ 53)) := by
  rcases Nat.eq_zero_or_pos n with rfl | hn
  · exact .inr ⟨0, leastExponent, rfl, .inl (by decide)⟩
  · by_cases hinf : nearest n d = .infinite false
    · exact .inl hinf
    · have hrange : ¬ (971 ≤ gridExponent n d ∧
          2 ^ 53 ≤ nearestMantissa n d * 2 ^ (gridExponent n d - 971).toNat) := by
        intro h
        exact hinf (by rw [nearest_eq hn, if_pos h])
      refine .inr ⟨nearestMantissa n d, gridExponent n d, by rw [nearest_eq hn, if_neg hrange], ?_⟩
      by_cases hm : nearestMantissa n d < 2 ^ 52
      · exact .inl hm
      -- A full mantissa above the last exponent would be out of range.
      · refine .inr ⟨nearestMantissa_le hn hd, ?_, fun he => ?_⟩
        · by_contra he
          have hpow : 2 ^ 1 ≤ 2 ^ (gridExponent n d - 971).toNat :=
            Nat.pow_le_pow_right (by decide) (by omega)
          exact hrange ⟨by omega, Nat.mul_le_mul (not_lt.1 hm) hpow⟩
        · by_contra hlt
          exact hrange ⟨he.ge, by simpa [he] using hlt⟩

theorem toBits_nearest (n : Nat) {d : Nat} (hd : 0 < d) :
    (nearest n d).toBits ≤ 2047 * 2 ^ 52 ∧
      ((∀ negative, nearest n d ≠ .infinite negative) → (nearest n d).toBits < 2047 * 2 ^ 52) := by
  rcases nearest_cases n hd with h | ⟨m, e, h, hm⟩
  · rw [h]
    exact ⟨by decide, fun hfinite => absurd rfl (hfinite false)⟩
  · have hlt : (nearest n d).toBits < 2047 * 2 ^ 52 := by
      rw [h, toBits, signBits]
      by_cases hs : m < 2 ^ 52
      · simp only [hs, if_true, Bool.false_eq_true, if_false]
        omega
      · simp only [hs, if_false, Bool.false_eq_true]
        omega
    exact ⟨hlt.le, fun _ => hlt⟩

theorem toNat_ofNat_nearest (n : Nat) {d : Nat} (hd : 0 < d) :
    (UInt64.ofNat (nearest n d).toBits).toNat = (nearest n d).toBits :=
  UInt64.toNat_ofNat_of_lt' ((toBits_nearest n hd).1.trans_lt (by decide))

theorem nonNegative_nearest (n : Nat) {d : Nat} (hd : 0 < d) :
    NonNegative (nearest n d).toFloat.toModel.unpack := by
  apply nonNegative_ofBits
  rw [toNat_ofNat_nearest n hd]
  exact (toBits_nearest n hd).1.trans_lt (by decide)

theorem greatest_lt_overflow : (greatest : ℚ) < overflow := by
  have hp : (0 : ℚ) < 2 ^ (971 : Int) := by positivity
  have hg : (greatest : ℚ) = (2 ^ 53 - 1) * 2 ^ (971 : Int) := by
    rw [greatest, Nat.cast_mul, Nat.cast_pow, ← zpow_natCast]
    norm_num
  rw [hg, overflow_eq]
  generalize (2 : ℚ) ^ (971 : Int) = unit at *
  linarith

theorem nearest_of_lt {n d : Nat} (hd : 0 < d) (h : (n : ℚ) < overflow) :
    ∀ negative, nearest n d ≠ .infinite negative := by
  intro negative hinf
  rcases Nat.eq_zero_or_pos n with rfl | hn
  · cases hinf
  · have hfalse : nearest n d = .infinite false := by
      rcases nearest_cases n hd with hf | ⟨m, e, hf, _⟩
      · exact hf
      · cases hf.symm.trans hinf
    have hle := (nearest_eq_infinite_iff hn hd).1 hfalse
    have hdiv : (n : ℚ) / d ≤ n := div_le_self (by positivity) (by exact_mod_cast hd)
    linarith

theorem quotient_ok {n d : Nat} (hd : 0 < d) (h : (n : ℚ) < overflow) :
    quotient n d = .ok (nearest n d) := by
  have hd0 : ¬ ((d : Int) = 0) := by omega
  have hn : decide ((n : Int) < 0) = false := by simp
  have hd' : decide ((d : Int) < 0) = false := by simp
  have hfinite := nearest_of_lt hd h
  simp only [quotient, hd0, if_false, Int.natAbs_natCast, hn, hd']
  cases hx : nearest n d with
  | infinite negative => exact absurd hx (hfinite negative)
  | nan => rfl
  | finite negative m e => rfl

/-- A count is a double unless it overflows. -/
theorem ofIntChecked_natCast (n : Nat) :
    ofIntChecked n = if overflow ≤ n then .error .wholeTooLarge else .ok (nearest n 1) := by
  have hn : ¬ ((n : Int) < 0) := by omega
  simp only [ofIntChecked, ofInt, hn, if_false, Int.natAbs_natCast]
  split
  · next negative hx =>
    have hle : overflow ≤ n := by
      by_contra hlt
      exact nearest_of_lt one_pos (not_le.1 hlt) negative hx
    rw [if_pos hle]
  · next hx =>
    rw [if_neg]
    intro hle
    have hn : 0 < n := by
      rcases Nat.eq_zero_or_pos n with rfl | hn
      · have hp : (0 : ℚ) < 2 ^ (970 : Int) := by positivity
        rw [overflow, Nat.cast_zero] at hle
        generalize (2 : ℚ) ^ (970 : Int) = unit at *
        linarith
      · exact hn
    exact hx false ((nearest_eq_infinite_iff hn one_pos).2 (by simpa using hle))

end Binary64

theorem Text.lineCount_le (octets : List UInt8) : lineCount octets ≤ octets.length := by
  have hcount := octets.count_le_length (a := newline)
  by_cases h : octets ≠ [] ∧ octets.getLast? ≠ some newline
  · have hne : octets.count newline ≠ octets.length := by
      intro he
      have hall := List.count_eq_length.1 he
      have hlast := hall _ (List.getLast_mem h.1)
      exact h.2 (by rw [List.getLast?_eq_some_getLast h.1, ← hlast])
    rw [lineCount, if_pos h]
    omega
  · rw [lineCount, if_neg h]
    exact hcount

namespace Extraction

theorem sizeLimit_le {megabytes : Float} {limit : Int} (h : sizeLimit megabytes = .ok limit) :
    limit ≤ (Binary64.greatest : Int) := by
  by_cases hfinite : (megabytes * 1024 * 1024).isFinite = true
  · obtain ⟨n, hn, hle⟩ := sizeLimit_of_finite hfinite
    rw [Except.ok.inj (h.symm.trans hn)]
    exact hle
  · obtain ⟨e, he⟩ := truncateFloat_of_not_finite hfinite
    exact absurd (h.symm.trans he) (by simp)

/-- A file that is read is found under a path of bounded length and is not above the limit. -/
theorem source?_some {w : Workspace} {limit : Int} {path : String} {source : List UInt8}
    (h : source? w limit path = some source) :
    (source.length : Int) ≤ limit ∧ Path.depth path ≤ FileTree.maxPath := by
  let full := w.root.below (Path.ofText path)
  by_cases hn : holdsNul full.text = true
  · simp [source?, full, hn] at h
  · cases hf : w.find full with
    | error e => simp [source?, full, hn, hf] at h
    | ok entry =>
      have hf' : w.files.find (w.current.below full) = .ok entry := hf
      refine ⟨?_, FileTree.depth_le_of_find w.current w.root path hf'⟩
      by_cases hs : limit < (entry.size : Int)
      · simp [source?, full, hn, hf, hs] at h
      · cases entry with
        | directory size =>
          simp [source?, full, hn, hf, hs, Workspace.read, FileTree.read, hf',
            Except.toOption] at h
        | file octets =>
          have ho : octets = source := by
            simpa [source?, full, hn, hf, hs, Workspace.read, FileTree.read, hf',
              Except.toOption] using h
          rw [← ho]
          exact not_lt.1 hs

end Extraction

namespace Score

theorem density_machine {lines : Nat} (definitions : Nat) (h : (lines : ℚ) < Binary64.overflow) :
    ∃ d : Float, density lines definitions = .ok d := by
  have hlines : max (lines : Int) 0 = lines := by omega
  have hq := Binary64.quotient_ok (Nat.succ_pos definitions) h
  have hsign := not_lt_zero (Binary64.nonNegative_nearest lines (Nat.succ_pos definitions))
  have hd : ((definitions : Int) + 1) = ((definitions + 1 : Nat) : Int) := by omega
  exact ⟨_, by
    simp only [density, hlines, hd, ScoreArithmetic.quotient, hq, Except.map,
      ScoreArithmetic.sqrt, hsign, if_false]; rfl⟩

theorem power_machine {decay : Float} (h0 : 0 < decay) (h1 : decay < 1) {depth : Nat}
    (h : (depth : ℚ) < Binary64.overflow) :
    ∃ level : Float, ScoreArithmetic.power decay (depth : Int) = .ok level := by
  have hk := Binary64.ofIntChecked_natCast depth
  rw [if_neg (not_le.2 h)] at hk
  have hd : (0 : Int) ≤ depth := by omega
  exact ⟨_, by simp only [ScoreArithmetic.power, hk, h0, h1, hd, decide_true, Bool.and_self]; rfl⟩

theorem ofTokens_machine {rule : ScoringRule Float} (h0 : 0 < rule.decay) (h1 : rule.decay < 1)
    {f : FileFacts} (hl : (f.lineCount : ℚ) < Binary64.overflow)
    (hd : (Path.depth f.path : ℚ) < Binary64.overflow) : ∃ value, ofTokens rule f = .ok value := by
  obtain ⟨level, hlevel⟩ := power_machine h0 h1 hd
  obtain ⟨d, hdensity⟩ := density_machine f.definitions.size hl
  exact ⟨_, by simp only [ofTokens, definition, hlevel, hdensity]; rfl⟩

theorem callBoost_machine (calls : Nat) :
    (∃ e, (callBoost (calls : Int) : Except ArithmeticFault Float) = .error e) ↔
      Binary64.overflow ≤ calls := by
  have hk := Binary64.ofIntChecked_natCast calls
  have hsign := not_le_neg_one (Binary64.nonNegative_nearest calls one_pos)
  by_cases h : Binary64.overflow ≤ calls
  · simp only [h, if_true] at hk
    simp [callBoost, ScoreArithmetic.logSucc, hk, h]
  · simp only [h, if_false] at hk
    simp [callBoost, ScoreArithmetic.logSucc, hk, hsign, h]

theorem ofFacts_machine {rule : ScoringRule Float} (h0 : 0 < rule.decay) (h1 : rule.decay < 1)
    {w : Workspace} {megabytes : Float} {facts : List FileFacts}
    (h : ∀ f ∈ facts, f.IsBlank ∨ ∃ limit, Extraction.sizeLimit megabytes = .ok limit ∧
      Extraction.Tells w limit f.path f) : ∃ raw, ofFacts rule facts = .ok raw := by
  apply ofFacts_of_ok
  intro f hf hkeys
  have hnot : ¬ f.IsBlank := fun hb => hkeys (by rw [hb.1, Table.keys_empty])
  obtain hb | ⟨limit, hl, hb | ⟨source, hs, hlines⟩⟩ := h f hf
  · exact absurd hb hnot
  · exact absurd hb hnot
  · obtain ⟨hsize, hdepth⟩ := Extraction.source?_some hs
    have hlimit := Extraction.sizeLimit_le hl
    have hcount := Text.lineCount_le source
    have hsmall : FileTree.maxPath ≤ Binary64.greatest :=
      (show FileTree.maxPath ≤ (2 ^ 53 - 1) * 1 by decide).trans
        (Nat.mul_le_mul_left _ (one_le_pow₀ one_le_two))
    have hin : ∀ n, n ≤ Binary64.greatest → (n : ℚ) < Binary64.overflow := fun n hn =>
      lt_of_le_of_lt (by exact_mod_cast hn) Binary64.greatest_lt_overflow
    exact ofTokens_machine h0 h1 (hin _ (by omega)) (hin _ (by omega))

end Score

end SymbolAtlas
