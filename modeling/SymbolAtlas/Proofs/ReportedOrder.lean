import Mathlib.Data.Finset.Card
import Mathlib.Data.Finset.Dedup
import Mathlib.Order.Monotone.Basic
import SymbolAtlas.Proofs.Builds
import SymbolAtlas.Proofs.Counters
import SymbolAtlas.Proofs.ExactScores

/-!
Reported scores are in the order of the raised ones. A token is rounded only where rounding tells
all its raised scores apart, and a monotone rounding that does so keeps their order; so a report
moves no token to another home.
-/

set_option autoImplicit false

namespace SymbolAtlas

theorem Table.get?_of_traverse {κ α β ε : Type} [DecidableEq κ] {f : κ → α → Except ε β}
    {t : Table κ α} {u : Table κ β} (h : t.traverse f = .ok u) (k : κ) :
    u.get? k = (t.get? k).bind fun a => (f k a).toOption := by
  have hrows : ∀ (rows : List (κ × α)) out, traverseRows f rows = .ok out →
      lookup k out.1 = (lookup k rows).bind fun a => (f k a).toOption := by
    intro rows
    induction rows with
    | nil =>
      intro out hout
      cases hout
      rfl
    | cons row rest ih =>
      intro out hout
      obtain ⟨key, a⟩ := row
      cases hf : f key a with
      | error e => simp [traverseRows, hf] at hout
      | ok b =>
        cases hr : traverseRows f rest with
        | error e => simp [traverseRows, hf, hr] at hout
        | ok tail =>
          simp only [traverseRows, hf, hr, Except.ok.injEq] at hout
          subst hout
          by_cases hk : key = k
          · subst hk
            simp [lookup, hf, Except.toOption]
          · simpa [lookup, hk] using ih tail hr
  cases hr : traverseRows f t.entries with
  | error e => simp [traverse, hr] at h
  | ok out =>
    simp only [traverse, hr, Except.ok.injEq] at h
    subst h
    exact hrows t.entries out hr

variable {σ : Type}

/-! ## Homes and the order of scores -/

namespace ScoreTable

def layout (scores : ScoreTable σ) : List (String × List String) :=
  scores.entries.map fun row => (row.1, row.2.keys)

theorem isSome_score?_iff_layout (scores : ScoreTable σ) (path token : String) :
    (scores.score? path token).isSome ↔
      ∃ tokens, (path, tokens) ∈ scores.layout ∧ token ∈ tokens := by
  simp only [isSome_score?_iff, Table.get?_eq_some_iff, layout, List.mem_map, Prod.mk.injEq]
  constructor
  · rintro ⟨row, hrow, ht⟩
    exact ⟨row.keys, ⟨(path, row), hrow, rfl, rfl⟩, ht⟩
  · rintro ⟨_, ⟨⟨_, row⟩, hrow, rfl, rfl⟩, ht⟩
    exact ⟨row, hrow, ht⟩

section Order

variable [LinearOrder σ] [BEq σ] [LawfulBEq σ]

/-- Tables with the same places and the same order of each token's scores have the same homes. -/
theorem definers_eq_of_order {s t : ScoreTable σ} (hlayout : t.layout = s.layout)
    (horder : ∀ token p q x y x' y', s.score? p token = some x → s.score? q token = some y →
      t.score? p token = some x' → t.score? q token = some y' → (x' < y' ↔ x < y)) :
    t.definers = s.definers := by
  have hsome : ∀ path token, (t.score? path token).isSome ↔ (s.score? path token).isSome := by
    intro path token
    rw [isSome_score?_iff_layout, hlayout, isSome_score?_iff_layout]
  have hhome : ∀ token path, s.definers.get? token = some path →
      t.definers.get? token = some path := by
    intro token path h
    obtain ⟨x, hx, hleast⟩ := (get?_definers_eq_some_iff s token path).1 h
    obtain ⟨x', hx'⟩ := Option.isSome_iff_exists.1 ((hsome path token).2 (by simp [hx]))
    refine (get?_definers_eq_some_iff t token path).2 ⟨x', hx', fun q y' hy' => ?_⟩
    obtain ⟨y, hy⟩ := Option.isSome_iff_exists.1 ((hsome q token).1 (by simp [hy']))
    have hle := hleast q y hy
    have hxy := horder token path q x y x' y' hx hy hx' hy'
    have hyx := horder token q path y x y' x' hy hx hy' hx'
    simp only [Definers.preference, Prod.Lex.toLex_le_toLex, OrderDual.toDual_lt_toDual,
      OrderDual.toDual_inj] at hle ⊢
    rcases hle with hlt | ⟨heq, hpath⟩
    · exact .inl (hyx.2 hlt)
    · subst heq
      exact .inr ⟨le_antisymm (not_lt.1 fun hlt => (hyx.1 hlt).false)
        (not_lt.1 fun hlt => (hxy.1 hlt).false), hpath⟩
  refine Table.eq_of_get? ?_ fun token => ?_
  · have htokens : ∀ u : ScoreTable σ, (u.entries.flatMap fun row => row.2.keys) =
        u.layout.flatMap Prod.snd := by
      intro u
      simp [layout, List.flatMap_map]
    rw [keys_definers, keys_definers, htokens, htokens, hlayout]
  · cases hs : s.definers.get? token with
    | some path => exact hhome token path hs
    | none =>
      have hnone : ¬ (s.definers.get? token).isSome := by simp [hs]
      rw [isSome_get?_definers] at hnone
      simp only [← hsome, ← isSome_get?_definers] at hnone
      simpa using hnone

end Order

end ScoreTable

namespace Report

/-! ## Raised scores -/

section Raised

variable [ScoreArithmetic σ] {rule : ScoringRule σ} {calls : Table String Int}

def raise (rule : ScoringRule σ) (calls : Table String Int) (token : String) (score : σ) :
    Except ArithmeticFault σ :=
  if rule.boost then
    (Score.callBoost ((calls.get? token).getD 0)).map fun factor => ScoreArithmetic.mul score factor
  else .ok score

def raised? (rule : ScoringRule σ) (calls : Table String Int) (raw : ScoreTable σ)
    (path token : String) : Option σ :=
  (raw.score? path token).bind fun score => (raise rule calls token score).toOption

theorem boosted_eq (rule : ScoringRule σ) (calls : Table String Int) (raw : ScoreTable σ) :
    boosted rule calls raw = raw.traverse fun _ row => row.traverse (raise rule calls) := by
  unfold boosted
  congr 1
  funext _ row
  congr 1
  funext token score
  by_cases hb : rule.boost = true
  · cases hc : (Score.callBoost ((calls.get? token).getD 0) : Except ArithmeticFault σ) with
    | error e => simp [raise, hb, hc, Except.map]
    | ok factor => simp [raise, hb, hc, Except.map]
  · simp [raise, hb]

theorem score?_boosted {raw boosts : ScoreTable σ} (h : boosted rule calls raw = .ok boosts)
    (path token : String) :
    boosts.score? path token = raised? rule calls raw path token := by
  rw [boosted_eq] at h
  have hrow := Table.get?_of_traverse h path
  cases hraw : raw.get? path with
  | none => simp [ScoreTable.score?, raised?, hrow, hraw]
  | some row =>
    rw [hraw, Option.bind_some] at hrow
    cases ht : row.traverse (raise rule calls) with
    | ok scores =>
      rw [ht] at hrow
      simp [ScoreTable.score?, raised?, hrow, hraw, Except.toOption, Table.get?_of_traverse ht]
    | error e =>
      -- The traversal of the whole table would have failed here.
      obtain ⟨e', he'⟩ := (Table.traverse_error_iff (fun _ row => row.traverse (raise rule calls))
        raw).2 ⟨(path, row), (Table.get?_eq_some_iff ..).1 hraw, e, ht⟩
      simp [h] at he'

end Raised

/-! ## Rounding that merges nothing -/

section Merging

variable [LinearOrder σ] [BEq σ] [LawfulBEq σ]

theorem distinct_eq_dedup (xs : List σ) : distinct xs = xs.dedup := by
  induction xs with
  | nil => rfl
  | cons x rest ih =>
    by_cases hx : x ∈ rest
    · rw [List.dedup_cons_of_mem hx, distinct, if_pos (by simpa using hx), ih]
    · rw [List.dedup_cons_of_notMem hx, distinct, if_neg (by simpa using hx), ih]

/-- Two different scores of a token become equal exactly if rounding does not tell them apart. -/
theorem merges_iff (round : σ → σ) (s : ScoreTable σ) (token : String) :
    merges round s token = true ↔
      ¬ Set.InjOn round {x | ∃ path, s.score? path token = some x} := by
  have hscores : {x | ∃ path, s.score? path token = some x} =
      ((scoresOf s token).toFinset : Set σ) := by
    ext x
    simp only [Set.mem_ofPred_eq, List.coe_toFinset, scoresOf_eq, List.mem_filterMap,
      ScoreTable.score?, Option.bind_eq_some_iff, Table.get?_eq_some_iff, Prod.exists]
  have hmap : (((scoresOf s token).dedup.map round).toFinset) =
      (scoresOf s token).toFinset.image round := by
    ext y
    simp
  rw [hscores, ← Finset.card_image_iff, merges, distinct_eq_dedup, distinct_eq_dedup,
    ← List.card_toFinset, ← List.card_toFinset, hmap, decide_eq_true_eq]
  have hle := Finset.card_image_le (s := (scoresOf s token).toFinset) (f := round)
  omega

end Merging

/-! ## Reports -/

theorem score?_rounded [BEq σ] (round : σ → σ) (s : ScoreTable σ) (path token : String) :
    (rounded round s).score? path token = (s.score? path token).map fun score =>
      if merges round s token then score else round score := by
  cases h : s.get? path with
  | none => simp [ScoreTable.score?, rounded, h]
  | some row => simp [ScoreTable.score?, rounded, h]

section Order

variable [LinearOrder σ] [BEq σ] [LawfulBEq σ] [ScoreArithmetic σ]

/-- A report of raw scores: the same places, each token rounded throughout or not at all, and its
scores in the order of the raised ones. -/
structure Keeps (rule : ScoringRule σ) (calls : Table String Int) (raw out : ScoreTable σ) :
    Prop where
  layout : out.layout = raw.layout
  rounded : ∀ token, Set.InjOn rule.round {x | ∃ path, raised? rule calls raw path token = some x} →
    ∀ path, out.score? path token = (raised? rule calls raw path token).map rule.round
  exact : ∀ token, ¬ Set.InjOn rule.round {x | ∃ path, raised? rule calls raw path token = some x} →
    ∀ path, out.score? path token = raised? rule calls raw path token
  order : ∀ token p q x y x' y', raised? rule calls raw p token = some x →
    raised? rule calls raw q token = some y → out.score? p token = some x' →
    out.score? q token = some y' → (x' = y' ↔ x = y) ∧ (x' < y' ↔ x < y)

theorem keeps_scores {rule : ScoringRule σ} (hround : Monotone rule.round)
    {calls : Table String Int} {raw out : ScoreTable σ} (h : scores rule calls raw = .ok out) :
    Keeps rule calls raw out := by
  have hlayout : out.layout = raw.layout := rows_scores h
  cases hb : boosted rule calls raw with
  | error e => simp [scores, hb, Except.map] at h
  | ok boosts =>
    simp only [scores, hb, Except.map, Except.ok.injEq] at h
    have hraised := score?_boosted hb
    have hmerges := merges_iff rule.round boosts
    have hout := score?_rounded rule.round boosts
    simp only [hraised] at hmerges hout
    rw [h] at hout
    have hrounded : ∀ token,
        Set.InjOn rule.round {x | ∃ path, raised? rule calls raw path token = some x} →
        ∀ path, out.score? path token = (raised? rule calls raw path token).map rule.round := by
      intro token hinj path
      have hnot : ¬ merges rule.round boosts token = true := fun hm => (hmerges token).1 hm hinj
      simp [hout, hnot]
    have hexact : ∀ token,
        ¬ Set.InjOn rule.round {x | ∃ path, raised? rule calls raw path token = some x} →
        ∀ path, out.score? path token = raised? rule calls raw path token := by
      intro token hinj path
      simp [hout, (hmerges token).2 hinj]
    refine ⟨hlayout, hrounded, hexact, ?_⟩
    intro token p q x y x' y' hx hy hx' hy'
    by_cases hinj : Set.InjOn rule.round {x | ∃ path, raised? rule calls raw path token = some x}
    · have hstrict := (hround.monotoneOn _).strictMonoOn_of_injOn hinj
      rw [hrounded token hinj, hx, Option.map_some, Option.some.injEq] at hx'
      rw [hrounded token hinj, hy, Option.map_some, Option.some.injEq] at hy'
      rw [← hx', ← hy']
      exact ⟨hinj.eq_iff ⟨p, hx⟩ ⟨q, hy⟩, hstrict.lt_iff_lt ⟨p, hx⟩ ⟨q, hy⟩⟩
    · rw [hexact token hinj, hx, Option.some.injEq] at hx'
      rw [hexact token hinj, hy, Option.some.injEq] at hy'
      rw [← hx', ← hy']
      exact ⟨Iff.rfl, Iff.rfl⟩

end Order

/-- In exact arithmetic calls raise all scores of a token by one positive factor. -/
theorem raise_exact (rule : ScoringRule ℝ) {calls : Table String Int} {token : String}
    (hcalls : 0 ≤ (calls.get? token).getD 0) :
    ∃ factor : ℝ, 0 < factor ∧ ∀ score, raise rule calls token score = .ok (score * factor) := by
  obtain ⟨n, hn⟩ := Int.eq_ofNat_of_zero_le hcalls
  by_cases hb : rule.boost = true
  · have hlog : 0 ≤ Real.log (1 + (n : ℝ)) := Real.log_nonneg (by linarith [n.cast_nonneg (α := ℝ)])
    have hnot : ¬ ((n : Int) ≤ -1) := by omega
    refine ⟨1 + Real.log (1 + n), by linarith, fun score => ?_⟩
    simp only [raise, hb, if_true, hn, Score.callBoost, ScoreArithmetic.logSucc, hnot, if_false]
    simp [Except.map, ScoreArithmetic.mul, ScoreArithmetic.add, ScoreArithmetic.one]
  · exact ⟨1, one_pos, fun score => by simp [raise, hb]⟩

end Report

open Report

/-- A report fails only where a token of the table has calls that no factor stands for. Otherwise it
keeps the places of the scores, rounds each token throughout or not at all and keeps the order of
its raised scores. In exact arithmetic, and with no token called less than never, it returns and
every token stays at home. -/
theorem report_keeps_order [LinearOrder σ] [BEq σ] [LawfulBEq σ] [ScoreArithmetic σ]
    (rule : ScoringRule σ) (hround : Monotone rule.round) (calls : Table String Int)
    (raw : ScoreTable σ) :
    ((∃ e, Report.scores rule calls raw = .error e) ↔
      rule.boost = true ∧ ∃ path token, (raw.score? path token).isSome ∧
        ∃ e, (Score.callBoost ((calls.get? token).getD 0) : Except ArithmeticFault σ) = .error e) ∧
    (∀ out, Report.scores rule calls raw = .ok out → Keeps rule calls raw out) ∧
    ∀ (rule : ScoringRule ℝ) (raw : ScoreTable ℝ), Monotone rule.round →
      (∀ token, 0 ≤ (calls.get? token).getD 0) →
      ∃ out, Report.scores rule calls raw = .ok out ∧ out.definers = raw.definers := by
  refine ⟨?_, fun out h => keeps_scores hround h, fun rule raw hround hcalls => ?_⟩
  · rw [scores_error_iff, boosted_error_iff]
  · cases h : Report.scores rule calls raw with
    | error e =>
      obtain ⟨_, _, token, _, e', he⟩ :=
        (boosted_error_iff rule calls raw).1 ((scores_error_iff rule calls raw).1 ⟨e, h⟩)
      obtain ⟨n, hn⟩ := Int.eq_ofNat_of_zero_le (hcalls token)
      obtain ⟨factor, hfactor⟩ := Score.callBoost_exact n
      simp [hn, hfactor] at he
    | ok out =>
      have hkeeps := keeps_scores hround h
      refine ⟨out, rfl, ScoreTable.definers_eq_of_order hkeeps.layout ?_⟩
      intro token p q x y x' y' hx hy hx' hy'
      obtain ⟨factor, hpos, hraise⟩ := raise_exact rule (hcalls token)
      have hraised : ∀ path z, raw.score? path token = some z →
          raised? rule calls raw path token = some (z * factor) := by
        intro path z hz
        simp [raised?, hz, hraise, Except.toOption]
      rw [(hkeeps.order token p q _ _ x' y' (hraised p x hx) (hraised q y hy) hx' hy').2]
      exact mul_lt_mul_iff_left₀ hpos

namespace Report.Sample

noncomputable def rule : ScoringRule ℝ := { Workspace.Sample.rule with round := fun x => ⌊x⌋ }

noncomputable def raw : ScoreTable ℝ :=
  ⟨[("a.py", ⟨[("f", 0.5), ("g", 2.5)], by simp⟩),
    ("b.py", ⟨[("f", 0.25), ("g", 1.5)], by simp⟩)], by simp⟩

theorem raised_sample (path token : String) :
    raised? rule Table.empty raw path token = raw.score? path token := by
  have hraise : ∀ score : ℝ, raise rule Table.empty token score = .ok score := by
    intro score
    simp [raise, rule, Score.callBoost, ScoreArithmetic.logSucc, ScoreArithmetic.mul,
      ScoreArithmetic.add, ScoreArithmetic.one, Except.map]
  cases h : raw.score? path token with
  | none => simp [raised?, h]
  | some score => simp [raised?, h, hraise, Except.toOption]

end Report.Sample

open Report.Sample in
/-- Rounding down would merge the scores of `f`, so these stay; those of `g` are rounded. -/
theorem floors_of_sample : Monotone rule.round ∧
    ∃ out, Report.scores rule Table.empty raw = .ok out ∧
      out.score? "a.py" "f" = some 0.5 ∧ out.score? "b.py" "f" = some 0.25 ∧
      out.score? "a.py" "g" = some 2 ∧ out.score? "b.py" "g" = some 1 ∧
      out.definers = raw.definers := by
  have hround : Monotone rule.round := fun x y hxy => Int.cast_le.2 (Int.floor_le_floor hxy)
  obtain ⟨_, hkeeps, hhomes⟩ := report_keeps_order rule hround Table.empty raw
  obtain ⟨out, h, hsame⟩ := hhomes rule raw hround (by simp)
  obtain ⟨_, hrounded, hexact, _⟩ := hkeeps out h
  simp only [raised_sample] at hrounded hexact
  have hf := hexact "f" fun hinj => by
    have hhalf : ∃ path, raw.score? path "f" = some 0.5 := ⟨"a.py", rfl⟩
    have hquarter : ∃ path, raw.score? path "f" = some 0.25 := ⟨"b.py", rfl⟩
    have := hinj hhalf hquarter (by norm_num [rule])
    norm_num at this
  have hg := hrounded "g" fun x hx y hy hxy => by
    have hcases : ∀ z, (∃ path, raw.score? path "g" = some z) → z = 2.5 ∨ z = 1.5 := by
      rintro z ⟨path, hz⟩
      rw [← ScoreTable.mem_offers] at hz
      simp [ScoreTable.offers, raw] at hz
      tauto
    rcases hcases x hx with rfl | rfl
    · rcases hcases y hy with rfl | rfl
      · rfl
      · norm_num [rule] at hxy
    · rcases hcases y hy with rfl | rfl
      · norm_num [rule] at hxy
      · rfl
  refine ⟨hround, out, h, hf "a.py", hf "b.py", (hg "a.py").trans ?_, (hg "b.py").trans ?_, hsame⟩
  · change some (rule.round 2.5) = some 2
    norm_num [rule]
  · change some (rule.round 1.5) = some 1
    norm_num [rule]

end SymbolAtlas
