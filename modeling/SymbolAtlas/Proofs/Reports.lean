import SymbolAtlas.Report
import SymbolAtlas.Proofs.Scores

/-!
Reported scores of two tables that differ little: in a row without scores, or in the order of
their rows. Whether a token is rounded hangs on its scores up to their order, so the reports differ
as the tables do.
-/

set_option autoImplicit false

namespace SymbolAtlas

theorem Table.entries_traverse {κ α β ε : Type} (f : κ → α → Except ε β) (t : Table κ α) :
    (t.traverse f).map entries =
      t.entries.mapM fun row => (f row.1 row.2).map fun b => (row.1, b) := by
  have hrows : ∀ rows : List (κ × α),
      (traverseRows f rows).map Subtype.val =
        rows.mapM fun row => (f row.1 row.2).map fun b => (row.1, b) := by
    intro rows
    induction rows with
    | nil => rfl
    | cons row rest ih =>
      obtain ⟨k, a⟩ := row
      rw [List.mapM_cons, ← ih]
      cases hf : f k a with
      | error e => simp [traverseRows, hf, Except.map, bind, Except.bind]
      | ok b =>
        cases hr : traverseRows f rest with
        | error e => simp [traverseRows, hf, hr, Except.map, bind, Except.bind]
        | ok out =>
          simp [traverseRows, hf, hr, Except.map, bind, Except.bind, pure, Except.pure]
  rw [← hrows]
  cases hr : traverseRows f t.entries with
  | error e => simp [traverse, hr, Except.map]
  | ok out => simp [traverse, hr, Except.map]

namespace Report

variable {σ : Type}

theorem scoresOf_eq (s : ScoreTable σ) (token : String) :
    scoresOf s token = s.entries.filterMap fun row => row.2.get? token := by
  simp [scoresOf, Table.values, List.filterMap_map]

section Distinct

variable [BEq σ]

theorem any_distinct {p : σ → Bool} (hp : ∀ x y, (x == y) = true → p x = p y) (xs : List σ) :
    (distinct xs).any p = xs.any p := by
  induction xs with
  | nil => rfl
  | cons x rest ih =>
    by_cases hx : rest.any (· == x) = true
    · obtain ⟨y, hy, hyx⟩ := List.any_eq_true.1 hx
      have habsorb : p x = true → rest.any p = true := by
        intro h
        exact List.any_eq_true.2 ⟨y, hy, (hp y x hyx).trans h⟩
      rw [distinct, if_pos hx, ih, List.any_cons]
      cases h : p x with
      | true => simpa using habsorb h
      | false => simp
    · rw [distinct, if_neg hx, List.any_cons, List.any_cons, ih]

variable [PartialEquivBEq σ]

theorem length_distinct_perm {xs ys : List σ} (h : xs.Perm ys) :
    (distinct xs).length = (distinct ys).length := by
  induction h with
  | nil => rfl
  | cons x hperm ih =>
    rename_i xs ys
    have hany : xs.any (· == x) = ys.any (· == x) := hperm.any_eq
    by_cases hx : ys.any (· == x) = true
    · simp [distinct, hany, hx, ih]
    · simp [distinct, hany, hx, ih]
  | swap x y rest =>
    by_cases hxy : (x == y) = true
    · -- Of two equal neighbours the first goes, and either stays if nothing equals it later.
      have hany : rest.any (· == x) = rest.any (· == y) := by
        refine congrArg (List.any rest) (funext fun z => ?_)
        rw [Bool.eq_iff_iff]
        exact ⟨fun hz => BEq.trans hz hxy, fun hz => BEq.trans hz (BEq.symm hxy)⟩
      have hyx := BEq.symm hxy
      by_cases hy : rest.any (· == y) = true
      · simp [distinct, hxy, hyx, hany, hy]
      · simp [distinct, hxy, hyx, hany, hy]
    · have hyx : ¬ (y == x) = true := fun h => hxy (BEq.symm h)
      by_cases hx : rest.any (· == x) = true
      · by_cases hy : rest.any (· == y) = true
        · simp [distinct, hx, hy]
        · simp [distinct, hxy, hx, hy]
      · by_cases hy : rest.any (· == y) = true
        · simp [distinct, hyx, hx, hy]
        · simp [distinct, hxy, hyx, hx, hy]
  | trans _ _ ih ih' => exact ih.trans ih'

theorem length_distinct_round {round : σ → σ}
    (hround : ∀ x y, (x == y) = true → (round x == round y) = true) (xs : List σ) :
    (distinct ((distinct xs).map round)).length = (distinct (xs.map round)).length := by
  induction xs with
  | nil => rfl
  | cons x rest ih =>
    have hrespect : ∀ y z : σ, (y == z) = true → (round y == round x) = (round z == round x) := by
      intro y z hyz
      have hr := hround y z hyz
      rw [Bool.eq_iff_iff]
      exact ⟨fun h => BEq.trans (BEq.symm hr) h, fun h => BEq.trans hr h⟩
    by_cases hx : rest.any (· == x) = true
    · have hrounded : (rest.map round).any (· == round x) = true := by
        obtain ⟨y, hy, hyx⟩ := List.any_eq_true.1 hx
        exact List.any_eq_true.2 ⟨round y, List.mem_map_of_mem hy, hround y x hyx⟩
      rw [distinct, if_pos hx, ih, List.map_cons, distinct, if_pos hrounded]
    · have hany : ((distinct rest).map round).any (· == round x) =
          (rest.map round).any (· == round x) := by
        rw [List.any_map, List.any_map]
        exact any_distinct hrespect rest
      rw [distinct, if_neg hx, List.map_cons, List.map_cons, distinct, distinct, hany]
      by_cases hr : (rest.map round).any (· == round x) = true
      · rw [if_pos hr, if_pos hr, ih]
      · rw [if_neg hr, if_neg hr, List.length_cons, List.length_cons, ih]

theorem merges_perm {round : σ → σ}
    (hround : ∀ x y, (x == y) = true → (round x == round y) = true) {s t : ScoreTable σ}
    (h : s.entries.Perm t.entries) (token : String) :
    merges round s token = merges round t token := by
  have hscores : (scoresOf s token).Perm (scoresOf t token) := by
    rw [scoresOf_eq, scoresOf_eq]
    exact h.filterMap _
  simp only [merges, length_distinct_round hround, length_distinct_perm hscores,
    length_distinct_perm (hscores.map round)]

end Distinct

section Boosted

variable [ScoreArithmetic σ] {rule : ScoringRule σ} {calls calls' : Table String Int}

theorem boosted_congr (h : ∀ token, (calls.get? token).getD 0 = (calls'.get? token).getD 0)
    (raw : ScoreTable σ) : boosted rule calls raw = boosted rule calls' raw := by
  simp only [boosted, h]

def boostedRow (rule : ScoringRule σ) (calls : Table String Int)
    (row : String × Table String σ) : Except ArithmeticFault (String × Table String σ) :=
  (row.2.traverse fun token score =>
    if rule.boost then
      match Score.callBoost ((calls.get? token).getD 0) with
      | .error e => .error e
      | .ok factor => .ok (ScoreArithmetic.mul score factor)
    else .ok score).map fun scores => (row.1, scores)

theorem entries_boosted (raw : ScoreTable σ) :
    (boosted rule calls raw).map Table.entries = raw.entries.mapM (boostedRow rule calls) :=
  Table.entries_traverse _ raw

theorem boosted_eq_ok {raw scores : ScoreTable σ} (h : boosted rule calls raw = .ok scores) :
    raw.entries.mapM (boostedRow rule calls) = .ok scores.entries := by
  rw [← entries_boosted, h]
  rfl

theorem boosted_of_mapM {raw : ScoreTable σ} {rows : List (String × Table String σ)}
    (h : raw.entries.mapM (boostedRow rule calls) = .ok rows) :
    ∃ scores, boosted rule calls raw = .ok scores ∧ scores.entries = rows := by
  rw [← entries_boosted] at h
  cases hb : boosted rule calls raw with
  | error e => simp [hb, Except.map] at h
  | ok scores => exact ⟨scores, rfl, by simpa [hb, Except.map] using h⟩

theorem boosted_eq_error {raw : ScoreTable σ} {e : ArithmeticFault}
    (h : raw.entries.mapM (boostedRow rule calls) = .error e) :
    boosted rule calls raw = .error e := by
  rw [← entries_boosted] at h
  cases hb : boosted rule calls raw with
  | error e' => simpa [hb, Except.map] using h
  | ok scores => simp [hb, Except.map] at h

theorem boostedRow_empty (rule : ScoringRule σ) (calls : Table String Int) (path : String) :
    boostedRow rule calls (path, Table.empty) = .ok (path, Table.empty) :=
  rfl

end Boosted

section Scores

variable [BEq σ]

def roundedRow (round : σ → σ) (merged : String → Bool) (row : String × Table String σ) :
    String × Table String σ :=
  (row.1, row.2.mapWithKey fun token score => if merged token then score else round score)

theorem entries_rounded (round : σ → σ) (s : ScoreTable σ) :
    (rounded round s).entries = s.entries.map (roundedRow round (merges round s)) :=
  rfl

variable [ScoreArithmetic σ] {rule : ScoringRule σ} {calls calls' : Table String Int}

/-- A row without scores is reported as it is and changes no other row. -/
theorem scores_insert (rule : ScoringRule σ) (calls : Table String Int)
    {raw raw' : ScoreTable σ} {path : String} {as bs : List (String × Table String σ)}
    (hraw : raw.entries = as ++ bs) (hraw' : raw'.entries = as ++ (path, Table.empty) :: bs) :
    (∃ e, scores rule calls raw = .error e ∧ scores rule calls raw' = .error e) ∨
      ∃ out out' cs ds, scores rule calls raw = .ok out ∧ scores rule calls raw' = .ok out' ∧
        out.entries = cs ++ ds ∧ out'.entries = cs ++ (path, Table.empty) :: ds := by
  rcases mapM_insert (boostedRow_empty rule calls path) as bs with
    ⟨e, he, he'⟩ | ⟨cs, ds, hs, hs'⟩
  · rw [← hraw] at he
    rw [← hraw'] at he'
    exact .inl ⟨e, by simp [scores, boosted_eq_error he, Except.map],
      by simp [scores, boosted_eq_error he', Except.map]⟩
  · rw [← hraw] at hs
    rw [← hraw'] at hs'
    obtain ⟨out, hout, hentries⟩ := boosted_of_mapM hs
    obtain ⟨out', hout', hentries'⟩ := boosted_of_mapM hs'
    have hmerges : merges rule.round out' = merges rule.round out := by
      funext token
      simp [merges, scoresOf_eq, hentries, hentries', List.filterMap_cons]
    refine .inr ⟨rounded rule.round out, rounded rule.round out',
      cs.map (roundedRow rule.round (merges rule.round out)),
      ds.map (roundedRow rule.round (merges rule.round out)), by simp [scores, hout, Except.map],
      by simp [scores, hout', Except.map], ?_, ?_⟩
    · rw [entries_rounded, hentries, List.map_append]
    · rw [entries_rounded, hentries', hmerges, List.map_append, List.map_cons]
      rfl

theorem scores_perm [PartialEquivBEq σ]
    (hround : ∀ x y, (x == y) = true → (rule.round x == rule.round y) = true)
    (hcalls : ∀ token, (calls.get? token).getD 0 = (calls'.get? token).getD 0)
    {raw raw' out : ScoreTable σ} (hp : raw.entries.Perm raw'.entries)
    (h : scores rule calls raw = .ok out) :
    ∃ out', scores rule calls' raw' = .ok out' ∧ out.entries.Perm out'.entries := by
  cases hb : boosted rule calls raw with
  | error e => simp [scores, hb, Except.map] at h
  | ok raised =>
    simp only [scores, hb, Except.map, Except.ok.injEq] at h
    obtain ⟨rows, hrows, hperm⟩ := mapM_perm hp (boosted_eq_ok hb)
    obtain ⟨raised', hb', rfl⟩ := boosted_of_mapM hrows
    rw [boosted_congr hcalls] at hb'
    refine ⟨rounded rule.round raised', by simp [scores, hb', Except.map], ?_⟩
    have hmerges : merges rule.round raised = merges rule.round raised' :=
      funext (merges_perm hround hperm)
    rw [← h, entries_rounded, entries_rounded, hmerges]
    exact hperm.map _

end Scores

end Report

end SymbolAtlas
