import SymbolAtlas.Proofs.Contributions
import SymbolAtlas.Proofs.Reports
import SymbolAtlas.Proofs.ScoreNumbers
import SymbolAtlas.Proofs.ScoringCalls

/-!
Builds of one set of files in two orders. Homes are chosen by score and path, calls are counted
token by token, and rounding looks at the scores of a token together, so no stage hangs on the
order of the files: results differ in the order of their rows and callers only.
-/

set_option autoImplicit false

namespace SymbolAtlas

theorem firstSeen_perm {given given' : List String} (h : ∀ path, path ∈ given ↔ path ∈ given') :
    (firstSeen given).Perm (firstSeen given') := by
  rw [List.perm_ext_iff_of_nodup (nodup_firstSeen given) (nodup_firstSeen given')]
  simpa using h

section Homes

variable {σ ρ : Type} (place : σ → ρ)

/-- The table with every score replaced by its place in a linear order. -/
def ScoreTable.placed (scores : ScoreTable σ) : ScoreTable ρ :=
  scores.mapWithKey fun _ row => row.mapWithKey fun _ => place

variable {place} in
theorem ScoreTable.score?_placed (scores : ScoreTable σ) (path token : String) :
    (scores.placed place).score? path token = (scores.score? path token).map place := by
  cases h : scores.get? path with
  | none => simp [placed, score?, h]
  | some row => simp [placed, score?, h]

open Definers

theorem ScoreTable.candidates_placed (scores : ScoreTable σ) (token : String) :
    candidates token (scores.placed place).offers =
      (candidates token scores.offers).map (Prod.map place id) := by
  have hoffers : (scores.placed place).offers =
      scores.offers.map (Prod.map id (Prod.map place id)) := by
    simp [offers, placed, Table.mapWithKey, List.flatMap_map, List.map_flatMap, Function.comp_def]
  rw [hoffers]
  simp only [candidates, List.filterMap_map, List.map_filterMap]
  congr 1
  funext o
  by_cases ht : o.1 = token
  · simp [ht]
  · simp [ht]

variable [LinearOrder ρ] [BEq σ] [LT σ] [DecidableLT σ]

/-- Scores that compare as their places do. -/
structure Agree (x y : σ) : Prop where
  beq : (x == y) = true ↔ place x = place y
  lt : x < y ↔ place x < place y

variable {place} {p : σ → Prop} (hp : ∀ x y, p x → p y → Agree place x y)

include hp

theorem Definers.better_placed {c home : σ × String} (hc : p c.1) (hh : p home.1) :
    better (place c.1) c.2 (Prod.map place id home) = better c.1 c.2 home := by
  have hbeq : (place c.1 == place home.1) = (c.1 == home.1) := by
    rw [Bool.eq_iff_iff, beq_iff_eq]
    exact (hp _ _ hc hh).beq.symm
  have hlt : decide (place home.1 < place c.1) = decide (home.1 < c.1) := by
    rw [decide_eq_decide]
    exact (hp _ _ hh hc).lt.symm
  simp [better, hbeq, hlt]

theorem Definers.foldl_choose_placed (cs : List (σ × String)) (hcs : ∀ c ∈ cs, p c.1)
    (home : Option (σ × String)) (hh : ∀ c ∈ home, p c.1) :
    (cs.map (Prod.map place id)).foldl choose (home.map (Prod.map place id)) =
      (cs.foldl choose home).map (Prod.map place id) := by
  -- On the candidates still to come; the present home is one of those already seen.
  induction cs generalizing home with
  | nil => rfl
  | cons c rest ih =>
    have hc := hcs c List.mem_cons_self
    have hrest : ∀ d ∈ rest, p d.1 := fun d hd => hcs d (List.mem_cons_of_mem c hd)
    cases home with
    | none => exact ih hrest (some c) (by simpa using hc)
    | some h =>
      have hhome : p h.1 := hh h rfl
      have hb := better_placed hp hc hhome
      by_cases hbetter : better c.1 c.2 h = true
      · simpa [choose, hb, hbetter] using ih hrest (some c) (by simpa using hc)
      · simpa [choose, hb, hbetter] using ih hrest (some h) (by simpa using hhome)

/-- Homes hang on the places of the scores alone. -/
theorem ScoreTable.get?_definers_placed {scores : ScoreTable σ}
    (hs : ∀ path token score, scores.score? path token = some score → p score) (token : String) :
    (scores.placed place).definers.get? token = scores.definers.get? token := by
  have hcs : ∀ c ∈ candidates token scores.offers, p c.1 := by
    rintro ⟨score, path⟩ hc
    rw [mem_candidates, mem_offers] at hc
    exact hs path token score hc
  rw [get?_definers, get?_definers, candidates_placed]
  have hfold := foldl_choose_placed hp _ hcs none (by simp)
  rw [Option.map_none] at hfold
  rw [hfold, Option.map_map]
  rfl

theorem ScoreTable.get?_definers_perm {s t : ScoreTable σ} (h : s.entries.Perm t.entries)
    (hs : ∀ path token score, s.score? path token = some score → p score) (token : String) :
    s.definers.get? token = t.definers.get? token := by
  have hscores : ∀ path token, s.score? path token = t.score? path token := by
    intro path token
    rw [score?, score?, Table.get?_perm h]
  have ht : ∀ path token score, t.score? path token = some score → p score := by
    intro path token score hscore
    exact hs path token score ((hscores path token).trans hscore)
  -- Among places the home is the least of all offers, in whatever order they are made.
  rw [← get?_definers_placed hp hs, ← get?_definers_placed hp ht]
  refine Option.ext fun path => ?_
  simp only [get?_definers_eq_some_iff, score?_placed, hscores]

end Homes

section Facts

variable {facts facts' : List FileFacts}

namespace Callers

theorem getD_bump (counts : Table String Nat) (key token : String) :
    ((counts.bump key).get? token).getD 0 =
      (counts.get? token).getD 0 + if key = token then 1 else 0 := by
  by_cases h : key = token
  · simp [Table.bump, Table.get?_alter, h]
  · simp [Table.bump, Table.get?_alter, h]

def externalCalls (f : FileFacts) (token : String) : Nat :=
  if f.definitions.contains token then 0 else f.references.count token

theorem getD_foldl_countExternal (f : FileFacts) (refs : List String) (counts : Table String Nat)
    (token : String) :
    ((refs.foldl (countExternal f) counts).get? token).getD 0 =
      (counts.get? token).getD 0 +
        if f.definitions.contains token then 0 else refs.count token := by
  induction refs generalizing counts with
  | nil => simp
  | cons t rest ih =>
    rw [List.foldl_cons, ih, countExternal]
    by_cases ht : t = token
    · by_cases hc : f.definitions.contains token = true
      · simp [ht, hc]
      · simp [ht, hc, getD_bump]
        omega
    · by_cases hc : f.definitions.contains t = true
      · simp [ht, hc]
      · simp [ht, hc, getD_bump]

theorem externalCount_eq (facts : List FileFacts) (token : String) :
    externalCount facts token = (facts.map fun f => externalCalls f token).sum := by
  have hfold : ∀ (facts : List FileFacts) (counts : Table String Nat),
      ((facts.foldl (fun counts f => f.references.foldl (countExternal f) counts)
        counts).get? token).getD 0 =
          (counts.get? token).getD 0 + (facts.map fun f => externalCalls f token).sum := by
    intro facts
    induction facts with
    | nil => simp
    | cons f rest ih =>
      intro counts
      rw [List.foldl_cons, ih, getD_foldl_countExternal, List.map_cons, List.sum_cons,
        Nat.add_assoc]
      rfl
  simpa [externalCount, external] using hfold facts Table.empty

theorem externalCount_perm (h : facts.Perm facts') (token : String) :
    externalCount facts token = externalCount facts' token := by
  rw [externalCount_eq, externalCount_eq]
  exact (h.map _).sum_eq

theorem Lists.perm {homes homes' : Table String String} {a a' : Attribution}
    (ha : Lists facts homes a) (ha' : Lists facts' homes' a') (h : facts.Perm facts')
    (hh : ∀ token, homes.get? token = homes'.get? token) :
    a.callers.layout.Perm a'.callers.layout ∧
      (∀ path token, Option.Rel List.Perm (a.callers.list? path token)
        (a'.callers.list? path token)) ∧ a.dropped = a'.dropped := by
  have hhome : ∀ path tokens, atHome homes path tokens = atHome homes' path tokens := by
    intro path tokens
    simp only [atHome, hh]
  refine ⟨?_, fun path token => ?_, ?_⟩
  · rw [ha.layout, ha'.layout]
    simp only [hhome]
    exact (h.map _).filter _
  · rw [ha.list, ha'.list, hh]
    split
    · exact .some (h.flatMap_right _)
    · exact .none
  · rw [ha.dropped, ha'.dropped]
    simp only [hh]
    exact (h.flatMap_right _).countP_eq _

end Callers

theorem Score.ofFacts_perm {σ : Type} [ScoreArithmetic σ] {rule : ScoringRule σ}
    (h : facts.Perm facts') (hn : (facts.map FileFacts.path).Nodup) {raw : ScoreTable σ}
    (hraw : ofFacts rule facts = .ok raw) :
    ∃ raw', ofFacts rule facts' = .ok raw' ∧ raw.entries.Perm raw'.entries := by
  obtain ⟨rows, hrows, hperm⟩ := mapM_perm h (ofFacts_mapM hn hraw)
  have hraw' : ofFacts rule facts' = .ok (Table.ofList rows) := by rw [ofFacts, hrows]
  have hentries := (ofFacts_mapM ((h.map _).nodup_iff.1 hn) hraw').symm.trans hrows
  exact ⟨_, hraw', by rw [Except.ok.inj hentries]; exact hperm⟩

theorem Atlas.count_perm (h : facts.Perm facts') (paths dropped durationMs : Nat) :
    count paths facts dropped durationMs = count paths facts' dropped durationMs := by
  have hdefinitions := (h.flatMap_right fun f => f.definitions.keys).length_eq
  have hreferences := (h.flatMap_right FileFacts.references).length_eq
  simp only [count, h.length_eq, h.countP_eq, hdefinitions, hreferences]

end Facts

section Atlases

variable {σ : Type} [BEq σ] [LT σ] [DecidableLT σ] [ScoreArithmetic σ]

/-- Two results that differ in the order of rows and callers, and in the time they took. -/
structure Atlas.Reordered (a b : Atlas σ) : Prop where
  scores : a.scores.entries.Perm b.scores.entries
  layout : a.callers.layout.Perm b.callers.layout
  lists : ∀ path token,
    Option.Rel List.Perm (a.callers.list? path token) (b.callers.list? path token)
  stats : a.untimed.stats = b.untimed.stats

variable [PartialEquivBEq σ] {ρ : Type} [LinearOrder ρ] {place : σ → ρ} {p : σ → Prop}
  {rule : ScoringRule σ}

theorem Atlas.ofFacts_perm (hp : ∀ x y, p x → p y → Agree place x y)
    (hround : ∀ x y, (x == y) = true → (rule.round x == rule.round y) = true)
    (hscore : ∀ f score, Score.ofTokens rule f = .ok score → p score)
    {facts facts' : List FileFacts} (h : facts.Perm facts')
    (hn : (facts.map FileFacts.path).Nodup) (paths durationMs' : Nat) {durationMs : Nat}
    {atlas : Atlas σ} (hatlas : ofFacts rule paths durationMs facts = .ok atlas) :
    ∃ atlas', ofFacts rule paths durationMs' facts' = .ok atlas' ∧ Reordered atlas atlas' := by
  obtain ⟨raw, a, hraw, ha, hscores, hcallers, hstats⟩ := ofFacts_ok hn hatlas
  obtain ⟨raw', hraw', hentries⟩ := Score.ofFacts_perm h hn hraw
  have hn' := (h.map FileFacts.path).nodup_iff.1 hn
  obtain ⟨a', ha', heq⟩ := ofFacts_eq hn' hraw' paths durationMs'
  have hnumbers : ∀ path token score, raw.score? path token = some score → p score := by
    intro path token score hs
    obtain ⟨f, _, _, _, hf⟩ := (Score.score?_ofFacts hn hraw path token score).1 hs
    exact hscore f score hf
  have hcalls : ∀ token,
      (((Callers.external facts).mapWithKey fun _ (n : Nat) => (n : Int)).get? token).getD 0 =
        (((Callers.external facts').mapWithKey fun _ (n : Nat) => (n : Int)).get?
          token).getD 0 := by
    intro token
    rw [Callers.getD_external, Callers.getD_external, Callers.externalCount_perm h]
  obtain ⟨out, hout, hperm⟩ := Report.scores_perm hround hcalls hentries hscores
  obtain ⟨hlayout, hlists, hdropped⟩ :=
    ha.perm ha' h (ScoreTable.get?_definers_perm hp hentries hnumbers)
  refine ⟨_, by rw [heq, hout], hperm, hcallers ▸ hlayout, hcallers ▸ hlists, ?_⟩
  simp only [untimed, hstats, hdropped, count_perm h]
  rfl

end Atlases

theorem agree_place {x y : Float} (hx : IsNumber x) (hy : IsNumber y) : Agree place x y where
  beq := by
    rw [float_beq_iff]
    exact ⟨fun h => h.2.2, fun h => ⟨hx, hy, h⟩⟩
  lt := float_lt_iff_place hx hy

theorem Extraction.facts_perm (w : Workspace) {how : ExtractionRule} (hs : how.schedule.IsOrder)
    {schedule : Schedule} (hs' : schedule.IsOrder) {r r' : Registry} (hpacks : r.packs = r'.packs)
    (ha : ∀ language, r.answer w.installed language = r'.answer w.installed language)
    {paths paths' : List String} (hp : paths.Perm paths') {facts : List FileFacts}
    (h : (extract w how.maxFileSizeMb how.workers how.schedule r paths).map Batch.facts =
      .ok facts) :
    facts.map FileFacts.path = paths ∧
      ∃ facts', (extract w how.maxFileSizeMb how.workers schedule r' paths').map Batch.facts =
        .ok facts' ∧ facts.Perm facts' := by
  have hfacts : contribution w how.maxFileSizeMb r = contribution w how.maxFileSizeMb r' :=
    funext (contribution_congr w how.maxFileSizeMb hpacks ha)
  have hpaths : (paths.map (contribution w how.maxFileSizeMb r)).map FileFacts.path = paths := by
    simp [List.map_map, Function.comp_def]
  have hperm := hp.map (contribution w how.maxFileSizeMb r)
  rw [facts_extract w _ hs] at h
  rw [facts_extract w _ hs', ← hp.length_eq, ← hfacts]
  by_cases hone : workerCount how.workers paths.length ≤ 1
  · simp only [hone, if_true, Except.ok.injEq] at h ⊢
    subst h
    exact ⟨hpaths, _, rfl, hperm⟩
  · cases hl : sizeLimit how.maxFileSizeMb with
    | error e => simp [hone, hl, Except.map] at h
    | ok limit =>
      simp only [hone, hl, if_false, Except.map, Except.ok.injEq] at h ⊢
      subst h
      exact ⟨hpaths, _, rfl, hperm⟩

/-- A result hangs on the set of the paths alone, up to the order of its rows and callers. A path
that is repeated changes no order either. -/
theorem builds_agree_on_path_sets {accounts : Accounts} {document : Value} {s : Settings}
    (hv : Validation.settings accounts document = .accepted s) (w : Workspace)
    {how : ExtractionRule} (hs : how.schedule.IsOrder) {schedule : Extraction.Schedule}
    (hs' : schedule.IsOrder) (durationMs durationMs' : Nat) {r r' : Registry}
    (hr : r.Faithful w.installed) (hr' : r'.Faithful w.installed) (hpacks : r.packs = r'.packs) :
    (∀ given given' : List String, (∀ path, path ∈ given ↔ path ∈ given') → ∀ atlas,
      (buildAtlas w how s.scoringRule durationMs r given).outcome = .ok atlas →
        ∃ atlas', (buildAtlas w { how with schedule := schedule } s.scoringRule durationMs' r'
          given').outcome = .ok atlas' ∧ Atlas.Reordered atlas atlas') ∧
      ∀ (before behind : List String) (path : String), path ∈ before →
        (buildAtlas w how s.scoringRule durationMs r (before ++ path :: behind)).outcome.map
            Atlas.untimed =
          (buildAtlas w { how with schedule := schedule } s.scoringRule durationMs' r'
            (before ++ behind)).outcome.map Atlas.untimed := by
  have ha : ∀ language, r.answer w.installed language = r'.answer w.installed language :=
    Registry.Faithful.answer_congr hr hr' hpacks
  constructor
  · intro given given' hg atlas hatlas
    have hpaths := firstSeen_perm hg
    rw [outcome_of_facts] at hatlas ⊢
    cases hfacts : (Extraction.extract w how.maxFileSizeMb how.workers how.schedule r
        (firstSeen given)).map Extraction.Batch.facts with
    | error e => simp [hfacts] at hatlas
    | ok facts =>
      obtain ⟨hmap, facts', hfacts', hperm⟩ :=
        Extraction.facts_perm w hs hs' hpacks ha hpaths hfacts
      have hn : ((facts.filter FileFacts.isSupported).map FileFacts.path).Nodup := by
        have hsub := List.filter_sublist (p := FileFacts.isSupported) (l := facts)
        exact (hsub.map FileFacts.path).nodup (hmap ▸ nodup_firstSeen given)
      simp only [hfacts] at hatlas
      simp only [hfacts', ← hpaths.length_eq]
      have hagree : ∀ x y, IsNumber x → IsNumber y → Agree place x y := fun x y => agree_place
      have hround : ∀ x y : Float, (x == y) = true →
          (s.scoringRule.round x == s.scoringRule.round y) = true := by
        intro x y h
        exact roundSignificant_beq s.scoring.precision h
      have hscore : ∀ f score, Score.ofTokens s.scoringRule f = .ok score → IsNumber score :=
        fun f score => Settings.isNumber_ofTokens hv
      exact Atlas.ofFacts_perm hagree hround hscore (hperm.filter _) hn _ _ hatlas
  · intro before behind path hpath
    exact outcome_congr hs hs' s.scoringRule durationMs durationMs' hpacks ha
      (firstSeen_repeat hpath behind)

namespace Workspace.Sample

theorem returns_sample : ∃ atlas,
    (buildAtlas workspace how Settings.builtin.scoringRule 0 registry paths).outcome =
      .ok atlas := by
  have hcalls : ¬ CallsLost workspace how Settings.builtin.scoringRule registry paths := by
    rintro ⟨_, batch, hb, token, _, hle⟩
    obtain rfl := Except.ok.inj (extract_sample.symm.trans hb)
    obtain ⟨b, a, c, hfacts, hb, ha, hc⟩ := supported_sequential
    simp only [view, Prod.mk.injEq] at hb ha hc
    have hcount : Callers.externalCount [b, a, c] token ≤ 1 := by
      have hone : ["f"].count token ≤ 1 := List.count_le_length
      rw [Callers.externalCount_eq]
      simp only [List.map_cons, List.map_nil, List.sum_cons, List.sum_nil, Callers.externalCalls,
        hb.2.2.1, ha.2.2.1, hc.2.2.1, List.count_nil, ite_self]
      split <;> omega
    have hcount' : (Callers.externalCount [b, a, c] token : ℚ) ≤ 1 := by exact_mod_cast hcount
    have hgreatest : (0 : ℚ) ≤ Binary64.greatest := Nat.cast_nonneg _
    rw [hfacts] at hle
    linarith [one_add_greatest_lt]
  have hlimit : ¬ how.LimitLost paths := by
    rintro ⟨hinfinite, _⟩
    exact hinfinite (by decide +kernel)
  obtain ⟨h0, h1⟩ := Validation.builtin_decay
  have hreturns := buildAtlas_error_iff workspace how Settings.builtin.scoringRule registry paths
    isOrder_how h0 h1 0
  cases ho : (buildAtlas workspace how Settings.builtin.scoringRule 0 registry paths).outcome with
  | ok atlas => exact ⟨atlas, rfl⟩
  | error e => exact absurd (hreturns.1 ⟨e, ho⟩) (by simp [hlimit, hcalls])

theorem reversed_sample_reorders :
    Validation.settings around.sources.accounts (.record []) = .accepted Settings.builtin ∧
      how.schedule.IsOrder ∧ Extraction.Schedule.IsOrder List.reverse ∧
      registry.Faithful workspace.installed ∧
      (registry.settleAll workspace.installed [.python]).Faithful workspace.installed ∧
      ∃ atlas atlas',
        (buildAtlas workspace how Settings.builtin.scoringRule 0 registry paths).outcome =
          .ok atlas ∧
        (buildAtlas workspace { how with schedule := List.reverse } Settings.builtin.scoringRule 7
          (registry.settleAll workspace.installed [.python])
          ["c.py", "a.py", "d/b.py", "a.py"]).outcome = .ok atlas' ∧
        Atlas.Reordered atlas atlas' ∧
        (buildAtlas workspace how Settings.builtin.scoringRule 0 registry
            ["d/b.py", "a.py", "d/b.py", "c.py"]).outcome.map Atlas.untimed =
          (buildAtlas workspace { how with schedule := List.reverse }
            Settings.builtin.scoringRule 7 (registry.settleAll workspace.installed [.python])
            paths).outcome.map Atlas.untimed := by
  have hv : Validation.settings around.sources.accounts (.record []) =
      .accepted Settings.builtin := rfl
  have hs' : Extraction.Schedule.IsOrder List.reverse := fun ts => List.reverse_perm ts
  have hr : registry.Faithful workspace.installed := Registry.faithful_ofPacks _
  have hr' := hr.settleAll [.python]
  have hpacks := (registry.packs_settleAll workspace.installed [.python]).symm
  obtain ⟨atlas, ho⟩ := returns_sample
  obtain ⟨hsets, hrepeat⟩ :=
    builds_agree_on_path_sets hv workspace isOrder_how hs' 0 7 hr hr' hpacks
  have hpaths : ∀ path, path ∈ paths ↔ path ∈ ["c.py", "a.py", "d/b.py", "a.py"] := by
    intro path
    simp only [paths, List.mem_cons, List.not_mem_nil, or_false]
    tauto
  obtain ⟨atlas', ho', hreordered⟩ := hsets _ _ hpaths atlas ho
  exact ⟨hv, isOrder_how, hs', hr, hr', atlas, atlas', ho, ho', hreordered,
    hrepeat ["d/b.py", "a.py"] ["c.py"] "d/b.py" (by decide)⟩

end Workspace.Sample

end SymbolAtlas
