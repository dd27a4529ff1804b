import SymbolAtlas.Proofs.Builds

/-!
What files contribute to a batch. Extraction is a map over the paths, whoever does the work, and
what a path contributes hangs on the registry through its packs alone, as long as the registry
keeps nothing but outcomes of loading. So does the outcome of a build.
-/

set_option autoImplicit false

namespace SymbolAtlas

namespace Extraction

variable (w : Workspace) (megabytes : Float)

def contribution (r : Registry) (path : String) : FileFacts :=
  match sizeLimit megabytes with
  | .ok limit => factsOf w limit r path
  | .error e => broken r path (.limit e)

variable {megabytes} in
theorem contribution_of_limit {limit : Int} (hl : sizeLimit megabytes = .ok limit) (r : Registry)
    (path : String) : contribution w megabytes r path = factsOf w limit r path := by
  simp [contribution, hl]

@[simp] theorem path_contribution (r : Registry) (path : String) :
    (contribution w megabytes r path).path = path := by
  cases hl : sizeLimit megabytes with
  | ok limit =>
    rw [contribution_of_limit w hl]
    exact (factsOf_tells w limit r path).1
  | error e => simp [contribution, hl, broken, FileFacts.blank]

theorem facts_sequential (r : Registry) (paths : List String) :
    (sequential w megabytes r paths).facts = paths.map (contribution w megabytes r) := by
  cases hl : sizeLimit megabytes with
  | ok limit =>
    rw [(sequential_eq w hl r paths).1]
    simp [contribution_of_limit w hl]
  | error e =>
    have hc : contribution w megabytes r = fun path => broken r path (.limit e) := by
      funext path
      simp [contribution, hl]
    rw [hc]
    simpa [sequential] using foldl_addSequential_of_error w hl paths ⟨[], r, []⟩

/-- A batch fails as a whole where several workers are to share a limit that cannot be. Otherwise
every path contributes on its own. -/
theorem facts_extract {schedule : Schedule} (hs : schedule.IsOrder) (workers : Nat)
    (r : Registry) (paths : List String) :
    (extract w megabytes workers schedule r paths).map Batch.facts =
      if workerCount workers paths.length ≤ 1 then
        .ok (paths.map (contribution w megabytes r))
      else (sizeLimit megabytes).map fun _ => paths.map (contribution w megabytes r) := by
  by_cases hone : workerCount workers paths.length ≤ 1
  · simp [extract, hone, Except.map, facts_sequential]
  · cases hl : sizeLimit megabytes with
    | error e => simp [extract, hone, hl, Except.map]
    | ok limit =>
      have hp := (parallel_eq w limit hs r paths).1
      simp [extract, hone, hl, Except.map, hp, contribution_of_limit w hl]

section Registry

variable {r s : Registry} (hp : r.packs = s.packs)
  (ha : ∀ language, r.answer w.installed language = s.answer w.installed language)

include hp ha

theorem factsOf_congr (limit : Int) (path : String) :
    factsOf w limit r path = factsOf w limit s path := by
  have ho := attempt_outcome_congr w limit hp ha path
  rw [factsOf, factsOf, ho]
  cases (attempt w limit s path).outcome with
  | ok facts => rfl
  | error fault => simp [settle, broken, Registry.languageFor, hp]

theorem contribution_congr (path : String) :
    contribution w megabytes r path = contribution w megabytes s path := by
  cases hl : sizeLimit megabytes with
  | ok limit =>
    rw [contribution_of_limit w hl, contribution_of_limit w hl]
    exact factsOf_congr w hp ha limit path
  | error e => simp [contribution, hl, broken, Registry.languageFor, hp]

end Registry

section Left

theorem registry_addSequential (batch : Batch) (path : String) :
    ∃ languages, (addSequential w megabytes batch path).registry =
      batch.registry.settleAll w.installed languages := by
  cases hl : sizeLimit megabytes with
  | ok limit => exact ⟨_, (addSequential_eq w hl batch path).2⟩
  | error e => exact ⟨[], by simp [addSequential, hl]⟩

theorem registry_foldl_addSequential (paths : List String) (batch : Batch) :
    ∃ languages, (paths.foldl (addSequential w megabytes) batch).registry =
      batch.registry.settleAll w.installed languages := by
  induction paths generalizing batch with
  | nil => exact ⟨[], rfl⟩
  | cons path rest ih =>
    obtain ⟨xs, hxs⟩ := registry_addSequential w megabytes batch path
    obtain ⟨ys, hys⟩ := ih (addSequential w megabytes batch path)
    refine ⟨xs ++ ys, ?_⟩
    rw [List.foldl_cons, hys, hxs, Registry.settleAll_append]

theorem registry_extract {workers : Nat} {schedule : Schedule} {r : Registry}
    {paths : List String} {batch : Batch}
    (h : extract w megabytes workers schedule r paths = .ok batch) :
    ∃ languages, batch.registry = r.settleAll w.installed languages := by
  by_cases hone : workerCount workers paths.length ≤ 1
  · simp only [extract, hone, if_true, Except.ok.injEq] at h
    subst h
    exact registry_foldl_addSequential w megabytes paths ⟨[], r, []⟩
  · cases hl : sizeLimit megabytes with
    | error e => simp [extract, hone, hl] at h
    | ok limit =>
      simp only [extract, hone, hl, if_false, Except.ok.injEq] at h
      subst h
      exact ⟨_, (foldl_work w limit (schedule (tasks paths)) ⟨[], r, []⟩).2⟩

end Left

end Extraction

variable {σ : Type} [BEq σ] [LT σ] [DecidableLT σ] [ScoreArithmetic σ]

/-- The same result, whatever time it took. -/
def Atlas.untimed (a : Atlas σ) : Atlas σ := { a with stats := { a.stats with durationMs := 0 } }

theorem Atlas.untimed_ofFacts (rule : ScoringRule σ) (paths durationMs : Nat)
    (facts : List FileFacts) :
    (ofFacts rule paths durationMs facts).map untimed = ofFacts rule paths 0 facts := by
  cases hraw : Score.ofFacts rule facts with
  | error e => simp [ofFacts, hraw, Except.map]
  | ok raw =>
    cases ha : Callers.assign raw facts raw.definers with
    | error e => simp [ofFacts, hraw, ha, Except.map]
    | ok a =>
      cases hs : Report.scores rule
          ((Callers.external facts).mapWithKey fun _ (n : Nat) => (n : Int)) raw with
      | error e => simp [ofFacts, hraw, ha, hs, Except.map]
      | ok scores => simp [ofFacts, hraw, ha, hs, Except.map, untimed, count]

theorem outcome_of_facts (w : Workspace) (how : ExtractionRule) (rule : ScoringRule σ)
    (durationMs : Nat) (r : Registry) (given : List String) :
    (buildAtlas w how rule durationMs r given).outcome =
      match (Extraction.extract w how.maxFileSizeMb how.workers how.schedule r
          (firstSeen given)).map Extraction.Batch.facts with
      | .error e => .error (.arithmetic e)
      | .ok facts => Atlas.ofFacts rule (firstSeen given).length durationMs
          (facts.filter FileFacts.isSupported) := by
  rw [outcome_buildAtlas]
  cases Extraction.extract w how.maxFileSizeMb how.workers how.schedule r (firstSeen given) with
  | error e => rfl
  | ok batch => rfl

/-- Two registries with the same packs and answers lead to one outcome, in whatever order the
workers go about the files. -/
theorem outcome_congr {w : Workspace} {how : ExtractionRule} (hs : how.schedule.IsOrder)
    {schedule : Extraction.Schedule} (hs' : schedule.IsOrder) (rule : ScoringRule σ)
    (durationMs durationMs' : Nat) {r s : Registry} (hp : r.packs = s.packs)
    (ha : ∀ language, r.answer w.installed language = s.answer w.installed language)
    {given given' : List String} (hg : firstSeen given = firstSeen given') :
    (buildAtlas w how rule durationMs r given).outcome.map Atlas.untimed =
      (buildAtlas w { how with schedule := schedule } rule durationMs' s given').outcome.map
        Atlas.untimed := by
  have hfacts : Extraction.contribution w how.maxFileSizeMb r =
      Extraction.contribution w how.maxFileSizeMb s :=
    funext (Extraction.contribution_congr w how.maxFileSizeMb hp ha)
  have hextract :
      (Extraction.extract w how.maxFileSizeMb how.workers how.schedule r (firstSeen given)).map
          Extraction.Batch.facts =
        (Extraction.extract w how.maxFileSizeMb how.workers schedule s (firstSeen given')).map
          Extraction.Batch.facts := by
    rw [Extraction.facts_extract w _ hs, Extraction.facts_extract w _ hs', hfacts, hg]
  rw [outcome_of_facts, outcome_of_facts, hextract, hg]
  cases (Extraction.extract w how.maxFileSizeMb how.workers schedule s (firstSeen given')).map
      Extraction.Batch.facts with
  | error e => rfl
  | ok facts => simp only [Atlas.untimed_ofFacts]

theorem registry_buildAtlas (w : Workspace) (how : ExtractionRule) (rule : ScoringRule σ)
    (durationMs : Nat) (r : Registry) (given : List String) :
    ∃ languages, (buildAtlas w how rule durationMs r given).registry =
      r.settleAll w.installed languages := by
  cases he : Extraction.extract w how.maxFileSizeMb how.workers how.schedule r
      (firstSeen given) with
  | error e => exact ⟨[], by simp [buildAtlas, he]⟩
  | ok batch =>
    obtain ⟨languages, hl⟩ := Extraction.registry_extract w _ he
    refine ⟨languages, ?_⟩
    cases ho : Atlas.ofFacts rule (firstSeen given).length durationMs
        (batch.facts.filter FileFacts.isSupported) with
    | error e => simp only [buildAtlas, he, ho, hl]
    | ok atlas => simp only [buildAtlas, he, ho, hl]

end SymbolAtlas
