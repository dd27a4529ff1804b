import SymbolAtlas.Proofs.Contributions
import SymbolAtlas.Proofs.ScoringCalls

/-!
Registries that were used before. Whatever was done with a registry amounts to look-ups, so a
scoring call cannot tell it from a new one.
-/

set_option autoImplicit false

namespace SymbolAtlas

namespace Registry

/-- What may be done with a registry. Calls bring their own files, settings and schedule. -/
inductive Use
  | lookUp (language : Language)
  | resolve (path : String)
  | parse (parser : Parser) (path : String) (source : List UInt8)
  | score (around : Surroundings) (root : String) (files : FileList) (given : Option Settings)

variable (installed : Installation)

def use (r : Registry) : Use → Registry
  | .lookUp language => (r.profileFor installed language).registry
  | .resolve path => (r.resolve installed path).registry
  | .parse parser path source => (parseSource installed parser r path source).registry
  | .score around root files given =>
    (scoreFiles { around with installed := installed } r root files given).registry

def useAll (r : Registry) (uses : List Use) : Registry := uses.foldl (use installed) r

theorem registry_resolve (r : Registry) (path : String) :
    (r.resolve installed path).registry =
      r.settleAll installed (r.languageFor path).toList := by
  cases hl : r.languageFor path with
  | none => simp [Registry.resolve, hl]
  | some language => simp [Registry.resolve, hl, settle]

theorem registry_parseSource (parser : Parser) (r : Registry) (path : String)
    (source : List UInt8) :
    (parseSource installed parser r path source).registry =
      (r.resolve installed path).registry := by
  rcases hf : (r.resolve installed path).profile with crash | (_ | profile)
  all_goals simp [parseSource, hf]

theorem registry_scoreFiles (around : Surroundings) (r : Registry) (root : String)
    (files : FileList) (given : Option Settings) :
    ∃ languages, (scoreFiles around r root files given).registry =
      r.settleAll around.installed languages := by
  cases hp : Scoring.prepare around root files given with
  | error e => exact ⟨[], by simp [scoreFiles, hp]⟩
  | ok task =>
    obtain ⟨languages, hl⟩ := registry_buildAtlas (Scoring.workspace around task.root)
      (task.settings.extractionRule around) task.settings.scoringRule around.durationMs r task.paths
    refine ⟨languages, ?_⟩
    simp only [scoreFiles, hp, Scoring.perform]
    split
    · exact hl
    · exact hl

theorem use_eq (r : Registry) (u : Use) :
    ∃ languages, r.use installed u = r.settleAll installed languages := by
  cases u with
  | lookUp language => exact ⟨[language], rfl⟩
  | resolve path => exact ⟨_, registry_resolve installed r path⟩
  | parse parser path source =>
    exact ⟨_, (registry_parseSource installed parser r path source).trans
      (registry_resolve installed r path)⟩
  | score around root files given =>
    exact registry_scoreFiles { around with installed := installed } r root files given

theorem useAll_eq (r : Registry) (uses : List Use) :
    ∃ languages, r.useAll installed uses = r.settleAll installed languages := by
  induction uses generalizing r with
  | nil => exact ⟨[], rfl⟩
  | cons u rest ih =>
    obtain ⟨xs, hxs⟩ := use_eq installed r u
    obtain ⟨ys, hys⟩ := ih (r.use installed u)
    refine ⟨xs ++ ys, ?_⟩
    rw [settleAll_append, ← hxs, ← hys]
    rfl

end Registry

theorem scoreFiles_congr (around : Surroundings) (hs : around.schedule.IsOrder)
    {schedule : Extraction.Schedule} (hs' : schedule.IsOrder) (durationMs : Nat)
    {r s : Registry} (hp : r.packs = s.packs)
    (ha : ∀ language, r.answer around.installed language = s.answer around.installed language)
    (root : String) (files : FileList) (given : Option Settings) :
    (scoreFiles around r root files given).outcome.map Atlas.untimed =
      (scoreFiles { around with schedule := schedule, durationMs := durationMs } s root files
        given).outcome.map Atlas.untimed := by
  have hprepare : Scoring.prepare { around with schedule := schedule, durationMs := durationMs }
      root files given = Scoring.prepare around root files given := rfl
  cases ht : Scoring.prepare around root files given with
  | error e => simp only [scoreFiles, hprepare, ht]
  | ok task =>
    have horder : (task.settings.extractionRule around).schedule.IsOrder := hs
    have hpaths : firstSeen task.paths = firstSeen task.paths := rfl
    have hbuild := outcome_congr (w := Scoring.workspace around task.root) horder hs'
      task.settings.scoringRule around.durationMs durationMs hp ha hpaths
    have hperform : ∀ (around : Surroundings) (r : Registry),
        (Scoring.perform around r task).outcome.map Atlas.untimed =
          ((buildAtlas (Scoring.workspace around task.root) (task.settings.extractionRule around)
            task.settings.scoringRule around.durationMs r task.paths).outcome.map
              Atlas.untimed).mapError ScoringFault.build := by
      intro around r
      rw [Scoring.outcome_perform]
      cases (buildAtlas (Scoring.workspace around task.root)
          (task.settings.extractionRule around) task.settings.scoringRule around.durationMs r
          task.paths).outcome with
      | ok atlas => rfl
      | error e => rfl
    simp only [scoreFiles, hprepare, ht]
    rw [hperform, hperform, hbuild]
    rfl

/-- A call with a registry that was used before ends like one with a new registry over the same
packs, whatever went before. -/
theorem used_registry_scores_alike (packs : PackTable) (uses : List Registry.Use)
    (around : Surroundings) (hs : around.schedule.IsOrder) {schedule : Extraction.Schedule}
    (hs' : schedule.IsOrder) (durationMs : Nat) (root : String) (files : FileList)
    (given : Option Settings) :
    (scoreFiles around ((Registry.ofPacks packs).useAll around.installed uses) root files
        given).outcome.map Atlas.untimed =
      (scoreFiles { around with schedule := schedule, durationMs := durationMs }
        (Registry.ofPacks packs) root files given).outcome.map Atlas.untimed := by
  obtain ⟨languages, hl⟩ := Registry.useAll_eq around.installed (Registry.ofPacks packs) uses
  rw [hl]
  exact scoreFiles_congr around hs hs' durationMs (Registry.packs_settleAll ..)
    (Registry.answer_settleAll around.installed _ languages) root files given

namespace Workspace.Sample

def uses : List Registry.Use :=
  [.score around "/q" (.ofTexts paths) none, .resolve "a.txt", .lookUp .python]

theorem used_sample_scores_alike :
    around.schedule.IsOrder ∧ Extraction.Schedule.IsOrder List.reverse ∧
      (registry.useAll around.installed uses).isLoaded .python = true ∧
      registry.isLoaded .python = false ∧
      (scoreFiles around (registry.useAll around.installed uses) "/p" (.ofTexts paths)
          (some Settings.builtin)).outcome.map Atlas.untimed =
        (scoreFiles { around with schedule := List.reverse, durationMs := 7 } registry "/p"
          (.ofTexts paths) (some Settings.builtin)).outcome.map Atlas.untimed := by
  have hs : around.schedule.IsOrder := fun ts => .refl ts
  have hs' : Extraction.Schedule.IsOrder List.reverse := fun ts => List.reverse_perm ts
  exact ⟨hs, hs', rfl, rfl,
    used_registry_scores_alike (PackTable.ofPacks [pack]) uses around hs hs' 7 "/p" _ _⟩

end Workspace.Sample

end SymbolAtlas
