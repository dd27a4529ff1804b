import SymbolAtlas.Scoring
import SymbolAtlas.Proofs.Acceptance
import SymbolAtlas.Proofs.Builds
import SymbolAtlas.Proofs.MachineScores

/-!
How scoring calls end. With accepted settings a call returns or complains of its arguments, but for
three faults that escape: a root with too long a name, a size limit that is no number while several
workers are used, and more calls than a double can count.
-/

set_option autoImplicit false

namespace SymbolAtlas

theorem FileTree.walk_error {t : FileTree} {place segments : List String} {e : Errno}
    (h : t.walk place segments = .error e) :
    e = .noEntry ∨ e = .notDirectory ∨ e = .nameTooLong := by
  induction segments generalizing place with
  | nil => simp [walk] at h
  | cons segment rest ih =>
    cases hp : t.entry? place with
    | none =>
      simp only [walk, hp, Except.error.injEq] at h
      simp [← h]
    | some entry =>
      cases entry with
      | file octets =>
        simp only [walk, hp, Except.error.injEq] at h
        simp [← h]
      | directory =>
        simp only [walk, hp] at h
        split at h
        · exact ih h
        · split at h
          · simp only [Except.error.injEq] at h
            simp [← h]
          · split at h
            · simp only [Except.error.injEq] at h
              simp [← h]
            · exact ih h

theorem FileTree.find_error {t : FileTree} {p : Path} {e : Errno} (h : t.find p = .error e) :
    e = .noEntry ∨ e = .notDirectory ∨ e = .nameTooLong := by
  cases hl : t.locate p with
  | error e' =>
    simp only [find, hl, Except.error.injEq] at h
    subst h
    simp only [locate] at hl
    split at hl
    · simp only [Except.error.injEq] at hl
      simp [← hl]
    · exact walk_error hl
  | ok place =>
    cases he : t.entry? place with
    | some entry => simp [find, hl, he] at h
    | none =>
      simp only [find, hl, he, Except.error.injEq] at h
      simp [← h]

namespace FileList

def Proper : FileList → Prop
  | .entries items => ∀ item ∈ items, ∀ v, item ≠ .other v
  | .oneText => False
  | .single _ => False

theorem exists_paths_iff (files : FileList) :
    (∃ paths, files.paths = .ok paths) ↔ files.Proper := by
  cases files with
  | oneText => simp [paths, Proper]
  | single v => simp [paths, Proper]
  | entries items =>
    have hentry : ∀ item, (∃ e, entryPath item = .error e) ↔ ∃ v, item = .other v := by
      intro item
      cases item <;> simp [entryPath]
    have herror := mapM_some_error entryPath items
    cases hm : items.mapM entryPath with
    | ok ps =>
      have hnone : ¬ ∃ item ∈ items, ∃ e, entryPath item = .error e := by
        rw [← herror, hm]
        simp
      simp only [hentry] at hnone
      simp only [paths, hm, Except.ok.injEq, exists_eq', true_iff]
      exact fun item hi v he => hnone ⟨item, hi, v, he⟩
    | error e =>
      obtain ⟨item, hi, he⟩ := herror.1 ⟨e, hm⟩
      obtain ⟨v, hv⟩ := (hentry item).1 he
      simp only [paths, hm, reduceCtorEq, exists_false, false_iff]
      exact fun hproper => hproper item hi v hv

end FileList

section Build

variable (w : Workspace) (how : ExtractionRule) (rule : ScoringRule Float) (r : Registry)
  (given : List String)

/-- Several workers are to share a size limit that is no number. -/
def ExtractionRule.LimitLost : Prop :=
  ¬ (how.maxFileSizeMb * 1024 * 1024).isFinite = true ∧
    1 < Extraction.workerCount how.workers (firstSeen given).length

/-- Some defined token is called more often than a double can count, and calls matter. -/
def CallsLost : Prop :=
  rule.boost = true ∧ ∃ batch,
    Extraction.extract w how.maxFileSizeMb how.workers how.schedule r (firstSeen given) =
        .ok batch ∧
      ∃ token, (∃ f ∈ batch.supported, token ∈ f.definitions.keys) ∧
        Binary64.overflow ≤ (Callers.externalCount batch.supported token : ℚ)

theorem extract_error_iff :
    (∃ e, Extraction.extract w how.maxFileSizeMb how.workers how.schedule r (firstSeen given) =
      .error e) ↔ how.LimitLost given := by
  by_cases hone : Extraction.workerCount how.workers (firstSeen given).length ≤ 1
  · simp [Extraction.extract, hone, ExtractionRule.LimitLost]
  · have hmany := not_le.1 hone
    by_cases hfinite : (how.maxFileSizeMb * 1024 * 1024).isFinite = true
    · obtain ⟨limit, hl, _⟩ := Extraction.sizeLimit_of_finite hfinite
      simp [Extraction.extract, hone, hl, ExtractionRule.LimitLost, hfinite]
    · obtain ⟨e, hl⟩ := truncateFloat_of_not_finite hfinite
      have hl' : Extraction.sizeLimit how.maxFileSizeMb = .error e := hl
      simp [Extraction.extract, hone, hl', ExtractionRule.LimitLost, hfinite, hmany]

/-- A build in machine arithmetic fails for one of two reasons. -/
theorem buildAtlas_error_iff (hs : how.schedule.IsOrder) (h0 : 0 < rule.decay)
    (h1 : rule.decay < 1) (durationMs : Nat) :
    (∃ e, (buildAtlas w how rule durationMs r given).outcome = .error e) ↔
      how.LimitLost given ∨ CallsLost w how rule r given := by
  have hlimit := extract_error_iff w how r given
  rw [outcome_buildAtlas, ← hlimit]
  cases he : Extraction.extract w how.maxFileSizeMb how.workers how.schedule r
      (firstSeen given) with
  | error e => simp
  | ok batch =>
    have hn := nodup_supported how hs he
    have htells := (Extraction.covers_of_extract w hs he).2
    -- Scoring itself cannot fail, so only the counts of calls are left.
    obtain ⟨raw, hraw⟩ := Score.ofFacts_machine h0 h1
      fun f hf => htells f (List.mem_of_mem_filter hf)
    obtain ⟨a, _, hatlas⟩ := Atlas.ofFacts_eq hn hraw (firstSeen given).length durationMs
    have hcalls : (∃ e, Report.scores rule
        ((Callers.external batch.supported).mapWithKey fun _ (n : Nat) => (n : Int)) raw =
          .error e) ↔ CallsLost w how rule r given := by
      rw [Report.scores_error_iff, Report.boosted_error_iff]
      simp only [Callers.getD_external, Score.callBoost_machine,
        Score.isSome_score?_ofFacts hn hraw, CallsLost, he, Except.ok.injEq, exists_eq_left']
      refine and_congr_right fun _ => ?_
      constructor
      · rintro ⟨_, token, ⟨f, hf, _, ht⟩, hle⟩
        exact ⟨token, ⟨f, hf, ht⟩, hle⟩
      · rintro ⟨token, ⟨f, hf, ht⟩, hle⟩
        exact ⟨f.path, token, ⟨f, hf, rfl, ht⟩, hle⟩
    simp only [hatlas, ← hcalls, reduceCtorEq, exists_false, false_or]
    cases Report.scores rule
        ((Callers.external batch.supported).mapWithKey fun _ (n : Nat) => (n : Int)) raw with
    | error e => simp
    | ok scores => simp

end Build

namespace Scoring

inductive RootState
  | missing
  | file
  | directory
  | tooLong
  deriving DecidableEq

def rootState (around : Surroundings) (root : String) : RootState :=
  if holdsNul (Path.ofText root).text then .missing
  else
    match around.sources.files.find (around.sources.current.below (Path.ofText root)) with
    | .ok (.directory _) => .directory
    | .ok (.file _) => .file
    | .error .nameTooLong => .tooLong
    | .error _ => .missing

/-- A root is refused as an argument unless it is a directory or has too long a name. -/
theorem checkRoot_eq (around : Surroundings) (root : String) :
    checkRoot around root =
      match rootState around root with
      | .missing => .error (.argument (.rootNotFound root))
      | .file => .error (.argument (.rootNotDirectory root))
      | .tooLong => .error (.unreadable (Path.ofText root) .nameTooLong)
      | .directory => .ok (Path.ofText root) := by
  by_cases hn : holdsNul (Path.ofText root).text = true
  · simp [checkRoot, rootState, hn]
  · cases he : around.sources.files.find (around.sources.current.below (Path.ofText root)) with
    | ok entry => cases entry <;> simp [checkRoot, rootState, hn, he]
    | error e =>
      rcases FileTree.find_error he with rfl | rfl | rfl <;> simp [checkRoot, rootState, hn, he]

theorem outcome_perform (around : Surroundings) (r : Registry) (task : Task) :
    (perform around r task).outcome =
      match (buildAtlas (workspace around task.root) (task.settings.extractionRule around)
        task.settings.scoringRule around.durationMs r task.paths).outcome with
      | .ok atlas => .ok atlas
      | .error e => .error (.build e) := by
  cases h : (buildAtlas (workspace around task.root) (task.settings.extractionRule around)
      task.settings.scoringRule around.durationMs r task.paths).outcome with
  | ok atlas => simp only [perform, h]
  | error e => simp only [perform, h]

end Scoring

open Scoring

/-- With accepted settings a call complains of its arguments exactly where they are bad. Any other
fault escapes from a root with too long a name, from a size limit that is no number while several
workers are used, or from more calls than a double can count. -/
theorem scoreFiles_faults (around : Surroundings) (hs : around.schedule.IsOrder) (r : Registry)
    (root : String) (files : FileList) {accounts : Accounts} {document : Value} {s : Settings}
    (hv : Validation.settings accounts document = .accepted s) :
    ((∃ e, (scoreFiles around r root files (some s)).outcome = .error (.argument e)) ↔
        rootState around root = .missing ∨ rootState around root = .file ∨
          (rootState around root = .directory ∧ ¬ files.Proper)) ∧
      ((∃ fault, (scoreFiles around r root files (some s)).outcome = .error fault ∧
          ∀ e, fault ≠ .argument e) ↔
        rootState around root = .tooLong ∨
          (rootState around root = .directory ∧ ∃ paths, files.paths = .ok paths ∧
            ((s.extractionRule around).LimitLost paths ∨
              CallsLost (workspace around (Path.ofText root)) (s.extractionRule around)
                s.scoringRule r paths))) ∧
      ((∃ atlas, (scoreFiles around r root files (some s)).outcome = .ok atlas) ↔
        rootState around root = .directory ∧ ∃ paths, files.paths = .ok paths ∧
          ¬ (s.extractionRule around).LimitLost paths ∧
          ¬ CallsLost (workspace around (Path.ofText root)) (s.extractionRule around)
            s.scoringRule r paths) := by
  have hroot := checkRoot_eq around root
  cases hstate : rootState around root with
  | missing => simp [scoreFiles, prepare, hroot, hstate]
  | file => simp [scoreFiles, prepare, hroot, hstate]
  | tooLong => simp [scoreFiles, prepare, hroot, hstate]
  | directory =>
    have hproper := files.exists_paths_iff
    cases hp : files.paths with
    | error e =>
      have hnot : ¬ files.Proper := by
        rw [← hproper, hp]
        simp
      simp [scoreFiles, prepare, hroot, hstate, hp, hnot]
    | ok paths =>
      have hyes : files.Proper := hproper.1 ⟨paths, hp⟩
      obtain ⟨h0, h1⟩ := Validation.settings_accepted hv
      have hbuild := buildAtlas_error_iff (workspace around (Path.ofText root))
        (s.extractionRule around) s.scoringRule r paths hs h0 h1 around.durationMs
      have hcall : (scoreFiles around r root files (some s)).outcome =
          (perform around r ⟨Path.ofText root, paths, s⟩).outcome := by
        simp [scoreFiles, prepare, hroot, hstate, hp, chooseSettings]
      simp only [hcall, outcome_perform, Except.ok.injEq, exists_eq_left', ← not_or, ← hbuild]
      cases (buildAtlas (workspace around (Path.ofText root)) (s.extractionRule around)
          s.scoringRule around.durationMs r paths).outcome with
      | ok atlas => simp [hyes]
      | error e => simp [hyes]

namespace Workspace.Sample

def around : Surroundings where
  installed := workspace.installed
  parser := workspace.parser
  sources := ⟨workspace.files, workspace.current, ⟨.root, ["u"]⟩, .builtin, [], ⟨none, []⟩⟩
  processors := 1
  schedule := id
  durationMs := 0

def unlimited : Value :=
  .record [("indexer", .record [("max_workers", .ofNat 2), ("max_file_size_mb", .float (1 / 0))])]

def unlimitedSettings : Settings := { Settings.builtin with indexer := ⟨some 2, .given (1 / 0)⟩ }

theorem accepted_unlimited :
    Validation.settings around.sources.accounts unlimited = .accepted unlimitedSettings := rfl

end Workspace.Sample

open Workspace.Sample

/-- An infinite limit is accepted, and yet it ends a call with good arguments. -/
theorem infinite_limit_escapes :
    Validation.settings around.sources.accounts unlimited = .accepted unlimitedSettings ∧
      rootState around "/p" = .directory ∧
      (scoreFiles around registry "/p" (.ofTexts paths) (some unlimitedSettings)).outcome =
        .error (.build (.arithmetic .infiniteToWhole)) :=
  ⟨accepted_unlimited, by decide +kernel, rfl⟩

theorem faults_of_sample_calls :
    around.schedule.IsOrder ∧
      Validation.settings around.sources.accounts unlimited = .accepted unlimitedSettings ∧
      (∃ e, (scoreFiles around registry "/q" (.ofTexts paths)
        (some unlimitedSettings)).outcome = .error (.argument e)) ∧
      ∃ fault, (scoreFiles around registry "/p" (.ofTexts paths)
        (some unlimitedSettings)).outcome = .error fault ∧ ∀ e, fault ≠ .argument e := by
  have hs : around.schedule.IsOrder := fun ts => .refl ts
  refine ⟨hs, accepted_unlimited, ?_, ?_⟩
  · exact (scoreFiles_faults around hs registry "/q" (.ofTexts paths) accepted_unlimited).1.2
      (.inl (by decide +kernel))
  · refine (scoreFiles_faults around hs registry "/p" (.ofTexts paths) accepted_unlimited).2.1.2
      (.inr ⟨by decide +kernel, paths, rfl, .inl ⟨?_, ?_⟩⟩)
    · decide +kernel
    · decide +kernel

end SymbolAtlas
