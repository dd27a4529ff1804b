import SymbolAtlas.Proofs.Isolation

/-!
Which files have a row in the result. A file that is read has one if its language can be used, and
also if the module of its grammar crashes, since the row then holds the crash. A file that is not
read has one already if its suffix belongs to a language, since nobody asks then whether the
language can be used; and with a size limit that is no number every file has one.
-/

set_option autoImplicit false

namespace SymbolAtlas

namespace FileFacts

theorem addCapture_marks (f : FileFacts) (c : Capture) :
    (f.addCapture c).unsupported = f.unsupported ∧ (f.addCapture c).error = f.error := by
  cases hk : c.kind <;> simp [addCapture, hk]

theorem addCaptures_marks (f : FileFacts) (captures : List Capture) :
    (f.addCaptures captures).unsupported = f.unsupported ∧
      (f.addCaptures captures).error = f.error := by
  induction captures generalizing f with
  | nil => exact ⟨rfl, rfl⟩
  | cons c rest ih =>
    have hrest := ih (f.addCapture c)
    have hc := addCapture_marks f c
    exact ⟨hrest.1.trans hc.1, hrest.2.trans hc.2⟩

end FileFacts

namespace Registry

theorem profile_resolve_ne_none {installed : Installation} {r : Registry} {path : String} :
    (r.resolve installed path).profile ≠ .ok none ↔
      ∃ language, r.languageFor path = some language ∧ r.answer installed language ≠ .ok none := by
  cases hl : r.languageFor path with
  | none => simp [resolve, hl]
  | some language => simp [resolve, hl, answer]

end Registry

namespace Extraction

variable (w : Workspace)

theorem isSupported_broken (r : Registry) (path : String) (fault : ExtractionFault) :
    (broken r path fault).isSupported = true :=
  rfl

theorem factsOfTree_marks (path : String) (language : Language) (source : List UInt8)
    (query : TagQuery) (t : SyntaxTree) :
    (factsOfTree path language source query t).isSupported = true ∧
      (factsOfTree path language source query t).error = none := by
  have h := FileFacts.addCaptures_marks
    { FileFacts.blank path (some language) with
      lineCount := Text.lineCount source, errorCount := t.countNodes.faults }
    (Capture.collect source (query.captured t))
  exact ⟨by rw [FileFacts.isSupported, factsOfTree, h.1]; rfl, h.2⟩

/-- A source that was read has a row unless its language is known to be of no use. -/
theorem isSupported_ofSource {r : Registry} {path : String} {language : Language}
    (hl : r.languageFor path = some language) (source : List UInt8) :
    (settle r path
        (ofSource w r (FileFacts.blank path (some language)) source).outcome).1.isSupported = true ↔
      r.answer w.installed language ≠ .ok none := by
  obtain ⟨_, ho⟩ := parseSource_eq w r hl source
  have hblank : (FileFacts.blank path (some language)).path = path := rfl
  rcases ha : r.answer w.installed language with crash | (_ | profile)
  · rw [ha] at ho
    simp [ofSource, hblank, ho, settle, isSupported_broken]
  · rw [ha] at ho
    simp [ofSource, hblank, ho, settle, FileFacts.isSupported]
  · rw [ha] at ho
    cases hp : w.parser.parse path profile.pack.language source with
    | tree t =>
      rw [ofSource_of_tree w hl ha hp]
      cases hq : w.parser.queryFault? path with
      | some message => simp [settle, isSupported_broken]
      | none => simp [settle, factsOfTree_marks]
    | noTree =>
      simp [ofSource, ho, hp, ParserAnswer.outcome, settle, FileFacts.isSupported,
        FileFacts.blank]
    | refused message =>
      simp [ofSource, ho, hp, ParserAnswer.outcome, settle, FileFacts.isSupported,
        FileFacts.blank]
    | crashed crash =>
      simp [ofSource, hblank, ho, hp, ParserAnswer.outcome, settle, isSupported_broken]

theorem isSupported_factsOf (limit : Int) (r : Registry) (path : String) :
    (factsOf w limit r path).isSupported = true ↔
      ∃ language, r.languageFor path = some language ∧
        (r.answer w.installed language ≠ .ok none ∨ source? w limit path = none) := by
  cases hl : r.languageFor path with
  | none => simp [factsOf, attempt, hl, settle, FileFacts.isSupported]
  | some language =>
    simp only [Option.some.injEq, exists_eq_left']
    cases hs : source? w limit path with
    | none =>
      obtain ⟨outcome, events, he, ho⟩ :=
        ofFile_of_unread w limit (FileFacts.blank path (some language)) hs
      have houtcome : (attempt w limit r path).outcome = outcome := by simp [attempt, hl, he]
      rcases ho with rfl | ⟨why, rfl⟩
      · simp [factsOf_of_error w limit houtcome, isSupported_broken]
      · simp [factsOf_of_ok w limit houtcome, FileFacts.isSupported, FileFacts.blank]
    | some source =>
      have houtcome : (attempt w limit r path).outcome =
          (ofSource w r (FileFacts.blank path (some language)) source).outcome := by
        simp [attempt, hl, ofFile_of_read w limit (FileFacts.blank path (some language)) hs r]
      simp [factsOf, houtcome, isSupported_ofSource w hl source]

/-- A file whose row is settled before anyone asks whether its language can be used: there is no
size limit to be had, or the suffix belongs to a language and the file is not read. -/
inductive Unasked (megabytes : Float) (r : Registry) (path : String) : Prop
  | limitless {e : ArithmeticFault} (h : sizeLimit megabytes = .error e)
  | unread {limit : Int} {language : Language} (h : sizeLimit megabytes = .ok limit)
      (hl : r.languageFor path = some language) (hs : source? w limit path = none)

theorem isSupported_contribution (megabytes : Float) (r : Registry) (path : String) :
    (contribution w megabytes r path).isSupported = true ↔
      (r.resolve w.installed path).profile ≠ .ok none ∨ Unasked w megabytes r path := by
  cases hm : sizeLimit megabytes with
  | error e =>
    have hu : Unasked w megabytes r path := .limitless hm
    simp [contribution, hm, isSupported_broken, hu]
  | ok limit =>
    have hu : Unasked w megabytes r path ↔
        ∃ language, r.languageFor path = some language ∧ source? w limit path = none := by
      constructor
      · rintro (h | ⟨h, hl, hs⟩)
        · simp [hm] at h
        · obtain rfl := Except.ok.inj (hm.symm.trans h)
          exact ⟨_, hl, hs⟩
      · rintro ⟨language, hl, hs⟩
        exact .unread hm hl hs
    rw [contribution_of_limit w hm, isSupported_factsOf, hu, Registry.profile_resolve_ne_none,
      ← exists_or]
    simp only [and_or_left]

end Extraction

variable {σ : Type} [BEq σ] [LT σ] [DecidableLT σ] [ScoreArithmetic σ]

def placedFacts (w : Workspace) (megabytes : Float) (r : Registry) (given : List String) :
    List FileFacts :=
  ((firstSeen given).map (Extraction.contribution w megabytes r)).filter FileFacts.isSupported

theorem map_path_placedFacts (w : Workspace) (megabytes : Float) (r : Registry)
    (given : List String) :
    (placedFacts w megabytes r given).map FileFacts.path =
      (firstSeen given).filter fun path =>
        (Extraction.contribution w megabytes r path).isSupported := by
  simp [placedFacts, List.filter_map, Function.comp_def]

theorem nodup_placedFacts (w : Workspace) (megabytes : Float) (r : Registry)
    (given : List String) : ((placedFacts w megabytes r given).map FileFacts.path).Nodup := by
  rw [map_path_placedFacts]
  exact (nodup_firstSeen given).filter _

section Returned

variable {w : Workspace} {how : ExtractionRule} (hs : how.schedule.IsOrder) {rule : ScoringRule σ}
  {durationMs : Nat} {r : Registry} {given : List String} {atlas : Atlas σ}
  (h : (buildAtlas w how rule durationMs r given).outcome = .ok atlas)

include hs h

theorem ofFacts_of_build :
    Atlas.ofFacts rule (firstSeen given).length durationMs
      (placedFacts w how.maxFileSizeMb r given) = .ok atlas := by
  rw [outcome_of_facts, Extraction.facts_extract w _ hs] at h
  by_cases hone : Extraction.workerCount how.workers (firstSeen given).length ≤ 1
  · simpa [hone, placedFacts] using h
  · cases hm : Extraction.sizeLimit how.maxFileSizeMb with
    | error e => simp [hone, hm, Except.map] at h
    | ok limit => simpa [hone, hm, Except.map, placedFacts] using h

theorem stats_of_build :
    ∃ dropped, atlas.stats = Atlas.count (firstSeen given).length
      (placedFacts w how.maxFileSizeMb r given) dropped durationMs := by
  have hn := nodup_placedFacts w how.maxFileSizeMb r given
  obtain ⟨_, a, _, _, _, _, hstats⟩ := Atlas.ofFacts_ok hn (ofFacts_of_build hs h)
  exact ⟨a.dropped, hstats⟩

theorem keys_of_build :
    atlas.scores.keys = (firstSeen given).filter fun path =>
      (Extraction.contribution w how.maxFileSizeMb r path).isSupported := by
  have hn := nodup_placedFacts w how.maxFileSizeMb r given
  obtain ⟨raw, _, hraw, _, hscores, _⟩ := Atlas.ofFacts_ok hn (ofFacts_of_build hs h)
  rw [Report.keys_scores hscores, Score.keys_ofFacts hn hraw, map_path_placedFacts]

theorem unsupported_of_build :
    atlas.stats.filesUnsupported =
      ((firstSeen given).filter fun path => path ∉ atlas.scores.keys).length := by
  obtain ⟨_, hstats⟩ := stats_of_build hs h
  have hkeys := keys_of_build hs h
  have hplaced : (placedFacts w how.maxFileSizeMb r given).length = atlas.scores.keys.length := by
    rw [hkeys, ← map_path_placedFacts, List.length_map]
  have hothers : ((firstSeen given).filter fun path => path ∉ atlas.scores.keys) =
      (firstSeen given).filter fun path =>
        !(Extraction.contribution w how.maxFileSizeMb r path).isSupported := by
    refine List.filter_congr fun path hp => ?_
    rw [hkeys]
    simp [hp]
  have hsplit := (firstSeen given).length_eq_length_filter_add fun path =>
    (Extraction.contribution w how.maxFileSizeMb r path).isSupported
  have hcount : atlas.stats.filesUnsupported =
      (firstSeen given).length - (placedFacts w how.maxFileSizeMb r given).length := by
    rw [hstats]
    rfl
  rw [hcount, hplaced, hothers, hkeys]
  omega

end Returned

/-- A listed path has a row exactly if its language can be used, or its module crashes, or nobody
asks; the other paths are those that count as unsupported. So being of use alone decides unless the
language is of no use, and yet its module crashes or the file is settled unasked. -/
theorem rows_of_build (w : Workspace) (how : ExtractionRule) (hs : how.schedule.IsOrder)
    (rule : ScoringRule σ) (durationMs : Nat) (r : Registry) (given : List String)
    {atlas : Atlas σ} (h : (buildAtlas w how rule durationMs r given).outcome = .ok atlas) :
    (∀ path, path ∈ atlas.scores.keys ↔ path ∈ given ∧
        ((∃ profile, (r.resolve w.installed path).profile = .ok (some profile)) ∨
          (∃ crash, (r.resolve w.installed path).profile = .error crash) ∨
          Extraction.Unasked w how.maxFileSizeMb r path)) ∧
      atlas.stats.filesUnsupported =
        ((firstSeen given).filter fun path => path ∉ atlas.scores.keys).length ∧
      ∀ path ∈ given,
        ((path ∈ atlas.scores.keys ↔
            ∃ profile, (r.resolve w.installed path).profile = .ok (some profile)) ↔
          ¬ ((∃ crash, (r.resolve w.installed path).profile = .error crash) ∨
            (r.resolve w.installed path).profile = .ok none ∧
              Extraction.Unasked w how.maxFileSizeMb r path)) := by
  have hrow : ∀ path, path ∈ atlas.scores.keys ↔ path ∈ given ∧
      ((r.resolve w.installed path).profile ≠ .ok none ∨
        Extraction.Unasked w how.maxFileSizeMb r path) := by
    intro path
    rw [keys_of_build hs h, List.mem_filter, mem_firstSeen, Extraction.isSupported_contribution]
  refine ⟨fun path => ?_, unsupported_of_build hs h, fun path hp => ?_⟩
  · rw [hrow]
    rcases (r.resolve w.installed path).profile with crash | (_ | profile) <;> simp
  · rw [hrow]
    rcases (r.resolve w.installed path).profile with crash | (_ | profile) <;> simp [hp]

namespace Workspace.Sample

def bare : Workspace := { workspace with installed := .ofModules [] }

def machineRule : ScoringRule Float := ⟨0.5, 0.5, true, id⟩

def rowsOf (step : BuildStep Float) : Option (List String × Nat) :=
  step.outcome.toOption.map fun atlas => (atlas.scores.keys, atlas.stats.filesUnsupported)

/-- Without its grammar a file has no row if it is there, and has one if it is missing. With an
endless size limit even a file of no language has one, and so has a file whose grammar crashes. -/
theorem missing_file_has_row :
    (registry.resolve bare.installed "a.py").profile = .ok none ∧
      (registry.resolve bare.installed "z.py").profile = .ok none ∧
      (registry.resolve bare.installed "a.txt").profile = .ok none ∧
      rowsOf (buildAtlas bare how machineRule 0 registry ["a.py", "z.py"]) = some (["z.py"], 1) ∧
      rowsOf (buildAtlas bare ⟨1 / 0, 1, id⟩ machineRule 0 registry ["a.txt"]) =
        some (["a.txt"], 0) ∧
      (registry.resolve crashing "a.py").profile = .error loopless ∧
      rowsOf (buildAtlas { workspace with installed := crashing } how machineRule 0 registry
        ["a.py"]) = some (["a.py"], 0) := by
  refine ⟨rfl, rfl, rfl, ?_, ?_, rfl, ?_⟩
  · decide +kernel
  · decide +kernel
  · decide +kernel

theorem rows_of_sample : how.schedule.IsOrder ∧ ∃ atlas : Atlas Float,
    (buildAtlas bare how machineRule 0 registry ["a.py", "z.py"]).outcome = .ok atlas ∧
      "a.py" ∉ atlas.scores.keys ∧ "z.py" ∈ atlas.scores.keys ∧
      atlas.stats.filesUnsupported = 1 ∧ Extraction.Unasked bare how.maxFileSizeMb registry "z.py" ∧
      ¬ Extraction.Unasked bare how.maxFileSizeMb registry "a.py" := by
  have hrows : rowsOf (buildAtlas bare how machineRule 0 registry ["a.py", "z.py"]) =
      some (["z.py"], 1) := by decide +kernel
  cases ho : (buildAtlas bare how machineRule 0 registry ["a.py", "z.py"]).outcome with
  | error e => simp [rowsOf, ho, Except.toOption] at hrows
  | ok atlas =>
    obtain ⟨hkeys, hcount⟩ : atlas.scores.keys = ["z.py"] ∧ atlas.stats.filesUnsupported = 1 := by
      simpa [rowsOf, ho, Except.toOption] using hrows
    obtain ⟨hrow, _, hexact⟩ :=
      rows_of_build bare how isOrder_how machineRule 0 registry ["a.py", "z.py"] ho
    have hz : "z.py" ∈ atlas.scores.keys := by simp [hkeys]
    have ha : "a.py" ∉ atlas.scores.keys := by simp [hkeys]
    have hresolve : (registry.resolve bare.installed "a.py").profile = .ok none := rfl
    have hresolve' : (registry.resolve bare.installed "z.py").profile = .ok none := rfl
    refine ⟨isOrder_how, atlas, rfl, ha, hz, hcount, ?_, ?_⟩
    · simpa [hresolve'] using ((hrow "z.py").1 hz).2
    · have h := (hexact "a.py" (by simp)).1 (by simp [ha, hresolve])
      simpa [hresolve] using h

end Workspace.Sample

end SymbolAtlas
