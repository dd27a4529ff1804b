import Mathlib.Data.List.Basic
import SymbolAtlas.Extraction
import SymbolAtlas.Language.Packs
import SymbolAtlas.Proofs.Floats
import SymbolAtlas.Proofs.Lookups

/-!
Files of a batch one by one. What a file contributes does not hang on the files before it: they
only change the registry, and no look-up notices. So the workers' order does not matter.
-/

set_option autoImplicit false

namespace SymbolAtlas

namespace FileFacts

theorem addCapture_frame (f : FileFacts) (c : Capture) :
    (f.addCapture c).path = f.path ∧ (f.addCapture c).lineCount = f.lineCount := by
  cases hk : c.kind <;> simp [addCapture, hk]

theorem addCaptures_frame (f : FileFacts) (captures : List Capture) :
    (f.addCaptures captures).path = f.path ∧
      (f.addCaptures captures).lineCount = f.lineCount := by
  induction captures generalizing f with
  | nil => exact ⟨rfl, rfl⟩
  | cons c rest ih =>
    have hrest := ih (f.addCapture c)
    have hc := addCapture_frame f c
    exact ⟨hrest.1.trans hc.1, hrest.2.trans hc.2⟩

def IsBlank (f : FileFacts) : Prop :=
  f.definitions = Table.empty ∧ f.references = [] ∧ f.lineCount = 0

end FileFacts

theorem parsed_of_parseSource {installed : Installation} {parser : Parser} {r : Registry}
    {path : String} {source : List UInt8} {p : Parsed}
    (h : (parseSource installed parser r path source).outcome = .parsed p) :
    p.source = source ∧ p.lineCount = Text.lineCount source := by
  rcases hf : (r.resolve installed path).profile with crash | (_ | profile)
  · simp [parseSource, hf] at h
  · simp [parseSource, hf] at h
  · cases ha : parser.parse path profile.pack.language source with
    | tree t =>
      simp only [parseSource, hf, ha, ParserAnswer.outcome, ParseOutcome.parsed.injEq] at h
      rw [← h]
      exact ⟨rfl, rfl⟩
    | noTree => simp [parseSource, hf, ha, ParserAnswer.outcome] at h
    | refused message => simp [parseSource, hf, ha, ParserAnswer.outcome] at h
    | crashed crash => simp [parseSource, hf, ha, ParserAnswer.outcome] at h

namespace Extraction

variable (w : Workspace) (limit : Int)

/-- The octets of a file, unless it is refused, too large or has no proper path. -/
def source? (path : String) : Option (List UInt8) :=
  let full := w.root.below (Path.ofText path)
  if holdsNul full.text then none
  else
    match w.find full with
    | .error _ => none
    | .ok entry => if limit < (entry.size : Int) then none else (w.read full).toOption

theorem ofFile_of_unread (facts : FileFacts) (h : source? w limit facts.path = none) :
    ∃ outcome events, (∀ r, ofFile w limit r facts = ⟨outcome, r, events⟩) ∧
      (outcome = .error .nulInPath ∨ ∃ why, outcome = .ok { facts with error := some why }) := by
  let full := w.root.below (Path.ofText facts.path)
  have refused : ∀ e, ∃ outcome events, (∀ r, unreadable r facts full e = ⟨outcome, r, events⟩) ∧
      (outcome = .error .nulInPath ∨ ∃ why, outcome = .ok { facts with error := some why }) :=
    fun e => ⟨_, _, fun r => rfl, .inr ⟨"Unreadable: " ++ e.reason, rfl⟩⟩
  by_cases hn : holdsNul full.text = true
  · exact ⟨.error .nulInPath, [], fun r => by simp [ofFile, full, hn], .inl rfl⟩
  · cases hf : w.find full with
    | error e => simpa [ofFile, full, hn, hf] using refused e
    | ok entry =>
      by_cases hs : limit < (entry.size : Int)
      · exact ⟨_, _, fun r => by simp only [ofFile, full, hn, hf, hs]; rfl,
          .inr ⟨"File too large (" ++ writeNat entry.size ++ " bytes)", rfl⟩⟩
      · cases hr : w.read full with
        | error e => simpa [ofFile, full, hn, hf, hs, hr] using refused e
        | ok source => simp [source?, full, hn, hf, hs, hr, Except.toOption] at h

theorem ofFile_of_read (facts : FileFacts) {source : List UInt8}
    (h : source? w limit facts.path = some source) (r : Registry) :
    ofFile w limit r facts = ofSource w r facts source := by
  let full := w.root.below (Path.ofText facts.path)
  by_cases hn : holdsNul full.text = true
  · simp [source?, full, hn] at h
  · cases hf : w.find full with
    | error e => simp [source?, full, hn, hf] at h
    | ok entry =>
      by_cases hs : limit < (entry.size : Int)
      · simp [source?, full, hn, hf, hs] at h
      · cases hr : w.read full with
        | error e => simp [source?, full, hn, hf, hs, hr, Except.toOption] at h
        | ok bytes =>
          have hb : bytes = source := by
            simpa [source?, full, hn, hf, hs, hr, Except.toOption] using h
          subst hb
          simp [ofFile, full, hn, hf, hs, hr]

theorem parseSource_eq (r : Registry) {path : String} {language : Language}
    (h : r.languageFor path = some language) (source : List UInt8) :
    (parseSource w.installed w.parser r path source).registry =
        r.settle w.installed language ∧
      (parseSource w.installed w.parser r path source).outcome =
        match r.answer w.installed language with
        | .error crash => .crashed crash
        | .ok none => .failed .unsupported
        | .ok (some profile) =>
          (w.parser.parse path profile.pack.language source).outcome path profile source := by
  have hr : r.resolve w.installed path = r.profileFor w.installed language := by
    simp [Registry.resolve, h]
  rcases ha : (r.profileFor w.installed language).profile with crash | (_ | profile)
  all_goals simp [parseSource, hr, ha, Registry.settle, Registry.answer]

/-- A file that is read asks the registry for its language, and only the answer counts. -/
theorem ofSource_congr {r s : Registry} (facts : FileFacts) {language : Language}
    (hr : r.languageFor facts.path = some language)
    (hs : s.languageFor facts.path = some language)
    (ha : r.answer w.installed language = s.answer w.installed language)
    (source : List UInt8) :
    (ofSource w r facts source).outcome = (ofSource w s facts source).outcome ∧
      (ofSource w r facts source).registry = r.settle w.installed language := by
  obtain ⟨hrr, hro⟩ := parseSource_eq w r hr source
  obtain ⟨_, hso⟩ := parseSource_eq w s hs source
  rw [ha] at hro
  have ho := hro.trans hso.symm
  simp only [ofSource, ho]
  cases hp : (parseSource w.installed w.parser s facts.path source).outcome with
  | crashed crash => exact ⟨rfl, hrr⟩
  | failed f =>
    cases f with
    | unsupported => exact ⟨rfl, hrr⟩
    | malformed message => exact ⟨rfl, hrr⟩
  | parsed p =>
    cases hq : w.parser.queryFault? facts.path with
    | none => simp [ofParsed, hq, hrr]
    | some message => simp [ofParsed, hq, hrr]

/-- The language a file asks the registry for. A file that is not read asks for none. -/
def wanted (packs : PackTable) (path : String) : Option Language :=
  if (source? w limit path).isSome then packs.languageFor path else none

theorem attempt_registry (r : Registry) (path : String) :
    (attempt w limit r path).registry =
      r.settleAll w.installed (wanted w limit r.packs path).toList := by
  cases hl : r.languageFor path with
  | none =>
    have hp : r.packs.languageFor path = none := hl
    simp [attempt, hl, wanted, hp]
  | some language =>
    have hp : r.packs.languageFor path = some language := hl
    cases hs : source? w limit path with
    | none =>
      obtain ⟨outcome, events, he, _⟩ :=
        ofFile_of_unread w limit (FileFacts.blank path (some language)) hs
      simp [attempt, hl, wanted, hs, he]
    | some source =>
      have he := ofFile_of_read w limit (FileFacts.blank path (some language)) hs r
      have ho := ofSource_congr w (FileFacts.blank path (some language)) hl hl rfl source
      simp [attempt, hl, wanted, hs, hp, he, ho.2]

theorem attempt_outcome_congr {r s : Registry} (hp : r.packs = s.packs)
    (ha : ∀ language, r.answer w.installed language = s.answer w.installed language)
    (path : String) : (attempt w limit r path).outcome = (attempt w limit s path).outcome := by
  have hrs : r.languageFor path = s.languageFor path := by simp [Registry.languageFor, hp]
  cases hl : s.languageFor path with
  | none => simp [attempt, hrs, hl]
  | some language =>
    cases hs : source? w limit path with
    | none =>
      obtain ⟨outcome, events, he, _⟩ :=
        ofFile_of_unread w limit (FileFacts.blank path (some language)) hs
      simp [attempt, hrs, hl, he]
    | some source =>
      have her := ofFile_of_read w limit (FileFacts.blank path (some language)) hs r
      have hes := ofFile_of_read w limit (FileFacts.blank path (some language)) hs s
      have ho := ofSource_congr w (FileFacts.blank path (some language))
        (hrs.trans hl) hl (ha language) source
      simp [attempt, hrs, hl, her, hes, ho.1]

theorem attempt_settleAll (r : Registry) (languages : List Language) (path : String) :
    (attempt w limit (r.settleAll w.installed languages) path).outcome =
      (attempt w limit r path).outcome :=
  attempt_outcome_congr w limit (Registry.packs_settleAll ..)
    (fun language => Registry.answer_settleAll w.installed r languages language) path

def factsOfTree (path : String) (language : Language) (source : List UInt8) (query : TagQuery)
    (t : SyntaxTree) : FileFacts :=
  { FileFacts.blank path (some language) with
    lineCount := Text.lineCount source
    errorCount := t.countNodes.faults }.addCaptures
      (Capture.collect source (query.captured t))

theorem ofSource_of_tree {r : Registry} {path : String} {language : Language}
    (hl : r.languageFor path = some language) {profile : Profile}
    (ha : r.answer w.installed language = .ok (some profile)) {source : List UInt8} {t : SyntaxTree}
    (hp : w.parser.parse path profile.pack.language source = .tree t) :
    (ofSource w r (FileFacts.blank path (some language)) source).outcome =
      match w.parser.queryFault? path with
      | some message => .error (.captures message)
      | none => .ok (factsOfTree path language source profile.query t) := by
  obtain ⟨_, ho⟩ := parseSource_eq w r hl source
  have hblank : (FileFacts.blank path (some language)).path = path := rfl
  simp only [ha, hp, ParserAnswer.outcome] at ho
  cases hq : w.parser.queryFault? path with
  | none => simp only [ofSource, hblank, ho, ofParsed, hq, factsOfTree, Parsed.captures]
  | some message => simp only [ofSource, hblank, ho, ofParsed, hq]

/-- Facts that are blank, or that tell the lines of the source. -/
def Tells (path : String) (f : FileFacts) : Prop :=
  f.IsBlank ∨ ∃ source, source? w limit path = some source ∧ f.lineCount = Text.lineCount source

theorem ofSource_ok {r : Registry} {path : String} {language : Language} {source : List UInt8}
    (hs : source? w limit path = some source) {f : FileFacts}
    (h : (ofSource w r (FileFacts.blank path (some language)) source).outcome = .ok f) :
    f.path = path ∧ Tells w limit path f := by
  have hblank : (FileFacts.blank path (some language)).path = path := rfl
  cases ho : (parseSource w.installed w.parser r path source).outcome with
  | crashed crash => simp [ofSource, hblank, ho] at h
  | failed why =>
    cases why with
    | unsupported =>
      simp only [ofSource, hblank, ho, Except.ok.injEq] at h
      subst h
      exact ⟨rfl, .inl ⟨rfl, rfl, rfl⟩⟩
    | malformed message =>
      simp only [ofSource, hblank, ho, Except.ok.injEq] at h
      subst h
      exact ⟨rfl, .inl ⟨rfl, rfl, rfl⟩⟩
  | parsed p =>
    cases hq : w.parser.queryFault? path with
    | some message => simp [ofSource, hblank, ho, ofParsed, hq] at h
    | none =>
      simp only [ofSource, hblank, ho, ofParsed, hq, Except.ok.injEq] at h
      subst h
      obtain ⟨hpath, hlines⟩ := FileFacts.addCaptures_frame
        { FileFacts.blank path (some language) with
          lineCount := p.lineCount, errorCount := p.count.faults } p.captures
      exact ⟨hpath, .inr ⟨source, hs, hlines.trans (parsed_of_parseSource ho).2⟩⟩

theorem attempt_ok {r : Registry} {path : String} {f : FileFacts}
    (h : (attempt w limit r path).outcome = .ok f) : f.path = path ∧ Tells w limit path f := by
  cases hl : r.languageFor path with
  | none =>
    simp only [attempt, hl, Except.ok.injEq] at h
    subst h
    exact ⟨rfl, .inl ⟨rfl, rfl, rfl⟩⟩
  | some language =>
    simp only [attempt, hl] at h
    cases hs : source? w limit path with
    | none =>
      obtain ⟨outcome, events, he, ho⟩ :=
        ofFile_of_unread w limit (FileFacts.blank path (some language)) hs
      rw [he] at h
      rcases ho with rfl | ⟨why, rfl⟩
      · cases h
      · cases h
        exact ⟨rfl, .inl ⟨rfl, rfl, rfl⟩⟩
    | some source =>
      rw [ofFile_of_read w limit (FileFacts.blank path (some language)) hs r] at h
      exact ofSource_ok w limit hs h

def factsOf (r : Registry) (path : String) : FileFacts :=
  (settle r path (attempt w limit r path).outcome).1

theorem isBlank_broken (r : Registry) (path : String) (fault : ExtractionFault) :
    (broken r path fault).IsBlank :=
  ⟨rfl, rfl, rfl⟩

theorem factsOf_tells (r : Registry) (path : String) :
    (factsOf w limit r path).path = path ∧ Tells w limit path (factsOf w limit r path) := by
  cases ho : (attempt w limit r path).outcome with
  | ok f => simpa [factsOf, ho, settle] using attempt_ok w limit ho
  | error fault =>
    simp only [factsOf, ho, settle]
    exact ⟨rfl, .inl (isBlank_broken r path fault)⟩

theorem settle_settleAll (r : Registry) (languages : List Language) (path : String)
    (outcome : Except ExtractionFault FileFacts) :
    settle (r.settleAll w.installed languages) path outcome = settle r path outcome := by
  cases outcome with
  | ok facts => rfl
  | error fault => simp [settle, broken, Registry.languageFor]

theorem factsOf_settleAll (r : Registry) (languages : List Language) (path : String) :
    factsOf w limit (r.settleAll w.installed languages) path = factsOf w limit r path := by
  rw [factsOf, attempt_settleAll, settle_settleAll, factsOf]

def wantedAll (packs : PackTable) (paths : List String) : List Language :=
  paths.filterMap (wanted w limit packs)

theorem wantedAll_cons (packs : PackTable) (path : String) (rest : List String) :
    wantedAll w limit packs (path :: rest) =
      (wanted w limit packs path).toList ++ wantedAll w limit packs rest := by
  cases h : wanted w limit packs path <;> simp [wantedAll, h]

section Sequential

variable {limit} {megabytes : Float} (hl : sizeLimit megabytes = .ok limit)

include hl

theorem addSequential_eq (batch : Batch) (path : String) :
    (addSequential w megabytes batch path).facts =
        batch.facts ++ [factsOf w limit batch.registry path] ∧
      (addSequential w megabytes batch path).registry =
        batch.registry.settleAll w.installed (wanted w limit batch.registry.packs path).toList := by
  have hr := attempt_registry w limit batch.registry path
  simp only [addSequential, hl, hr, settle_settleAll, factsOf, and_self]

theorem foldl_addSequential (paths : List String) (batch : Batch) :
    (paths.foldl (addSequential w megabytes) batch).facts =
        batch.facts ++ paths.map (factsOf w limit batch.registry) ∧
      (paths.foldl (addSequential w megabytes) batch).registry =
        batch.registry.settleAll w.installed (wantedAll w limit batch.registry.packs paths) := by
  induction paths generalizing batch with
  | nil => simp [wantedAll]
  | cons path rest ih =>
    obtain ⟨hf, hr⟩ := addSequential_eq w hl batch path
    obtain ⟨ihf, ihr⟩ := ih (addSequential w megabytes batch path)
    have hmap : rest.map (factsOf w limit (addSequential w megabytes batch path).registry) =
        rest.map (factsOf w limit batch.registry) := by
      simp [hr, factsOf_settleAll]
    rw [List.foldl_cons]
    constructor
    · rw [ihf, hf, hmap]
      simp
    · rw [ihr, hr, Registry.packs_settleAll, wantedAll_cons, Registry.settleAll_append]

theorem sequential_eq (r : Registry) (paths : List String) :
    (sequential w megabytes r paths).facts = paths.map (factsOf w limit r) ∧
      (sequential w megabytes r paths).registry =
        r.settleAll w.installed (wantedAll w limit r.packs paths) := by
  simpa [sequential] using foldl_addSequential w hl paths ⟨[], r, []⟩

end Sequential

section Parallel

theorem foldl_work (ts : List (Nat × String)) (p : Progress) :
    (ts.foldl (work w limit) p).outcomes =
        p.outcomes ++ ts.map (fun t => (t.1, (attempt w limit p.registry t.2).outcome)) ∧
      (ts.foldl (work w limit) p).registry =
        p.registry.settleAll w.installed
          (wantedAll w limit p.registry.packs (ts.map Prod.snd)) := by
  induction ts generalizing p with
  | nil => simp [wantedAll]
  | cons t rest ih =>
    have hr : (work w limit p t).registry =
        p.registry.settleAll w.installed (wanted w limit p.registry.packs t.2).toList :=
      attempt_registry w limit p.registry t.2
    have ho : (work w limit p t).outcomes =
        p.outcomes ++ [(t.1, (attempt w limit p.registry t.2).outcome)] := rfl
    obtain ⟨iho, ihr⟩ := ih (work w limit p t)
    rw [List.foldl_cons]
    constructor
    · rw [iho, ho]
      simp [hr, attempt_settleAll]
    · rw [ihr, hr, Registry.packs_settleAll, List.map_cons, wantedAll_cons,
        Registry.settleAll_append]

theorem tasks_map_snd (paths : List String) : (tasks paths).map Prod.snd = paths := by
  simp [tasks, List.map_snd_zip]

theorem nodup_tasks (paths : List String) : ((tasks paths).map Prod.fst).Nodup := by
  have h : (tasks paths).map Prod.fst = List.range paths.length := by
    simp [tasks, List.map_fst_zip]
  rw [h]
  exact List.nodup_range

theorem lookup_of_mem {α : Type} {rows : List (Nat × α)} (h : (rows.map Prod.fst).Nodup)
    {k : Nat} {a : α} (hm : (k, a) ∈ rows) : rows.lookup k = some a := by
  induction rows with
  | nil => simp at hm
  | cons row rest ih =>
    obtain ⟨k', b⟩ := row
    rw [List.map_cons, List.nodup_cons] at h
    rcases List.mem_cons.1 hm with he | hm
    · cases he
      simp
    · have hne : k ≠ k' := fun e => h.1 (e ▸ List.mem_map.2 ⟨_, hm, rfl⟩)
      have hb : (k == k') = false := by simpa using hne
      simpa only [List.lookup_cons, hb] using ih h.2 hm

/-- A schedule only chooses the order in which tasks are done. -/
def Schedule.IsOrder (schedule : Schedule) : Prop := ∀ ts, (schedule ts).Perm ts

/-- In whatever order the workers do their tasks, every file contributes what it would alone. -/
theorem parallel_eq {schedule : Schedule} (hs : schedule.IsOrder) (r : Registry)
    (paths : List String) :
    (parallel w limit schedule r paths).facts = paths.map (factsOf w limit r) ∧
      ∃ languages, languages.Perm (wantedAll w limit r.packs paths) ∧
        (parallel w limit schedule r paths).registry = r.settleAll w.installed languages := by
  have hperm := hs (tasks paths)
  obtain ⟨ho, hr⟩ := foldl_work w limit (schedule (tasks paths)) ⟨[], r, []⟩
  have hnodup : ((schedule (tasks paths)).map Prod.fst).Nodup :=
    (hperm.map Prod.fst).nodup_iff.2 (nodup_tasks paths)
  -- Task numbers are distinct, so a look-up by number finds the outcome of its own task.
  have hfound : ∀ t ∈ tasks paths,
      ((schedule (tasks paths)).foldl (work w limit) ⟨[], r, []⟩).outcomes.lookup t.1 =
        some (attempt w limit r t.2).outcome := by
    intro t ht
    rw [ho, List.nil_append]
    apply lookup_of_mem
    · simpa [List.map_map, Function.comp_def] using hnodup
    · exact List.mem_map.2 ⟨t, hperm.mem_iff.2 ht, rfl⟩
  have hsettled : (tasks paths).filterMap (fun t =>
      (((schedule (tasks paths)).foldl (work w limit) ⟨[], r, []⟩).outcomes.lookup t.1).map
        (settle ((schedule (tasks paths)).foldl (work w limit) ⟨[], r, []⟩).registry t.2)) =
      (tasks paths).map fun t => settle r t.2 (attempt w limit r t.2).outcome := by
    apply List.filterMap_eq_map_iff_forall_eq_some.2
    intro t ht
    rw [hfound t ht, hr, Option.map_some, settle_settleAll]
  constructor
  · have hpaths := tasks_map_snd paths
    calc (parallel w limit schedule r paths).facts
        = ((tasks paths).map fun t =>
            settle r t.2 (attempt w limit r t.2).outcome).map Prod.fst := by
          rw [parallel, ← hsettled]
      _ = ((tasks paths).map Prod.snd).map (factsOf w limit r) := by
          simp [List.map_map, Function.comp_def, factsOf]
      _ = paths.map (factsOf w limit r) := by rw [hpaths]
  · refine ⟨_, ?_, hr⟩
    have h := (hperm.map Prod.snd).filterMap (wanted w limit r.packs)
    rwa [tasks_map_snd] at h

end Parallel

theorem sizeLimit_of_finite {megabytes : Float} (h : (megabytes * 1024 * 1024).isFinite = true) :
    ∃ limit, sizeLimit megabytes = .ok limit ∧ limit ≤ (Binary64.greatest : Int) :=
  truncateFloat_of_finite h

theorem extract_of_many {megabytes : Float} {limit : Int} (hl : sizeLimit megabytes = .ok limit)
    (schedule : Schedule) (r : Registry) {workers : Nat} {paths : List String}
    (hw : 2 ≤ workers) (hp : 2 ≤ paths.length) :
    extract w megabytes workers schedule r paths = .ok (parallel w limit schedule r paths) := by
  have hcount : ¬ workerCount workers paths.length ≤ 1 := by
    simp only [workerCount]
    omega
  simp [extract, hcount, hl]

theorem foldl_addSequential_of_error {megabytes : Float} {e : ArithmeticFault}
    (hl : sizeLimit megabytes = .error e) (paths : List String) (batch : Batch) :
    (paths.foldl (addSequential w megabytes) batch).facts =
      batch.facts ++ paths.map fun path => broken batch.registry path (.limit e) := by
  induction paths generalizing batch with
  | nil => simp
  | cons path rest ih =>
    have hr : (addSequential w megabytes batch path).registry = batch.registry := by
      simp [addSequential, hl]
    have hf : (addSequential w megabytes batch path).facts =
        batch.facts ++ [broken batch.registry path (.limit e)] := by
      simp [addSequential, hl, settle]
    rw [List.foldl_cons, ih, hr, hf]
    simp

def Covers (megabytes : Float) (paths : List String) (facts : List FileFacts) : Prop :=
  facts.map FileFacts.path = paths ∧
    ∀ f ∈ facts, f.IsBlank ∨ ∃ limit, sizeLimit megabytes = .ok limit ∧ Tells w limit f.path f

theorem covers_factsOf {megabytes : Float} {limit : Int} (hl : sizeLimit megabytes = .ok limit)
    (r : Registry) (paths : List String) :
    Covers w megabytes paths (paths.map (factsOf w limit r)) := by
  constructor
  · simp [List.map_map, Function.comp_def, factsOf_tells]
  · intro f hf
    obtain ⟨path, _, rfl⟩ := List.mem_map.1 hf
    obtain ⟨hpath, htells⟩ := factsOf_tells w limit r path
    exact .inr ⟨limit, hl, by rwa [hpath]⟩

theorem covers_sequential (megabytes : Float) (r : Registry) (paths : List String) :
    Covers w megabytes paths (sequential w megabytes r paths).facts := by
  cases hl : sizeLimit megabytes with
  | ok limit =>
    rw [(sequential_eq w hl r paths).1]
    exact covers_factsOf w hl r paths
  | error e =>
    have hfacts : (sequential w megabytes r paths).facts =
        paths.map fun path => broken r path (.limit e) := by
      simpa [sequential] using foldl_addSequential_of_error w hl paths ⟨[], r, []⟩
    rw [hfacts]
    constructor
    · simp [List.map_map, Function.comp_def, broken, FileFacts.blank]
    · intro f hf
      obtain ⟨path, _, rfl⟩ := List.mem_map.1 hf
      exact .inl (isBlank_broken r path _)

/-- A batch that is extracted covers its files, whoever did the work. -/
theorem covers_of_extract {megabytes : Float} {workers : Nat} {schedule : Schedule}
    (hs : schedule.IsOrder) {r : Registry} {paths : List String} {batch : Batch}
    (h : extract w megabytes workers schedule r paths = .ok batch) :
    Covers w megabytes paths batch.facts := by
  by_cases hone : workerCount workers paths.length ≤ 1
  · simp only [extract, hone, if_true, Except.ok.injEq] at h
    subst h
    exact covers_sequential w megabytes r paths
  · cases hl : sizeLimit megabytes with
    | error e => simp [extract, hone, hl] at h
    | ok limit =>
      simp only [extract, hone, hl, if_false, Except.ok.injEq] at h
      subst h
      rw [(parallel_eq w limit hs r paths).1]
      exact covers_factsOf w hl r paths

/-- Workers that share the registry find what one worker finds, whatever order they work in. -/
theorem parallel_refines_sequential {megabytes : Float}
    (hm : (megabytes * 1024 * 1024).isFinite = true) {schedule : Schedule}
    (hs : schedule.IsOrder) (r : Registry) (paths : List String) :
    ∃ limit, sizeLimit megabytes = .ok limit ∧
      (parallel w limit schedule r paths).facts = (sequential w megabytes r paths).facts ∧
      (∀ language,
        (parallel w limit schedule r paths).registry.loaded.get? language =
            (sequential w megabytes r paths).registry.loaded.get? language ∧
          (parallel w limit schedule r paths).registry.failed.get? language =
            (sequential w megabytes r paths).registry.failed.get? language) ∧
      ∀ workers, 2 ≤ workers → 2 ≤ paths.length →
        extract w megabytes workers schedule r paths = .ok (parallel w limit schedule r paths) := by
  obtain ⟨limit, hl, _⟩ := sizeLimit_of_finite hm
  obtain ⟨hsf, hsr⟩ := sequential_eq w hl r paths
  obtain ⟨hpf, languages, hperm, hpr⟩ := parallel_eq w limit hs r paths
  refine ⟨limit, hl, hpf.trans hsf.symm, ?_,
    fun workers hw hp => extract_of_many w hl schedule r hw hp⟩
  intro language
  -- Both registries settle the same languages, each in its own order.
  rw [hpr, hsr]
  have hmem := hperm.mem_iff (a := language)
  have hp := Registry.get?_settleAll w.installed r languages language
  have hq := Registry.get?_settleAll w.installed r (wantedAll w limit r.packs paths) language
  simp only [hmem] at hp
  exact ⟨hp.1.trans hq.1.symm, hp.2.trans hq.2.symm⟩

end Extraction

namespace Workspace.Sample

def query : TagQuery := [Packs.defined "function" "identifier", Packs.referred "call" "call"]

def pack : Pack where
  language := .python
  package := "tree-sitter-python"
  moduleName := "tree_sitter_python"
  functionName := none
  extensions := [".py"]
  tags := .patterns query

def leaf (kind : String) : SyntaxTree := .node ⟨kind, none, true, false, 0, 1⟩ []

def registry : Registry := .ofPacks (PackTable.ofPacks [pack])

def workspace : Workspace where
  installed := Installation.ofPacks [pack] Grammar.permissive
  parser := ⟨fun path _ _ => .tree (leaf (if path = "c.py" then "call" else "identifier")),
    fun _ => none⟩
  files := ((FileTree.empty.addFile ["p", "a.py"] [102]).addFile ["p", "d", "b.py"] [102]).addFile
    ["p", "c.py"] [102]
  current := ⟨.root, []⟩
  root := ⟨.root, ["p"]⟩

def paths : List String := ["d/b.py", "a.py", "c.py"]

def loopless : Crash := ⟨"RuntimeError", "no running event loop"⟩

def crashing : Installation :=
  .ofModules [⟨pack.moduleName, [(pack.function, .crashed loopless)], []⟩]

end Workspace.Sample

open Workspace.Sample in
theorem Extraction.reversed_refines_sequential :
    ((1 : Float) * 1024 * 1024).isFinite = true ∧ Schedule.IsOrder List.reverse ∧
      ∃ limit, sizeLimit 1 = .ok limit ∧
        (parallel workspace limit List.reverse registry paths).facts =
          (sequential workspace 1 registry paths).facts ∧
        extract workspace 1 2 List.reverse registry paths =
          .ok (parallel workspace limit List.reverse registry paths) := by
  have hm : ((1 : Float) * 1024 * 1024).isFinite = true := by decide +kernel
  have hs : Schedule.IsOrder List.reverse := fun ts => List.reverse_perm ts
  obtain ⟨limit, hl, hf, _, he⟩ := parallel_refines_sequential workspace hm hs registry paths
  exact ⟨hm, hs, limit, hl, hf, he 2 (by decide) (by decide)⟩

end SymbolAtlas
