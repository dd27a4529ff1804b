import SymbolAtlas.CommandLine
import SymbolAtlas.Proofs.Overlays
import SymbolAtlas.Proofs.Precedence
import SymbolAtlas.Proofs.ScoringCalls

/-!
Which records of a scores run name its request. Those that the calling thread reports do; what
workers report while they extract files does not, since no worker knows of a request. Once the run
is over there is no request, however it ended.
-/

set_option autoImplicit false

namespace SymbolAtlas

/-! ## What look-ups report -/

namespace Registry

variable (installed : Installation)

theorem events_settle_self (r : Registry) (language : Language) :
    ((r.settle installed language).profileFor installed language).events = [] := by
  rcases @profileFor_eq installed r language with
    ⟨_, _, he⟩ | ⟨_, _, he⟩ | ⟨_, _, _, _, he⟩ | ⟨outcome, hl, _, _, he⟩
  · simp [settle, he]
  · simp [settle, he]
  · simp [settle, he]
  · rw [settle, he]
    cases outcome with
    | ok profile => simp [remember, profileFor, Table.get?_insert]
    | error e => simp [remember, profileFor, hl, Table.contains, Table.get?_insert]

theorem events_settle_of_ne (r : Registry) {language other : Language} (h : language ≠ other) :
    ((r.settle installed language).profileFor installed other).events =
      (r.profileFor installed other).events := by
  have hl := loaded_settle_of_ne installed r h
  have hf := failed_settle_of_ne installed r h
  cases hloaded : r.loaded.get? other with
  | some profile => simp [profileFor, hl, hloaded]
  | none =>
    cases hfailed : r.failed.get? other with
    | some e => simp [profileFor, hl, hloaded, Table.contains, hf, hfailed]
    | none =>
      cases hpack : r.packs.get? other with
      | none => simp [profileFor, hl, hloaded, Table.contains, hf, hfailed, hpack]
      | some pack =>
        rcases ho : installed.prepare pack with crash | (e | profile)
        all_goals simp [profileFor, hl, hloaded, Table.contains, hf, hfailed, hpack, ho, remember]

end Registry

/-! ## What files report -/

namespace Extraction

variable (w : Workspace) (limit : Int)

def sourceEvents (path : String) : ParseOutcome → List Event
  | .parsed p => if p.count.faults = 0 then [] else [.fileParsedWithErrors path p.count.faults]
  | .failed (.malformed message) => [.fileParseFailed path message]
  | .failed .unsupported => []
  | .crashed _ => []

theorem ofSource_events {r : Registry} (facts : FileFacts) {language : Language}
    (hl : r.languageFor facts.path = some language) (source : List UInt8) :
    (ofSource w r facts source).events = (r.profileFor w.installed language).events ++
      sourceEvents facts.path (parseSource w.installed w.parser r facts.path source).outcome := by
  have hlookup : (parseSource w.installed w.parser r facts.path source).events =
      (r.profileFor w.installed language).events := by
    rcases hp : (r.profileFor w.installed language).profile with crash | (_ | profile)
    all_goals simp [parseSource, Registry.resolve, hl, hp]
  cases ho : (parseSource w.installed w.parser r facts.path source).outcome with
  | crashed crash => simp [ofSource, ho, hlookup, sourceEvents]
  | failed why =>
    cases why with
    | unsupported => simp [ofSource, ho, hlookup, sourceEvents]
    | malformed message => simp [ofSource, ho, hlookup, sourceEvents]
  | parsed p =>
    by_cases hfaults : p.count.faults = 0
    · cases hq : w.parser.queryFault? facts.path with
      | none => simp [ofSource, ho, hlookup, sourceEvents, ofParsed, hq, hfaults]
      | some message => simp [ofSource, ho, hlookup, sourceEvents, ofParsed, hq, hfaults]
    · cases hq : w.parser.queryFault? facts.path with
      | none => simp [ofSource, ho, hlookup, sourceEvents, ofParsed, hq, hfaults]
      | some message => simp [ofSource, ho, hlookup, sourceEvents, ofParsed, hq, hfaults]

/-- A file reports the look-up of the language it asks for, and then what no look-up changes. -/
theorem attempt_events (r : Registry) (path : String) :
    ∃ own, ∀ languages, (attempt w limit (r.settleAll w.installed languages) path).events =
      ((wanted w limit r.packs path).toList.flatMap fun language =>
        ((r.settleAll w.installed languages).profileFor w.installed language).events) ++ own := by
  have hfor : ∀ languages,
      (r.settleAll w.installed languages).languageFor path = r.packs.languageFor path := by
    intro languages
    simp [Registry.languageFor]
  cases hl : r.packs.languageFor path with
  | none => exact ⟨[], fun languages => by simp [attempt, hfor, hl, wanted]⟩
  | some language =>
    cases hs : source? w limit path with
    | none =>
      obtain ⟨outcome, events, he, _⟩ :=
        ofFile_of_unread w limit (FileFacts.blank path (some language)) hs
      exact ⟨events, fun languages => by simp [attempt, hfor, hl, wanted, hs, he]⟩
    | some source =>
      refine ⟨sourceEvents path (parseSource w.installed w.parser r path source).outcome,
        fun languages => ?_⟩
      have hfound := (hfor languages).trans hl
      have hread := ofFile_of_read w limit (FileFacts.blank path (some language)) hs
        (r.settleAll w.installed languages)
      have hsame : (parseSource w.installed w.parser (r.settleAll w.installed languages) path
          source).outcome = (parseSource w.installed w.parser r path source).outcome := by
        rw [(parseSource_eq w _ hfound source).2, (parseSource_eq w r hl source).2,
          Registry.answer_settleAll]
      have hevents := ofSource_events w (FileFacts.blank path (some language)) hfound source
      have hblank : (FileFacts.blank path (some language)).path = path := rfl
      rw [hblank, hsame] at hevents
      simp [attempt, hfound, wanted, hl, hs, hread, hevents]

/-- Whatever the workers have done before, a report of a file is a report it would have made first,
and one it does not make any more was made by the file that asked for its language. -/
theorem mem_events_after (r : Registry) (first path : String) (e : Event) :
    e ∈ (attempt w limit r first).events ∨
        e ∈ (attempt w limit (attempt w limit r first).registry path).events ↔
      e ∈ (attempt w limit r first).events ∨ e ∈ (attempt w limit r path).events := by
  obtain ⟨own, hown⟩ := attempt_events w limit r path
  obtain ⟨own', hown'⟩ := attempt_events w limit r first
  have hpath := hown []
  have hfirst := hown' []
  have hafter := hown (wanted w limit r.packs first).toList
  rw [Registry.settleAll_nil] at hpath hfirst
  rw [attempt_registry, hafter, hpath, hfirst]
  cases hf : wanted w limit r.packs first with
  | none => simp
  | some language =>
    cases hp : wanted w limit r.packs path with
    | none => simp
    | some other =>
      by_cases hsame : language = other
      · subst hsame
        simp only [Option.toList_some, List.flatMap_singleton, Registry.settleAll_cons,
          Registry.settleAll_nil, Registry.events_settle_self, List.nil_append, List.mem_append]
        exact ⟨fun h => h.imp_right .inr, fun h => h.elim .inl fun h => h.imp_left .inl⟩
      · simp [Registry.events_settle_of_ne w.installed r hsame]

theorem mem_events_foldl_work (ts : List (Nat × String)) (p : Progress) (e : Event) :
    e ∈ (ts.foldl (work w limit) p).events ↔
      e ∈ p.events ∨ ∃ t ∈ ts, e ∈ (attempt w limit p.registry t.2).events := by
  induction ts generalizing p with
  | nil => simp
  | cons t rest ih =>
    have hafter := fun t' : Nat × String => mem_events_after w limit p.registry t.2 t'.2 e
    rw [List.foldl_cons, ih]
    simp only [work, List.mem_append, List.mem_cons, exists_eq_or_imp]
    constructor
    · rintro ((h | h) | ⟨t', ht', h⟩)
      · exact .inl h
      · exact .inr (.inl h)
      · rcases (hafter t').1 (.inr h) with h | h
        · exact .inr (.inl h)
        · exact .inr (.inr ⟨t', ht', h⟩)
    · rintro (h | h | ⟨t', ht', h⟩)
      · exact .inl (.inl h)
      · exact .inl (.inr h)
      · rcases (hafter t').2 (.inr h) with h | h
        · exact .inl (.inr h)
        · exact .inr ⟨t', ht', h⟩

theorem origin_settle {r : Registry} {path : String} {outcome : Except ExtractionFault FileFacts}
    {n : Notice} (h : n ∈ (settle r path outcome).2) : n.origin = .caller := by
  cases outcome with
  | ok facts => simp [settle] at h
  | error fault =>
    simp only [settle, List.mem_singleton] at h
    rw [h]

theorem origin_sequential (megabytes : Float) (r : Registry) (paths : List String) :
    ∀ n ∈ (sequential w megabytes r paths).notices, n.origin = .caller := by
  have hstep : ∀ (batch : Batch) path, (∀ n ∈ batch.notices, n.origin = .caller) →
      ∀ n ∈ (addSequential w megabytes batch path).notices, n.origin = .caller := by
    intro batch path hbatch n hn
    simp only [addSequential, List.mem_append, List.mem_map] at hn
    rcases hn with (hn | ⟨e, _, rfl⟩) | hn
    · exact hbatch n hn
    · rfl
    · exact origin_settle hn
  have hrun : ∀ batch : Batch, (∀ n ∈ batch.notices, n.origin = .caller) →
      ∀ n ∈ (paths.foldl (addSequential w megabytes) batch).notices, n.origin = .caller := by
    induction paths with
    | nil => exact fun batch hbatch => hbatch
    | cons path rest ih => exact fun batch hbatch => ih _ (hstep batch path hbatch)
  exact hrun ⟨[], r, []⟩ (by simp)

theorem mem_worker_parallel {schedule : Schedule} (hs : schedule.IsOrder) (r : Registry)
    (paths : List String) (e : Event) :
    ⟨.worker, e⟩ ∈ (parallel w limit schedule r paths).notices ↔
      ∃ path ∈ paths, e ∈ (attempt w limit r path).events := by
  have hperm := hs (tasks paths)
  have hevents := mem_events_foldl_work w limit (schedule (tasks paths)) ⟨[], r, []⟩ e
  have hpaths : (∃ t ∈ schedule (tasks paths), e ∈ (attempt w limit r t.2).events) ↔
      ∃ path ∈ paths, e ∈ (attempt w limit r path).events := by
    conv_rhs => rw [← tasks_map_snd paths]
    simp only [hperm.mem_iff, List.mem_map, exists_exists_and_eq_and]
  simp only [List.not_mem_nil, false_or, hpaths] at hevents
  rw [← hevents, parallel, List.mem_append]
  constructor
  · rintro (h | h)
    · simpa using h
    · obtain ⟨settled, hsettled, hn⟩ := List.mem_flatMap.1 h
      obtain ⟨task, _, htask⟩ := List.mem_filterMap.1 hsettled
      obtain ⟨outcome, _, rfl⟩ := Option.map_eq_some_iff.1 htask
      cases origin_settle hn
  · intro h
    exact .inl (by simpa using h)

theorem mem_worker_extract {megabytes : Float} {workers : Nat} {schedule : Schedule}
    (hs : schedule.IsOrder) {r : Registry} {paths : List String} {batch : Batch}
    (h : extract w megabytes workers schedule r paths = .ok batch) (e : Event) :
    ⟨.worker, e⟩ ∈ batch.notices ↔ 1 < workerCount workers paths.length ∧
      ∃ limit, sizeLimit megabytes = .ok limit ∧
        ∃ path ∈ paths, e ∈ (attempt w limit r path).events := by
  by_cases hone : workerCount workers paths.length ≤ 1
  · simp only [extract, hone, if_true, Except.ok.injEq] at h
    subst h
    simp only [not_lt.2 hone, false_and, iff_false]
    intro hn
    cases origin_sequential w megabytes r paths _ hn
  · cases hl : sizeLimit megabytes with
    | error fault => simp [extract, hone, hl] at h
    | ok limit =>
      simp only [extract, hone, hl, if_false, Except.ok.injEq] at h
      subst h
      simp [mem_worker_parallel w limit hs, not_le.1 hone]

end Extraction

section Build

variable {σ : Type} [BEq σ] [LT σ] [DecidableLT σ] [ScoreArithmetic σ]

theorem mem_worker_build (w : Workspace) (how : ExtractionRule) (hs : how.schedule.IsOrder)
    (rule : ScoringRule σ) (durationMs : Nat) (r : Registry) (given : List String) (e : Event) :
    ⟨.worker, e⟩ ∈ (buildAtlas w how rule durationMs r given).notices ↔
      1 < Extraction.workerCount how.workers (firstSeen given).length ∧
        ∃ limit, Extraction.sizeLimit how.maxFileSizeMb = .ok limit ∧
          ∃ path ∈ given, e ∈ (Extraction.attempt w limit r path).events := by
  have hrepeated : ⟨.worker, e⟩ ∉ duplicateNotices given.length (firstSeen given).length := by
    intro h
    unfold duplicateNotices at h
    split at h
    · simp at h
    · simp at h
  cases he : Extraction.extract w how.maxFileSizeMb how.workers how.schedule r
      (firstSeen given) with
  | error fault =>
    have hlost := (extract_error_iff w how r given).1 ⟨fault, he⟩
    obtain ⟨fault', hfault⟩ := truncateFloat_of_not_finite hlost.1
    have hlimit : Extraction.sizeLimit how.maxFileSizeMb = .error fault' := hfault
    simp [buildAtlas, he, hrepeated, hlimit]
  | ok batch =>
    have hbatch := Extraction.mem_worker_extract w hs he e
    simp only [mem_firstSeen] at hbatch
    cases ho : Atlas.ofFacts rule (firstSeen given).length durationMs
        (batch.facts.filter FileFacts.isSupported) with
    | error fault => simp [buildAtlas, he, ho, hrepeated, hbatch]
    | ok atlas => simp [buildAtlas, he, ho, hrepeated, hbatch]

end Build

namespace Scoring

/-- Something that a worker reports in a scoring call: the call gets to its files, there are several
workers, and the file would report it if it came first. -/
def WorkerReports (around : Surroundings) (r : Registry) (root : String) (files : FileList)
    (given : Option Settings) (e : Event) : Prop :=
  ∃ task, prepare around root files given = .ok task ∧
    1 < Extraction.workerCount (task.settings.extractionRule around).workers
      (firstSeen task.paths).length ∧
    ∃ limit, Extraction.sizeLimit task.settings.indexer.maxFileSize.megabytes = .ok limit ∧
      ∃ path ∈ task.paths,
        e ∈ (Extraction.attempt (workspace around task.root) limit r path).events

theorem mem_worker_scoreFiles (around : Surroundings) (hs : around.schedule.IsOrder) (r : Registry)
    (root : String) (files : FileList) (given : Option Settings) (e : Event) :
    ⟨.worker, e⟩ ∈ (scoreFiles around r root files given).notices ↔
      WorkerReports around r root files given e := by
  cases hp : prepare around root files given with
  | error fault => simp [scoreFiles, hp, WorkerReports]
  | ok task =>
    have hbuild := mem_worker_build (workspace around task.root)
      (task.settings.extractionRule around) hs task.settings.scoringRule around.durationMs r
      task.paths e
    have hnotices : (scoreFiles around r root files given).notices =
        (buildAtlas (workspace around task.root) (task.settings.extractionRule around)
          task.settings.scoringRule around.durationMs r task.paths).notices := by
      simp only [scoreFiles, hp, perform]
      split
      · rfl
      · rfl
    rw [hnotices, hbuild]
    simp [WorkerReports, hp, Settings.extractionRule]

end Scoring

/-! ## Records -/

theorem Rows.find?_ofList_eq_none {k : Key} {rows : List (Scalar × Value)}
    (h : ∀ row ∈ rows, row.1.key ≠ k) : (Rows.ofList rows).find? k = none := by
  have hrun : ∀ acc : Rows, acc.find? k = none →
      Rows.find? k (rows.foldl (fun acc row => put row.1 row.2 acc) acc) = none := by
    induction rows with
    | nil => exact fun acc hacc => hacc
    | cons row rest ih =>
      intro acc hacc
      obtain ⟨hrow, hrest⟩ := List.forall_mem_cons.1 h
      exact ih hrest _ (by rw [find?_put, if_neg hrow, hacc])
  exact hrun [] rfl

def LogRecord.request? (r : LogRecord) : Option Value := r.rows.get? "request_id"

/-- No report has a field of the name that the request goes by, so only the request sets it. -/
theorem LogRecord.request?_ofEvent (e : Event) (time : String) (id : Option String) :
    (LogRecord.ofMessage (.ofEvent e) time id).request? = id.map Value.text := by
  have hfields : ∀ field ∈ e.fields, field.1 ≠ "request_id" := by
    cases e <;> simp [Event.fields, BuildStats.fields]
  have hset : ∀ (rows : Rows) name v, name ≠ "request_id" →
      (rows.set name v).get? "request_id" = rows.get? "request_id" := by
    intro rows name v hname
    rw [Rows.get?, Rows.set, Rows.find?_put]
    simp [Scalar.key, hname, Rows.get?]
  have hnone : (Rows.ofList (e.fields.map fun field => (Scalar.text field.1, field.2))).get?
      "request_id" = none := by
    refine Rows.find?_ofList_eq_none fun row hrow => ?_
    obtain ⟨field, hfield, rfl⟩ := List.mem_map.1 hrow
    simpa [Scalar.key] using hfields field hfield
  cases id with
  | none => simp [request?, ofMessage, LogMessage.ofEvent, LogMessage.ofLevel, hset, hnone]
  | some id =>
    rw [request?, ofMessage, Rows.get?, Rows.set, Rows.find?_put]
    simp [Scalar.key]

namespace Journal

def emissions (j : Journal) (time : String) (notices : List Notice) : List (LogSink × LogRecord) :=
  notices.flatMap fun n =>
    (j.takers (.ofEvent n.event)).map fun sink => (sink, j.noticeRecord time n)

theorem recordAll_eq (j : Journal) (time : String) (notices : List Notice) (out : LogOutput) :
    j.recordAll time notices out =
      (j.emissions time notices).foldl
        (fun out p => writeLine (p.2.line p.1.format) out p.1.target) out := by
  simp only [recordAll, emissions, List.foldl_flatMap, List.foldl_map]
  rfl

section Request

variable {j : Journal} {id : String} (hid : j.requestId = some id) (time : String)

include hid

theorem request?_noticeRecord (n : Notice) :
    (j.noticeRecord time n).request? = if n.origin = .caller then some (.text id) else none := by
  obtain ⟨origin, e⟩ := n
  cases origin with
  | caller => simp [noticeRecord, LogRecord.request?_ofEvent, requestOf, hid]
  | worker => simp [noticeRecord, LogRecord.request?_ofEvent, requestOf]

/-- Everything that is written names the request unless a worker's report is written. -/
theorem emissions_named_iff (notices : List Notice) :
    (∀ p ∈ j.emissions time notices, p.2.request? = some (.text id)) ↔
      ∀ e, ⟨.worker, e⟩ ∈ notices → j.takers (.ofEvent e) = [] := by
  have hrequest := request?_noticeRecord hid time
  constructor
  · intro h e he
    refine List.eq_nil_iff_forall_not_mem.2 fun sink hsink => ?_
    have hmem : (sink, j.noticeRecord time ⟨.worker, e⟩) ∈ j.emissions time notices :=
      List.mem_flatMap.2 ⟨_, he, List.mem_map_of_mem hsink⟩
    have hnamed := h _ hmem
    rw [hrequest] at hnamed
    simp at hnamed
  · intro h p hp
    obtain ⟨⟨origin, e⟩, hn, hp⟩ := List.mem_flatMap.1 hp
    obtain ⟨sink, hsink, rfl⟩ := List.mem_map.1 hp
    cases origin with
    | caller => exact (hrequest _).trans (by simp)
    | worker =>
      rw [h e hn] at hsink
      simp at hsink

end Request

end Journal

namespace CommandLine

/-- However a scores run ends, it ends its request and writes its last words after the records. -/
theorem runScores_ends (s : Setting) (j : Journal) (out : LogOutput) (root : String)
    (files : List String) (indent : Int) (stats : Bool) {recorded : LogOutput}
    (h : (j.beginRequest s.requestId none).recordAll s.time
      (scoreFiles s.around s.registry (Path.ofText root).text (.ofTexts files) none).notices out =
        recorded) :
    (runScores s j out root files indent stats).journal.requestId = none ∧
      ((runScores s j out root files indent stats).output = recorded ∨
        ∃ text, (runScores s j out root files indent stats).output = Outcome.print text recorded ∨
          (runScores s j out root files indent stats).output = Outcome.complain text recorded) := by
  unfold runScores
  dsimp only
  rw [h]
  generalize scoreFiles s.around s.registry (Path.ofText root).text (.ofTexts files) none = done
  cases ho : done.outcome with
  | ok atlas => exact ⟨rfl, .inr ⟨atlasText indent stats atlas, .inl rfl⟩⟩
  | error e =>
    dsimp only
    cases hc : e.coded? with
    | some c => exact ⟨rfl, .inr ⟨_, .inr rfl⟩⟩
    | none => exact ⟨rfl, .inl rfl⟩

/-- Of the records of a scores run those that the calling thread reports name its request, and what
a worker reports names none. So all of them do exactly if no worker reports anything that is
written. When the run is over there is no request, however it ended. -/
theorem requests_of_records (s : Setting) (hs : s.around.schedule.IsOrder) (j : Journal)
    (out : LogOutput) (root : String) (files : List String) (indent : Int) (stats : Bool) :
    let root' := (Path.ofText root).text
    let done := scoreFiles s.around s.registry root' (.ofTexts files) none
    let opened := j.beginRequest s.requestId none
    let result := runScores s j out root files indent stats
    let written := (opened.emissions s.time done.notices).foldl
      (fun out p => Journal.writeLine (p.2.line p.1.format) out p.1.target) out
    result.journal.requestId = none ∧
      (result.output = written ∨ ∃ text, result.output = Outcome.print text written ∨
        result.output = Outcome.complain text written) ∧
      (∀ n ∈ done.notices, (opened.noticeRecord s.time n).request? =
        if n.origin = .caller then some (.text s.requestId) else none) ∧
      (∀ e, ⟨.worker, e⟩ ∈ done.notices ↔
        Scoring.WorkerReports s.around s.registry root' (.ofTexts files) none e) ∧
      ((∀ p ∈ opened.emissions s.time done.notices, p.2.request? = some (.text s.requestId)) ↔
        ∀ e, Scoring.WorkerReports s.around s.registry root' (.ofTexts files) none e →
          j.takers (.ofEvent e) = []) := by
  intro root' done opened result written
  have hid : opened.requestId = some s.requestId := rfl
  have hworker : ∀ e, ⟨.worker, e⟩ ∈ done.notices ↔ _ :=
    Scoring.mem_worker_scoreFiles s.around hs s.registry root' (.ofTexts files) none
  have hended := runScores_ends s j out root files indent stats
    (Journal.recordAll_eq opened s.time done.notices out)
  have hresult : result = runScores s j out root files indent stats := rfl
  rw [hresult]
  refine ⟨hended.1, hended.2, fun n _ => Journal.request?_noticeRecord hid s.time n, hworker, ?_⟩
  rw [Journal.emissions_named_iff hid]
  simp only [hworker]
  rfl

namespace Sample

/-! Two workers, and a file that is missing. -/

def around : Surroundings := { Workspace.Sample.around with processors := 2 }

def setting : Setting := ⟨around, Workspace.Sample.registry, "12:00:00", "r1"⟩

def journal : Journal := ⟨.warning, [⟨.stderr, .console, .warning⟩], none⟩

def files : List String := ["a.py", "gone.py"]

def missing : Event :=
  .fileUnreadable "gone.py" "[Errno 2] No such file or directory: '/p/gone.py'"

theorem load_around : Settings.load around.sources ⟨.root, ["p"]⟩ [] =
    .ok Settings.builtin.measured := by
  have hmerged : Settings.mergedRows around.sources ⟨.root, ["p"]⟩ [] = .ok [] := by
    rfl
  exact Settings.load_of_ofRows rfl hmerged rfl

theorem prepare_sample : Scoring.prepare around "/p" (.ofTexts files) none =
    .ok ⟨⟨.root, ["p"]⟩, files, Settings.builtin.measured⟩ := by
  have hroot : Scoring.checkRoot around "/p" = .ok ⟨.root, ["p"]⟩ := by
    rfl
  have hpaths : (FileList.ofTexts files).paths = .ok files := by
    rfl
  simp [Scoring.prepare, hroot, hpaths, Scoring.chooseSettings, load_around]

theorem missing_reported : Scoring.WorkerReports around Workspace.Sample.registry "/p"
    (.ofTexts files) none missing := by
  refine ⟨_, prepare_sample, by decide +kernel, 10485760, by decide +kernel, "gone.py", ?_, ?_⟩
  · simp [files]
  · decide +kernel

/-- The record of the missing file is written and names no request. -/
theorem missing_file_unnamed :
    let opened := journal.beginRequest setting.requestId none
    let done := scoreFiles around setting.registry (Path.ofText "/p").text (.ofTexts files) none
    ∃ p ∈ opened.emissions setting.time done.notices,
      p.2.request? ≠ some (.text setting.requestId) := by
  intro opened done
  have hroot : (Path.ofText "/p").text = "/p" := by decide +kernel
  have hmissing : ⟨.worker, missing⟩ ∈ done.notices := by
    simp only [done, hroot]
    exact (Scoring.mem_worker_scoreFiles around (fun ts => .refl ts) _ _ _ _ _).2 missing_reported
  by_contra hnone
  push Not at hnone
  have htaken := (Journal.emissions_named_iff (j := opened) rfl setting.time done.notices).1 hnone
    missing hmissing
  exact absurd htaken (by decide +kernel)

theorem requests_of_sample : setting.around.schedule.IsOrder ∧
    (runScores setting journal ⟨around.sources.files, "", ""⟩ "/p" files 2
      false).journal.requestId = none ∧
    ¬ ∀ p ∈ (journal.beginRequest setting.requestId none).emissions setting.time
        (scoreFiles around setting.registry (Path.ofText "/p").text (.ofTexts files) none).notices,
      p.2.request? = some (.text setting.requestId) := by
  have hs : setting.around.schedule.IsOrder := fun ts => .refl ts
  obtain ⟨hended, _, _, _, hnamed⟩ := requests_of_records setting hs journal
    ⟨around.sources.files, "", ""⟩ "/p" files 2 false
  have hroot : (Path.ofText "/p").text = "/p" := by decide +kernel
  refine ⟨hs, hended, fun hall => ?_⟩
  rw [hroot] at hnamed hall
  exact absurd (hnamed.1 hall missing missing_reported) (by decide +kernel)

end Sample

end CommandLine

end SymbolAtlas
