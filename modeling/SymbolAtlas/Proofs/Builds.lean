import Mathlib.Data.List.Nodup
import SymbolAtlas.Build
import SymbolAtlas.Proofs.CallerLists
import SymbolAtlas.Proofs.ExactScores
import SymbolAtlas.Proofs.Extracts

/-!
What a build makes of a batch. A build fails only where arithmetic does; where it succeeds, its
caller table is determined by the supported facts and the homes of the tokens.
-/

set_option autoImplicit false

namespace SymbolAtlas

variable {σ : Type}

namespace Report

variable [ScoreArithmetic σ]

theorem boosted_error_iff (rule : ScoringRule σ) (calls : Table String Int)
    (scores : ScoreTable σ) :
    (∃ e, boosted rule calls scores = .error e) ↔
      rule.boost = true ∧ ∃ path token, (scores.score? path token).isSome ∧
        ∃ e, (Score.callBoost ((calls.get? token).getD 0) : Except ArithmeticFault σ) =
          .error e := by
  simp only [boosted, Table.traverse_error_iff, ScoreTable.isSome_score?_iff,
    Table.get?_eq_some_iff]
  constructor
  · rintro ⟨⟨path, row⟩, hrow, ⟨token, score⟩, hentry, e, he⟩
    by_cases hb : rule.boost = true
    · simp only [hb, if_true] at he
      refine ⟨hb, path, token, ⟨row, hrow, List.mem_map_of_mem hentry⟩, ?_⟩
      cases hc : (Score.callBoost ((calls.get? token).getD 0) : Except ArithmeticFault σ) with
      | error e' => exact ⟨e', rfl⟩
      | ok factor => simp [hc] at he
    · simp [hb] at he
  · rintro ⟨hb, path, token, ⟨row, hrow, ht⟩, e, he⟩
    obtain ⟨score, hs⟩ := Table.exists_get?_of_mem ht
    refine ⟨(path, row), hrow, (token, score), (Table.get?_eq_some_iff ..).1 hs, e, ?_⟩
    simp only [hb, if_true, he]

theorem scores_error_iff [BEq σ] (rule : ScoringRule σ) (calls : Table String Int)
    (raw : ScoreTable σ) :
    (∃ e, Report.scores rule calls raw = .error e) ↔ ∃ e, boosted rule calls raw = .error e := by
  cases hb : boosted rule calls raw with
  | error e => simp [Report.scores, hb, Except.map]
  | ok scores => simp [Report.scores, hb, Except.map]

theorem keys_scores [BEq σ] {rule : ScoringRule σ} {calls : Table String Int}
    {raw scores : ScoreTable σ} (h : Report.scores rule calls raw = .ok scores) :
    scores.keys = raw.keys := by
  cases hb : boosted rule calls raw with
  | error e => simp [Report.scores, hb, Except.map] at h
  | ok boosted =>
    have hkeys := Table.keys_of_traverse _ raw boosted hb
    simp only [Report.scores, hb, Except.map, Except.ok.injEq] at h
    rw [← h, rounded, Table.keys_mapWithKey, hkeys]

end Report

def Extraction.Batch.supported (batch : Extraction.Batch) : List FileFacts :=
  batch.facts.filter FileFacts.isSupported

variable [BEq σ] [LT σ] [DecidableLT σ] [ScoreArithmetic σ]

theorem outcome_buildAtlas (w : Workspace) (how : ExtractionRule) (rule : ScoringRule σ)
    (durationMs : Nat) (r : Registry) (given : List String) :
    (buildAtlas w how rule durationMs r given).outcome =
      match Extraction.extract w how.maxFileSizeMb how.workers how.schedule r (firstSeen given) with
      | .error e => .error (.arithmetic e)
      | .ok batch =>
        Atlas.ofFacts rule (firstSeen given).length durationMs batch.supported := by
  cases he : Extraction.extract w how.maxFileSizeMb how.workers how.schedule r
      (firstSeen given) with
  | error e => simp [buildAtlas, he]
  | ok batch =>
    cases ho : Atlas.ofFacts rule (firstSeen given).length durationMs
        (batch.facts.filter FileFacts.isSupported) with
    | error e => simp [buildAtlas, he, Extraction.Batch.supported, ho]
    | ok atlas => simp [buildAtlas, he, Extraction.Batch.supported, ho]

theorem nodup_supported {w : Workspace} (how : ExtractionRule) (hs : how.schedule.IsOrder)
    {r : Registry} {given : List String} {batch : Extraction.Batch}
    (h : Extraction.extract w how.maxFileSizeMb how.workers how.schedule r (firstSeen given) =
      .ok batch) : (batch.supported.map FileFacts.path).Nodup := by
  have hpaths := (Extraction.covers_of_extract w hs h).1
  have hsub : (batch.supported.map FileFacts.path).Sublist (batch.facts.map FileFacts.path) :=
    List.filter_sublist.map FileFacts.path
  rw [hpaths] at hsub
  exact hsub.nodup (nodup_firstSeen given)

/-- A token has a home exactly if some file defines it, and its home is such a file. -/
theorem definers_ofFacts {rule : ScoringRule σ} {facts : List FileFacts} {raw : ScoreTable σ}
    (hn : (facts.map FileFacts.path).Nodup) (h : Score.ofFacts rule facts = .ok raw)
    (token : String) :
    ((raw.definers.get? token).isSome ↔ ∃ f ∈ facts, token ∈ f.definitions.keys) ∧
      ∀ path, raw.definers.get? token = some path →
        ∃ f ∈ facts, f.path = path ∧ token ∈ f.definitions.keys := by
  constructor
  · simp only [ScoreTable.isSome_get?_definers, Score.isSome_score?_ofFacts hn h]
    constructor
    · rintro ⟨path, f, hf, _, ht⟩
      exact ⟨f, hf, ht⟩
    · rintro ⟨f, hf, ht⟩
      exact ⟨f.path, f, hf, rfl, ht⟩
  · intro path hd
    obtain ⟨score, hs⟩ := ScoreTable.exists_score?_of_definers hd
    exact (Score.isSome_score?_ofFacts hn h path token).1 (by simp [hs])

structure Callers.Lists (facts : List FileFacts) (homes : Table String String)
    (a : Attribution) : Prop where
  layout : a.callers.layout =
    (facts.map fun f => (f.path, atHome homes f.path f.definitions.keys)).filter
      fun row => row.2 ≠ []
  list : ∀ path token, a.callers.list? path token =
    if homes.get? token = some path then
      some (facts.flatMap fun f => List.replicate (f.references.count token) f.path)
    else none
  dropped : a.dropped =
    (facts.flatMap FileFacts.references).countP fun token => (homes.get? token).isNone

namespace Atlas

variable {rule : ScoringRule σ} {facts : List FileFacts} {raw : ScoreTable σ}
  (hn : (facts.map FileFacts.path).Nodup) (h : Score.ofFacts rule facts = .ok raw)

include hn h

theorem assign_ofFacts :
    ∃ a, Callers.assign raw facts raw.definers = .ok a ∧ Callers.Lists facts raw.definers a := by
  have hready : ∀ token home, raw.definers.get? token = some home →
      ∃ row, raw.get? home = some row ∧ token ∈ row.keys := by
    intro token home hd
    obtain ⟨score, hs⟩ := ScoreTable.exists_score?_of_definers hd
    exact (raw.isSome_score?_iff home token).1 (by simp [hs])
  obtain ⟨a, ha, hlayout, hlist, hdropped⟩ := Callers.assign_ok raw.definers raw facts hready
  refine ⟨a, ha, ?_, hlist, hdropped⟩
  have hrows := congrArg (List.map fun row : String × List String =>
    (row.1, Callers.atHome raw.definers row.1 row.2)) (Score.rows_ofFacts hn h)
  simp only [List.map_map, Function.comp_def] at hrows
  rw [hlayout, Callers.layout_opened, hrows]

/-- Past the scores of the definitions only raising the reported scores can fail. -/
theorem ofFacts_eq (paths durationMs : Nat) :
    ∃ a, Callers.Lists facts raw.definers a ∧
      ofFacts rule paths durationMs facts =
        match Report.scores rule
            ((Callers.external facts).mapWithKey fun _ (n : Nat) => (n : Int)) raw with
        | .error e => .error (.arithmetic e)
        | .ok scores =>
          .ok ⟨scores, a.callers, count paths facts a.dropped durationMs⟩ := by
  obtain ⟨a, ha, hlists⟩ := assign_ofFacts hn h
  refine ⟨a, hlists, ?_⟩
  cases hscores : Report.scores rule
      ((Callers.external facts).mapWithKey fun _ (n : Nat) => (n : Int)) raw with
  | error e => simp only [ofFacts, h, ha, hscores]
  | ok scores => simp only [ofFacts, h, ha, hscores]

omit h

theorem ofFacts_ok {paths durationMs : Nat} {atlas : Atlas σ}
    (h : ofFacts rule paths durationMs facts = .ok atlas) :
    ∃ raw a, Score.ofFacts rule facts = .ok raw ∧ Callers.Lists facts raw.definers a ∧
      Report.scores rule ((Callers.external facts).mapWithKey fun _ (n : Nat) => (n : Int)) raw =
        .ok atlas.scores ∧
      atlas.callers = a.callers ∧ atlas.stats = count paths facts a.dropped durationMs := by
  cases hraw : Score.ofFacts rule facts with
  | error e => simp [ofFacts, hraw] at h
  | ok raw =>
    obtain ⟨a, ha, hatlas⟩ := ofFacts_eq hn hraw paths durationMs
    rw [hatlas] at h
    cases hscores : Report.scores rule
        ((Callers.external facts).mapWithKey fun _ (n : Nat) => (n : Int)) raw with
    | error e => simp [hscores] at h
    | ok scores =>
      simp only [hscores, Except.ok.injEq] at h
      subst h
      exact ⟨raw, a, rfl, ha, hscores, rfl, rfl⟩

end Atlas

/-- How often a token is referred to from files that do not define it. -/
def Callers.externalCount (facts : List FileFacts) (token : String) : Nat :=
  ((external facts).get? token).getD 0

theorem Callers.getD_external (facts : List FileFacts) (token : String) :
    (((external facts).mapWithKey fun _ (n : Nat) => (n : Int)).get? token).getD 0 =
      (externalCount facts token : Int) := by
  rw [Table.get?_mapWithKey, externalCount]
  cases (external facts).get? token with
  | none => rfl
  | some n => rfl

theorem Atlas.exists_ofFacts {rule : ScoringRule σ} {facts : List FileFacts} {raw : ScoreTable σ}
    (hn : (facts.map FileFacts.path).Nodup) (h : Score.ofFacts rule facts = .ok raw)
    (hboost : rule.boost = true → ∀ token, ∃ factor : σ,
      Score.callBoost (Callers.externalCount facts token) = .ok factor) (paths durationMs : Nat) :
    ∃ atlas, ofFacts rule paths durationMs facts = .ok atlas := by
  obtain ⟨a, _, hatlas⟩ := ofFacts_eq hn h paths durationMs
  rw [hatlas]
  cases hscores : Report.scores rule
      ((Callers.external facts).mapWithKey fun _ (n : Nat) => (n : Int)) raw with
  | ok scores => exact ⟨_, rfl⟩
  | error e =>
    obtain ⟨hb, _, token, _, e', he⟩ :=
      (Report.boosted_error_iff ..).1 ((Report.scores_error_iff ..).1 ⟨e, hscores⟩)
    rw [Callers.getD_external] at he
    obtain ⟨factor, hfactor⟩ := hboost hb token
    exact absurd (hfactor.symm.trans he) (by simp)

namespace Callers.Lists

variable {facts : List FileFacts} {homes : Table String String} {a : Attribution}
  (ha : Callers.Lists facts homes a) (hn : (facts.map FileFacts.path).Nodup)

include ha hn

theorem keys_eq (hh : ∀ token path, homes.get? token = some path →
      ∃ f ∈ facts, f.path = path ∧ token ∈ f.definitions.keys) :
    a.callers.keys = (facts.map FileFacts.path).filter fun path => path ∈ homes.values := by
  rw [CallerTable.keys_eq_layout, ha.layout, List.filter_map, List.map_map, List.filter_map]
  refine congrArg (List.map FileFacts.path) (List.filter_congr fun f hf => ?_)
  simp only [Function.comp_apply, decide_eq_decide]
  constructor
  · intro hne
    obtain ⟨token, ht⟩ := List.exists_mem_of_ne_nil _ hne
    have hd : homes.get? token = some f.path := by simpa using (List.mem_filter.1 ht).2
    exact List.mem_map.2 ⟨_, (Table.get?_eq_some_iff ..).1 hd, rfl⟩
  · intro hv
    obtain ⟨⟨token, path⟩, hm, rfl⟩ := List.mem_map.1 hv
    have hd := (Table.get?_eq_some_iff homes token _).2 hm
    obtain ⟨g, hg, hpath, ht⟩ := hh token _ hd
    obtain rfl := List.inj_on_of_nodup_map hn hg hf hpath
    exact List.ne_nil_of_mem (List.mem_filter.2 ⟨ht, by simp [hd]⟩)

theorem keys_lists {f : FileFacts} (hf : f ∈ facts) {lists : Table String (List String)}
    (hl : a.callers.get? f.path = some lists) :
    lists.keys = f.definitions.keys.filter fun token => homes.get? token = some f.path := by
  have hm : (f.path, lists.keys) ∈ a.callers.layout :=
    (CallerTable.mem_layout ..).2 ⟨lists, hl, rfl⟩
  rw [ha.layout] at hm
  obtain ⟨g, hg, he⟩ := List.mem_map.1 (List.mem_filter.1 hm).1
  obtain ⟨hpath, hkeys⟩ := Prod.mk.inj he
  obtain rfl := List.inj_on_of_nodup_map hn hg hf hpath
  exact hkeys.symm

end Callers.Lists

theorem buildAtlas_exact {w : Workspace} (how : ExtractionRule) (hs : how.schedule.IsOrder)
    (rule : ScoringRule ℝ) (durationMs : Nat) {r : Registry} {given : List String}
    {batch : Extraction.Batch}
    (hb : Extraction.extract w how.maxFileSizeMb how.workers how.schedule r (firstSeen given) =
      .ok batch) :
    ∃ atlas raw a, (buildAtlas w how rule durationMs r given).outcome = .ok atlas ∧
      Score.ofFacts rule batch.supported = .ok raw ∧
      Callers.Lists batch.supported raw.definers a ∧ atlas.callers = a.callers := by
  have hn := nodup_supported how hs hb
  obtain ⟨raw, hraw⟩ := Score.ofFacts_exact rule batch.supported
  obtain ⟨atlas, hatlas⟩ := Atlas.exists_ofFacts hn hraw
    (fun _ token => Score.callBoost_exact (Callers.externalCount batch.supported token))
    (firstSeen given).length durationMs
  obtain ⟨raw', a, hraw', ha, _, hcallers, _⟩ := Atlas.ofFacts_ok hn hatlas
  obtain rfl := Except.ok.inj (hraw.symm.trans hraw')
  refine ⟨atlas, raw, a, ?_, hraw, ha, hcallers⟩
  rw [outcome_buildAtlas, hb]
  exact hatlas

namespace Workspace.Sample

open Extraction

theorem factsOf_sample {path : String} (hp : path ∈ paths) :
    factsOf workspace 1048576 registry path =
      factsOfTree path .python [102] query
        (leaf (if path = "c.py" then "call" else "identifier")) := by
  have hlanguage : ∀ path ∈ paths, registry.languageFor path = some .python := by decide +kernel
  have hsource : ∀ path ∈ paths, source? workspace 1048576 path = some [102] := by decide +kernel
  have hl := hlanguage path hp
  have hread := ofFile_of_read workspace 1048576 (.blank path (some .python)) (hsource path hp)
    registry
  have hanswer : registry.answer workspace.installed .python =
      .ok (some ⟨pack, Grammar.permissive, query⟩) := rfl
  have hparse : workspace.parser.parse path .python [102] =
      .tree (leaf (if path = "c.py" then "call" else "identifier")) := rfl
  have htree := ofSource_of_tree workspace hl hanswer hparse
  simp only [factsOf, attempt, hl, hread, htree]
  rfl

theorem collect_leaf (kind : String) {name tag : String} {c : CaptureKind}
    (hname : Capture.classify name = some (c, tag))
    (hleaf : query.captured (leaf kind) = [(name, [(leaf kind).label])]) :
    ∃ capture, Capture.collect [102] (query.captured (leaf kind)) = [capture] ∧
      capture.name = "f" ∧ capture.kind = c := by
  have htext : Capture.nodeText [102] (leaf kind).label = "f" := by
    have h : Capture.nodeText [102] (leaf "").label = "f" := by decide +kernel
    exact h
  rw [hleaf, Capture.collect]
  simp [Capture.addNamed, hname, Capture.addNode, htext]

def view (f : FileFacts) : String × List String × List String × Bool :=
  (f.path, f.definitions.keys, f.references, f.isSupported)

theorem view_factsOf (path : String) (hp : path ∈ paths) :
    view (factsOf workspace 1048576 registry path) =
      (path, if path = "c.py" then [] else ["f"], if path = "c.py" then ["f"] else [], true) := by
  obtain ⟨d, hd, hdn, hdk⟩ := collect_leaf "identifier"
    (show Capture.classify "name.definition.function" = some (.definition, "function") by
      decide +kernel) (by decide +kernel)
  obtain ⟨u, hu, hun, huk⟩ := collect_leaf "call"
    (show Capture.classify "name.reference.call" = some (.reference, "call") by
      decide +kernel) (by decide +kernel)
  rw [factsOf_sample hp, factsOfTree]
  by_cases hc : path = "c.py"
  · simp [view, hc, hu, FileFacts.addCaptures, FileFacts.addCapture, huk, hun, FileFacts.blank,
      FileFacts.isSupported]
  · simp [view, hc, hd, FileFacts.addCaptures, FileFacts.addCapture, hdk, hdn, FileFacts.blank,
      Table.bump, Table.keys_alter, FileFacts.isSupported]

theorem supported_sequential : ∃ b a c : FileFacts,
    (sequential workspace 1 registry paths).supported = [b, a, c] ∧
      view b = ("d/b.py", ["f"], [], true) ∧ view a = ("a.py", ["f"], [], true) ∧
      view c = ("c.py", [], ["f"], true) := by
  have hb := view_factsOf "d/b.py" (by decide)
  have ha := view_factsOf "a.py" (by decide)
  have hc := view_factsOf "c.py" (by decide)
  refine ⟨_, _, _, ?_, hb, ha, hc⟩
  have hsupported : ∀ f : FileFacts, ∀ p ks rs, view f = (p, ks, rs, true) →
      f.isSupported = true := by
    intro f p ks rs h
    exact congrArg (fun v => v.2.2.2) h
  have hlimit : sizeLimit 1 = .ok 1048576 := rfl
  rw [Batch.supported, (sequential_eq workspace hlimit registry paths).1]
  simp [paths, hsupported _ _ _ _ hb, hsupported _ _ _ _ ha, hsupported _ _ _ _ hc]

def how : ExtractionRule := ⟨1, 1, id⟩

theorem isOrder_how : how.schedule.IsOrder := fun ts => .refl ts

theorem extract_sample :
    extract workspace how.maxFileSizeMb how.workers how.schedule registry (firstSeen paths) =
      .ok (sequential workspace 1 registry paths) := rfl

theorem least_definer (byLines : Bool) :
    ∃ f ∈ (sequential workspace 1 registry paths).supported, f.path = "a.py" ∧
      "f" ∈ f.definitions.keys ∧
      ∀ g ∈ (sequential workspace 1 registry paths).supported, "f" ∈ g.definitions.keys →
        Score.precedence byLines f ≤ Score.precedence byLines g := by
  obtain ⟨b, a, c, hfacts, hb, ha, hc⟩ := supported_sequential
  simp only [view, Prod.mk.injEq] at hb ha hc
  have hdepth : Path.depth a.path < Path.depth b.path := by
    rw [ha.1, hb.1]
    decide +kernel
  rw [hfacts]
  refine ⟨a, by simp, ha.1, by simp [ha.2.1], fun g hg ht => ?_⟩
  simp only [List.mem_cons, List.not_mem_nil, or_false] at hg
  rcases hg with rfl | rfl | rfl
  · exact (Prod.Lex.toLex_lt_toLex.2 (.inl hdepth)).le
  · exact le_rfl
  · simp [hc.2.1] at ht

end Workspace.Sample

/-- A build that returns has read every file once and listed every caller under the home of its
token. -/
theorem callers_of_build (w : Workspace) (how : ExtractionRule) (hs : how.schedule.IsOrder)
    (rule : ScoringRule σ) (durationMs : Nat) (r : Registry) (given : List String) :
    (∀ fault, (buildAtlas w how rule durationMs r given).outcome ≠ .error (.caller fault)) ∧
      ∀ atlas, (buildAtlas w how rule durationMs r given).outcome = .ok atlas →
        ∃ batch raw,
          Extraction.extract w how.maxFileSizeMb how.workers how.schedule r (firstSeen given) =
              .ok batch ∧
            batch.facts.map FileFacts.path = firstSeen given ∧
            Score.ofFacts rule batch.supported = .ok raw ∧
            (∀ token, (raw.definers.get? token).isSome ↔
              ∃ f ∈ batch.supported, token ∈ f.definitions.keys) ∧
            (∀ path token, atlas.callers.list? path token =
              if raw.definers.get? token = some path then
                some (batch.supported.flatMap fun g =>
                  List.replicate (g.references.count token) g.path)
              else none) ∧
            atlas.callers.keys =
              atlas.scores.keys.filter (fun path => path ∈ raw.definers.values) ∧
            (∀ f ∈ batch.supported, ∀ lists, atlas.callers.get? f.path = some lists →
              lists.keys =
                f.definitions.keys.filter fun token => raw.definers.get? token = some f.path) ∧
            atlas.stats.referencesDropped =
              (batch.supported.flatMap FileFacts.references).countP fun token =>
                ∀ f ∈ batch.supported, token ∉ f.definitions.keys := by
  rw [outcome_buildAtlas]
  cases he : Extraction.extract w how.maxFileSizeMb how.workers how.schedule r
      (firstSeen given) with
  | error e => simp
  | ok batch =>
    have hn := nodup_supported how hs he
    cases hraw : Score.ofFacts rule batch.supported with
    | error e => simp [Atlas.ofFacts, hraw]
    | ok raw =>
      obtain ⟨a, ha, hatlas⟩ := Atlas.ofFacts_eq hn hraw (firstSeen given).length durationMs
      simp only [hatlas]
      cases hscores : Report.scores rule
          ((Callers.external batch.supported).mapWithKey fun _ (n : Nat) => (n : Int)) raw with
      | error e => simp
      | ok scores =>
        refine ⟨by simp, ?_⟩
        rintro atlas ⟨⟩
        have hhome := definers_ofFacts hn hraw
        refine ⟨batch, raw, rfl, (Extraction.covers_of_extract w hs he).1, hraw,
          fun token => (hhome token).1, ha.list, ?_, fun f hf lists => ha.keys_lists hn hf, ?_⟩
        · rw [Report.keys_scores hscores, Score.keys_ofFacts hn hraw]
          exact ha.keys_eq hn fun token => (hhome token).2
        · refine ha.dropped.trans (List.countP_congr fun token _ => ?_)
          rw [decide_eq_true_eq, ← Option.not_isSome, Bool.not_eq_true', ← Bool.not_eq_true,
            (hhome token).1]
          simp

noncomputable def Workspace.Sample.rule : ScoringRule ℝ := ⟨1 / 2, 1 / 2, true, id⟩

theorem Workspace.Sample.accepted_rule : Workspace.Sample.rule.Accepted := by
  constructor <;> norm_num [Workspace.Sample.rule]

open Workspace.Sample in
theorem callers_of_sample : how.schedule.IsOrder ∧ ∃ atlas : Atlas ℝ,
    (buildAtlas workspace how rule 0 registry paths).outcome = .ok atlas ∧
      atlas.callers.list? "a.py" "f" = some ["c.py"] ∧
      atlas.callers.list? "d/b.py" "f" = none ∧ atlas.stats.referencesDropped = 0 := by
  obtain ⟨atlas, _, _, ho, _⟩ := buildAtlas_exact how isOrder_how rule 0 extract_sample
  obtain ⟨batch, raw, hb, _, hraw, _, hlist, _, _, hdropped⟩ :=
    (callers_of_build workspace how isOrder_how rule 0 registry paths).2 atlas ho
  obtain rfl := Except.ok.inj (extract_sample.symm.trans hb)
  have hhome : raw.definers.get? "f" = some "a.py" :=
    (Score.get?_definers_exact accepted_rule (nodup_supported how isOrder_how extract_sample) hraw
      "f" "a.py").2 (least_definer _)
  obtain ⟨b, a, c, hfacts, hvb, hva, hvc⟩ := supported_sequential
  simp only [view, Prod.mk.injEq] at hvb hva hvc
  refine ⟨isOrder_how, atlas, ho, ?_, ?_, ?_⟩
  · simp [hlist, hhome, hfacts, hvb, hva, hvc]
  · simp [hlist, hhome]
  · simp [hdropped, hfacts, hvb, hva, hvc]

/-- In exact arithmetic the home of a token is the file of highest precedence among those that
define it, so it does not hang on the parameters beyond whether lines count at all. -/
theorem home_precedes_definers (w : Workspace) (how : ExtractionRule)
    (hs : how.schedule.IsOrder) {rule : ScoringRule ℝ} (hr : rule.Accepted) (durationMs : Nat)
    (r : Registry) (given : List String) {batch : Extraction.Batch}
    (hb : Extraction.extract w how.maxFileSizeMb how.workers how.schedule r (firstSeen given) =
      .ok batch) :
    ∃ atlas raw, (buildAtlas w how rule durationMs r given).outcome = .ok atlas ∧
      Score.ofFacts rule batch.supported = .ok raw ∧
      (∀ token, (∃ f ∈ batch.supported, token ∈ f.definitions.keys) →
        ∃ path, raw.definers.get? token = some path) ∧
      (∀ token path, raw.definers.get? token = some path ↔
        ∃ f ∈ batch.supported, f.path = path ∧ token ∈ f.definitions.keys ∧
          ∀ g ∈ batch.supported, token ∈ g.definitions.keys →
            Score.precedence (decide (0 < rule.weight)) f ≤
              Score.precedence (decide (0 < rule.weight)) g) ∧
      (∀ token path, (atlas.callers.list? path token).isSome ↔
        raw.definers.get? token = some path) ∧
      (∀ f ∈ batch.supported, ∀ g ∈ batch.supported, ∀ token, token ∈ f.definitions.keys →
        Path.depth f.path < Path.depth g.path → raw.definers.get? token ≠ some g.path) ∧
      ∀ rule' : ScoringRule ℝ, rule'.Accepted → (0 < rule'.weight ↔ 0 < rule.weight) →
        ∃ atlas' raw', (buildAtlas w how rule' durationMs r given).outcome = .ok atlas' ∧
          Score.ofFacts rule' batch.supported = .ok raw' ∧
          (∀ token, raw'.definers.get? token = raw.definers.get? token) ∧
          ∀ path token, atlas'.callers.list? path token = atlas.callers.list? path token := by
  have hn := nodup_supported how hs hb
  obtain ⟨atlas, raw, a, ho, hraw, ha, hcallers⟩ := buildAtlas_exact how hs rule durationMs hb
  have hhome := Score.get?_definers_exact hr hn hraw
  refine ⟨atlas, raw, ho, hraw, ?_, hhome, ?_, ?_, ?_⟩
  · intro token hd
    exact Option.isSome_iff_exists.1 ((definers_ofFacts hn hraw token).1.2 hd)
  · intro token path
    rw [hcallers, ha.list]
    by_cases hd : raw.definers.get? token = some path
    · simp [hd]
    · simp [hd]
  · intro f hf g hg token ht hdepth hd
    obtain ⟨g', hg', hpath, _, hleast⟩ := (hhome token g.path).1 hd
    obtain rfl := List.inj_on_of_nodup_map hn hg' hg hpath
    exact absurd (hleast f hf ht) (Prod.Lex.toLex_lt_toLex.2 (.inl hdepth)).not_ge
  · intro rule' hr' hw
    obtain ⟨atlas', raw', a', ho', hraw', ha', hcallers'⟩ :=
      buildAtlas_exact how hs rule' durationMs hb
    have hsame : ∀ token, raw'.definers.get? token = raw.definers.get? token := by
      intro token
      apply Option.ext
      intro path
      rw [Score.get?_definers_exact hr' hn hraw', hhome]
      simp only [hw]
    refine ⟨atlas', raw', ho', hraw', hsame, fun path token => ?_⟩
    rw [hcallers', hcallers, ha'.list, ha.list, hsame]

open Workspace.Sample in
theorem shallower_sample_is_home : rule.Accepted ∧ how.schedule.IsOrder ∧
    ∃ atlas : Atlas ℝ, (buildAtlas workspace how rule 0 registry paths).outcome = .ok atlas ∧
      (atlas.callers.list? "a.py" "f").isSome := by
  obtain ⟨atlas, raw, ho, _, _, hhome, hlist, _⟩ :=
    home_precedes_definers workspace how isOrder_how accepted_rule 0 registry paths extract_sample
  exact ⟨accepted_rule, isOrder_how, atlas, ho,
    (hlist "f" "a.py").2 ((hhome "f" "a.py").2 (least_definer _))⟩

end SymbolAtlas
