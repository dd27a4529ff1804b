import SymbolAtlas.Proofs.Rows

/-!
The counters of a build. References are counted file by file while caller lists grow token by
token; since every token with a home has one list, at its home, the lists hold just the references
that were not dropped. The other counters tell the size of the score table.
-/

set_option autoImplicit false

namespace SymbolAtlas

def CallerTable.listed (callers : CallerTable) : List String :=
  callers.entries.flatMap fun row => row.2.values.flatten

def ScoreTable.definitions {σ : Type} (scores : ScoreTable σ) : List (String × String) :=
  scores.entries.flatMap fun row => row.2.keys.map fun token => (row.1, token)

section Exchange

theorem countP_mem_cons {token : String} {tokens : List String} (h : token ∉ tokens)
    (refs : List String) : (refs.countP fun t => t ∈ token :: tokens) =
      refs.count token + refs.countP fun t => t ∈ tokens := by
  induction refs with
  | nil => rfl
  | cons t rest ih =>
    rw [List.countP_cons, List.count_cons, List.countP_cons, ih]
    by_cases ht : t = token
    · subst ht
      simp only [List.mem_cons, true_or, decide_true, if_true, beq_self_eq_true, h, decide_false,
        Bool.false_eq_true, if_false]
      omega
    · have hb : (t == token) = false := by simpa using ht
      simp only [List.mem_cons, ht, false_or, hb, Bool.false_eq_true, if_false]
      omega

/-- Lists that hold as many entries as a token has occurrences hold together the occurrences of all
their tokens. -/
theorem length_flatMap_of_count {tokens refs : List String} {lists : String → List String}
    (hn : tokens.Nodup) (h : ∀ token, (lists token).length = refs.count token) :
    (tokens.flatMap lists).length = refs.countP fun token => token ∈ tokens := by
  induction tokens with
  | nil => simp
  | cons token rest ih =>
    rw [List.nodup_cons] at hn
    rw [List.flatMap_cons, List.length_append, h, ih hn.2, countP_mem_cons hn.1]

end Exchange

namespace Callers

def callersIn (facts : List FileFacts) (token : String) : List String :=
  facts.flatMap fun f => List.replicate (f.references.count token) f.path

theorem length_callersIn (facts : List FileFacts) (token : String) :
    (callersIn facts token).length = (facts.flatMap FileFacts.references).count token := by
  induction facts with
  | nil => rfl
  | cons f rest ih =>
    rw [List.flatMap_cons, List.count_append, ← ih]
    simp [callersIn]

def housed (homes : Table String String) (facts : List FileFacts) : List String :=
  facts.flatMap fun f => atHome homes f.path f.definitions.keys

theorem mem_housed {homes : Table String String} {facts : List FileFacts}
    (hh : ∀ token path, homes.get? token = some path →
      ∃ f ∈ facts, f.path = path ∧ token ∈ f.definitions.keys) (token : String) :
    token ∈ housed homes facts ↔ (homes.get? token).isSome := by
  simp only [housed, List.mem_flatMap, atHome, List.mem_filter, decide_eq_true_eq]
  constructor
  · rintro ⟨f, _, _, hd⟩
    simp [hd]
  · intro hd
    obtain ⟨path, hd⟩ := Option.isSome_iff_exists.1 hd
    obtain ⟨f, hf, rfl, ht⟩ := hh token path hd
    exact ⟨f, hf, ht, hd⟩

theorem nodup_housed (homes : Table String String) {facts : List FileFacts}
    (hn : (facts.map FileFacts.path).Nodup) : (housed homes facts).Nodup := by
  rw [housed, List.nodup_flatMap]
  refine ⟨fun f _ => nodup_atHome homes f.path f.definitions.nodup_keys, ?_⟩
  refine (List.pairwise_map.1 hn).imp ?_
  intro f g hne token hf hg
  have hhome : homes.get? token = some f.path := by simpa using (List.mem_filter.1 hf).2
  have hhome' : homes.get? token = some g.path := by simpa using (List.mem_filter.1 hg).2
  exact hne (Option.some.inj (hhome.symm.trans hhome'))

namespace Lists

variable {facts : List FileFacts} {homes : Table String String} {a : Attribution}
  (ha : Callers.Lists facts homes a)

include ha

theorem listed_eq : a.callers.listed = (housed homes facts).flatMap (callersIn facts) := by
  have hcell : ∀ row ∈ a.callers.entries, row.2.values.flatten =
      row.2.keys.flatMap (callersIn facts) := by
    rintro ⟨path, lists⟩ hrow
    have hlists : lists.values = lists.keys.map (callersIn facts) := by
      rw [Table.values, Table.keys, List.map_map]
      refine List.map_congr_left ?_
      rintro ⟨token, list⟩ hm
      have hlist : a.callers.list? path token = some list := by
        simp [CallerTable.list?, (Table.get?_eq_some_iff ..).2 hrow,
          (Table.get?_eq_some_iff ..).2 hm]
      rw [ha.list] at hlist
      split at hlist
      · exact (Option.some.inj hlist).symm
      · cases hlist
    rw [hlists, List.flatMap]
  have hlayout : a.callers.listed =
      (a.callers.layout.flatMap Prod.snd).flatMap (callersIn facts) := by
    rw [CallerTable.listed, List.flatMap_congr hcell, CallerTable.layout, List.flatMap_map,
      List.flatMap_assoc]
  have hempty : ∀ rows : List (String × List String),
      (rows.filter fun row => row.2 ≠ []).flatMap Prod.snd = rows.flatMap Prod.snd := by
    intro rows
    induction rows with
    | nil => rfl
    | cons row rest ih =>
      by_cases hr : row.2 = []
      · simpa [hr] using ih
      · simpa [hr] using ih
  rw [hlayout, ha.layout, hempty, List.flatMap_map, housed]

theorem length_references (hn : (facts.map FileFacts.path).Nodup)
    (hh : ∀ token path, homes.get? token = some path →
      ∃ f ∈ facts, f.path = path ∧ token ∈ f.definitions.keys) :
    (facts.flatMap FileFacts.references).length = a.dropped + a.callers.listed.length := by
  have hlisted : a.callers.listed.length =
      (facts.flatMap FileFacts.references).countP fun token => token ∈ housed homes facts := by
    rw [ha.listed_eq]
    exact length_flatMap_of_count (nodup_housed homes hn) (length_callersIn facts)
  have hdropped : a.dropped = (facts.flatMap FileFacts.references).countP fun token =>
      ¬ token ∈ housed homes facts := by
    rw [ha.dropped]
    refine List.countP_congr fun token _ => ?_
    simp [mem_housed hh]
  have hsplit := (facts.flatMap FileFacts.references).length_eq_countP_add_countP
    fun token => decide (token ∈ housed homes facts)
  simp only [decide_eq_true_eq] at hsplit
  rw [hlisted, hdropped, hsplit, Nat.add_comm]

theorem mem_paths_of_list {path token caller : String} {list : List String}
    (hl : a.callers.list? path token = some list) (hc : caller ∈ list) :
    caller ∈ facts.map FileFacts.path := by
  rw [ha.list] at hl
  split at hl
  · obtain rfl := Option.some.inj hl
    obtain ⟨f, hf, hm⟩ := List.mem_flatMap.1 hc
    exact List.mem_map.2 ⟨f, hf, (List.eq_of_mem_replicate hm).symm⟩
  · cases hl

end Lists

end Callers

namespace Report

variable {σ : Type} [ScoreArithmetic σ]

theorem boostedRow_ok {rule : ScoringRule σ} {calls : Table String Int}
    {row row' : String × Table String σ} (h : boostedRow rule calls row = .ok row') :
    (row'.1, row'.2.keys) = (row.1, row.2.keys) := by
  rw [boostedRow] at h
  generalize ht : row.2.traverse _ = out at h
  cases out with
  | error e => simp [Except.map] at h
  | ok scores =>
    simp only [Except.map, Except.ok.injEq] at h
    rw [← h, Table.keys_of_traverse _ row.2 scores ht]

theorem rows_scores [BEq σ] {rule : ScoringRule σ} {calls : Table String Int}
    {raw scores : ScoreTable σ}
    (h : Report.scores rule calls raw = .ok scores) :
    scores.entries.map (fun row => (row.1, row.2.keys)) =
      raw.entries.map fun row => (row.1, row.2.keys) := by
  cases hb : boosted rule calls raw with
  | error e => simp [Report.scores, hb, Except.map] at h
  | ok raised =>
    simp only [Report.scores, hb, Except.map, Except.ok.injEq] at h
    have hraised : raised.entries.map (fun row => (row.1, row.2.keys)) =
        raw.entries.map fun row => (row.1, row.2.keys) := by
      exact map_of_mapM (fun row : String × Table String σ => (row.1, row.2.keys)) _
        (fun row row' hrow => boostedRow_ok hrow) (boosted_eq_ok hb)
    rw [← h, entries_rounded, List.map_map, ← hraised]
    simp [roundedRow, Function.comp_def]

end Report

namespace Extraction

variable (w : Workspace)

theorem idle_of_error {limit : Int} {r : Registry} {path : String}
    (h : (factsOf w limit r path).error.isSome) : (factsOf w limit r path).Idle := by
  rcases factsOf_cases w limit r path with
    hidle | ⟨language, profile, source, t, f, hl, ha, hs, hp, ho⟩
  · exact hidle
  · have houtcome : (attempt w limit r path).outcome =
        (ofSource w r (FileFacts.blank path (some language)) source).outcome := by
      simp [attempt, hl, ofFile_of_read w limit (FileFacts.blank path (some language)) hs r]
    rw [houtcome, ofSource_of_tree w hl ha hp] at ho
    cases hq : w.parser.queryFault? path with
    | some message => simp [hq] at ho
    | none =>
      rw [hq] at ho
      have hfacts : factsOf w limit r path = factsOfTree path language source profile.query t := by
        rw [factsOf, houtcome, ofSource_of_tree w hl ha hp, hq, settle]
      simp [hfacts, factsOfTree_marks] at h

theorem idle_of_failed {megabytes : Float} {r : Registry} {path : String}
    (h : (contribution w megabytes r path).error.isSome) :
    (contribution w megabytes r path).Idle := by
  cases hm : sizeLimit megabytes with
  | error e =>
    simp only [contribution, hm]
    exact idle_broken r path _
  | ok limit =>
    rw [contribution_of_limit w hm] at h ⊢
    exact idle_of_error w h

end Extraction

variable {σ : Type} [BEq σ] [LT σ] [DecidableLT σ] [ScoreArithmetic σ]

section Returned

variable {w : Workspace} {how : ExtractionRule} (hs : how.schedule.IsOrder) {rule : ScoringRule σ}
  {durationMs : Nat} {r : Registry} {given : List String} {atlas : Atlas σ}
  (h : (buildAtlas w how rule durationMs r given).outcome = .ok atlas)

include hs h

theorem layout_of_build :
    atlas.scores.entries.map (fun row => (row.1, row.2.keys)) =
      (placedFacts w how.maxFileSizeMb r given).map fun f => (f.path, f.definitions.keys) := by
  have hn := nodup_placedFacts w how.maxFileSizeMb r given
  obtain ⟨raw, _, hraw, _, hscores, _⟩ := Atlas.ofFacts_ok hn (ofFacts_of_build hs h)
  exact (Report.rows_scores hscores).trans (Score.rows_ofFacts hn hraw)

theorem references_of_build :
    atlas.stats.references = atlas.stats.referencesDropped + atlas.callers.listed.length ∧
      ∀ path token list, atlas.callers.list? path token = some list →
        ∀ caller ∈ list, caller ∈ atlas.scores.keys := by
  have hn := nodup_placedFacts w how.maxFileSizeMb r given
  obtain ⟨raw, a, hraw, ha, _, hcallers, hstats⟩ := Atlas.ofFacts_ok hn (ofFacts_of_build hs h)
  have hhome := fun token => (definers_ofFacts hn hraw token).2
  refine ⟨?_, ?_⟩
  · rw [hstats, hcallers]
    exact ha.length_references hn hhome
  · intro path token list hl caller hc
    rw [hcallers] at hl
    rw [keys_of_build hs h, ← map_path_placedFacts]
    exact ha.mem_paths_of_list hl hc

theorem definitions_of_build : atlas.stats.definitions = atlas.scores.definitions.length := by
  obtain ⟨_, hstats⟩ := stats_of_build hs h
  have hcount : atlas.stats.definitions =
      ((placedFacts w how.maxFileSizeMb r given).flatMap fun f => f.definitions.keys).length := by
    rw [hstats]
    rfl
  have hrows : (atlas.scores.entries.flatMap fun row => row.2.keys) =
      (placedFacts w how.maxFileSizeMb r given).flatMap fun f => f.definitions.keys := by
    have hlayout := congrArg (List.flatMap Prod.snd) (layout_of_build hs h)
    simpa only [List.flatMap_map] using hlayout
  have htokens : atlas.scores.definitions.map Prod.snd =
      atlas.scores.entries.flatMap fun row => row.2.keys := by
    simp [ScoreTable.definitions, List.map_flatMap, Function.comp_def]
  rw [hcount, ← hrows, ← htokens, List.length_map]

theorem processed_of_build : atlas.stats.filesProcessed = atlas.scores.keys.length := by
  obtain ⟨_, hstats⟩ := stats_of_build hs h
  rw [keys_of_build hs h, ← map_path_placedFacts, List.length_map, hstats]
  rfl

theorem paths_of_build :
    atlas.stats.filesProcessed + atlas.stats.filesUnsupported = given.toFinset.card := by
  have hdistinct : given.toFinset.card = (firstSeen given).length := by
    rw [← List.toFinset_card_of_nodup (nodup_firstSeen given)]
    congr 1
    ext path
    simp
  have hkeys : ((firstSeen given).filter fun path => path ∈ atlas.scores.keys) =
      atlas.scores.keys := by
    rw [keys_of_build hs h]
    refine List.filter_congr fun path hp => ?_
    simp [hp]
  have hsplit := (firstSeen given).length_eq_length_filter_add
    fun path => decide (path ∈ atlas.scores.keys)
  rw [hkeys] at hsplit
  rw [hdistinct, hsplit, processed_of_build hs h, unsupported_of_build hs h]
  simp

theorem batch_of_build :
    ∃ batch, Extraction.extract w how.maxFileSizeMb how.workers how.schedule r
        (firstSeen given) = .ok batch ∧
      batch.facts = (firstSeen given).map (Extraction.contribution w how.maxFileSizeMb r) := by
  have hfacts := Extraction.facts_extract w how.maxFileSizeMb hs how.workers r (firstSeen given)
  rw [outcome_buildAtlas] at h
  cases he : Extraction.extract w how.maxFileSizeMb how.workers how.schedule r
      (firstSeen given) with
  | error e => simp [he] at h
  | ok batch =>
    refine ⟨batch, rfl, ?_⟩
    rw [he] at hfacts
    split at hfacts
    · simpa [Except.map] using hfacts
    · cases hm : Extraction.sizeLimit how.maxFileSizeMb with
      | error e => simp [hm, Except.map] at hfacts
      | ok limit => simpa [hm, Except.map] using hfacts

theorem failed_of_build :
    ∃ batch, Extraction.extract w how.maxFileSizeMb how.workers how.schedule r
        (firstSeen given) = .ok batch ∧
      atlas.stats.filesFailed = (batch.facts.countP fun f => f.error.isSome) ∧
      ∀ f ∈ batch.facts, f.error.isSome → atlas.scores.get? f.path = some Table.empty := by
  obtain ⟨_, hstats⟩ := stats_of_build hs h
  obtain ⟨batch, hb, hfacts⟩ := batch_of_build hs h
  have hidle : ∀ f ∈ batch.facts, f.error.isSome → f.Idle := by
    intro f hf
    rw [hfacts] at hf
    obtain ⟨path, _, rfl⟩ := List.mem_map.1 hf
    exact Extraction.idle_of_failed w
  refine ⟨batch, hb, ?_, ?_⟩
  · have hcount : atlas.stats.filesFailed =
        (placedFacts w how.maxFileSizeMb r given).countP fun f => f.error.isSome := by
      rw [hstats]
      rfl
    rw [hcount, placedFacts, ← hfacts, List.countP_filter]
    refine List.countP_congr fun f hf => ?_
    cases he : f.error.isSome with
    | false => simp
    | true => simp [← (hidle f hf he).excused, he]
  · intro f hf he
    have hf' := hidle f hf he
    have hplaced : f ∈ placedFacts w how.maxFileSizeMb r given := by
      rw [placedFacts, ← hfacts, List.mem_filter]
      exact ⟨hf, hf'.excused.symm.trans he⟩
    have hm : (f.path, f.definitions.keys) ∈
        atlas.scores.entries.map fun row => (row.1, row.2.keys) := by
      rw [layout_of_build hs h]
      exact List.mem_map.2 ⟨f, hplaced, rfl⟩
    obtain ⟨⟨path, row⟩, hrow, heq⟩ := List.mem_map.1 hm
    obtain ⟨rfl, hkeys⟩ := Prod.mk.inj heq
    have hempty : row = Table.empty := by
      rw [hf'.blank.1, Table.keys_empty] at hkeys
      exact Table.ext (List.map_eq_nil_iff.1 hkeys)
    rw [← hempty]
    exact (Table.get?_eq_some_iff ..).2 hrow

end Returned

/-- The counters of a build that returns tell the size of its result: references are dropped or
stand in a caller list, definitions are the scored ones, and every path is processed, as a row of
the score table, or unsupported. A failed file has an empty row, and every caller has a row. -/
theorem counters_of_build (w : Workspace) (how : ExtractionRule) (hs : how.schedule.IsOrder)
    (rule : ScoringRule σ) (durationMs : Nat) (r : Registry) (given : List String)
    {atlas : Atlas σ} (h : (buildAtlas w how rule durationMs r given).outcome = .ok atlas) :
    atlas.stats.references = atlas.stats.referencesDropped + atlas.callers.listed.length ∧
      atlas.stats.definitions = atlas.scores.definitions.length ∧
      atlas.stats.filesProcessed = atlas.scores.keys.length ∧
      atlas.stats.filesProcessed + atlas.stats.filesUnsupported = given.toFinset.card ∧
      atlas.stats.filesFailed ≤ atlas.stats.filesProcessed ∧
      (∃ batch, Extraction.extract w how.maxFileSizeMb how.workers how.schedule r
          (firstSeen given) = .ok batch ∧
        atlas.stats.filesFailed = (batch.facts.countP fun f => f.error.isSome) ∧
        ∀ f ∈ batch.facts, f.error.isSome → atlas.scores.get? f.path = some Table.empty) ∧
      ∀ path token list, atlas.callers.list? path token = some list →
        ∀ caller ∈ list, caller ∈ atlas.scores.keys := by
  obtain ⟨hreferences, hcallers⟩ := references_of_build hs h
  obtain ⟨batch, hb, hfailed, hrow⟩ := failed_of_build hs h
  refine ⟨hreferences, definitions_of_build hs h, processed_of_build hs h, paths_of_build hs h,
    ?_, ⟨batch, hb, hfailed, hrow⟩, hcallers⟩
  obtain ⟨_, hstats⟩ := stats_of_build hs h
  rw [hstats]
  exact List.countP_le_length

open Workspace.Sample in
theorem counters_of_sample : how.schedule.IsOrder ∧ ∃ atlas : Atlas ℝ,
    (buildAtlas workspace how rule 0 registry paths).outcome = .ok atlas ∧
      atlas.stats.references = atlas.stats.referencesDropped + atlas.callers.listed.length ∧
      atlas.stats.filesProcessed + atlas.stats.filesUnsupported = 3 ∧
      atlas.callers.list? "a.py" "f" = some ["c.py"] ∧ "c.py" ∈ atlas.scores.keys := by
  obtain ⟨atlas, raw, a, ho, hraw, ha, hcallers⟩ :=
    buildAtlas_exact how isOrder_how rule 0 extract_sample
  have hhome : raw.definers.get? "f" = some "a.py" :=
    (Score.get?_definers_exact accepted_rule (nodup_supported how isOrder_how extract_sample) hraw
      "f" "a.py").2 (least_definer _)
  have hlist : atlas.callers.list? "a.py" "f" = some ["c.py"] := by
    obtain ⟨b, a', c, hfacts, hvb, hva, hvc⟩ := supported_sequential
    simp only [view, Prod.mk.injEq] at hvb hva hvc
    rw [hcallers, ha.list]
    simp [hhome, hfacts, hvb, hva, hvc]
  obtain ⟨hreferences, _, _, hpaths, _, _, hkeys⟩ :=
    counters_of_build workspace how isOrder_how rule 0 registry paths ho
  exact ⟨isOrder_how, atlas, ho, hreferences, hpaths.trans (by decide), hlist,
    hkeys _ _ _ hlist "c.py" (by simp)⟩

end SymbolAtlas
