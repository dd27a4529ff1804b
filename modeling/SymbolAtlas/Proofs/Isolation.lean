import SymbolAtlas.Proofs.Contributions
import SymbolAtlas.Proofs.Reports

/-!
One more file in a batch. A file without definitions takes no token over and moves no score; it
only adds itself to caller lists. A file that is unsupported, cannot be read or parsed, or breaks
off does not even do that: it shows in its own empty row and in the counters.
-/

set_option autoImplicit false

namespace SymbolAtlas

namespace Extraction

variable (w : Workspace) (limit : Int)

/-- What keeps a file from contributing anything. -/
inductive Spoilt (r : Registry) (path : String) : Prop
  | unknown (h : r.languageFor path = none)
  | unloadable {language : Language} (hl : r.languageFor path = some language)
      (h : r.answer w.installed language = .ok none)
  | missing {e : Errno} (h : w.find (w.root.below (Path.ofText path)) = .error e)
  | unreadable {e : Errno} (h : w.read (w.root.below (Path.ofText path)) = .error e)
  | oversized {entry : Entry} (hf : w.find (w.root.below (Path.ofText path)) = .ok entry)
      (h : limit < (entry.size : Int))
  | unparsable {language : Language} {profile : Profile} {source : List UInt8}
      (hl : r.languageFor path = some language)
      (ha : r.answer w.installed language = .ok (some profile))
      (hr : w.read (w.root.below (Path.ofText path)) = .ok source)
      (h : ∀ t, w.parser.parse path profile.pack.language source ≠ .tree t)
  | raised {fault : ExtractionFault} (h : (attempt w limit r path).outcome = .error fault)

theorem source?_eq_some {path : String} {source : List UInt8}
    (h : source? w limit path = some source) :
    ∃ entry, w.find (w.root.below (Path.ofText path)) = .ok entry ∧
      ¬ limit < (entry.size : Int) ∧ w.read (w.root.below (Path.ofText path)) = .ok source := by
  let full := w.root.below (Path.ofText path)
  by_cases hn : holdsNul full.text = true
  · simp [source?, full, hn] at h
  · cases hf : w.find full with
    | error e => simp [source?, full, hn, hf] at h
    | ok entry =>
      by_cases hs : limit < (entry.size : Int)
      · simp [source?, full, hn, hf, hs] at h
      · cases hr : w.read full with
        | error e => simp [source?, full, hn, hf, hs, hr, Except.toOption] at h
        | ok bytes =>
          have hb : bytes = source := by
            simpa [source?, full, hn, hf, hs, hr, Except.toOption] using h
          exact ⟨entry, rfl, hs, by rw [← hb]⟩

end Extraction

/-- A file that contributes nothing, and says why if it has a place in the result. -/
structure FileFacts.Idle (f : FileFacts) : Prop where
  blank : f.IsBlank
  excused : f.error.isSome = f.isSupported

namespace Extraction

variable (w : Workspace) (limit : Int)

theorem idle_broken (r : Registry) (path : String) (fault : ExtractionFault) :
    (broken r path fault).Idle :=
  ⟨isBlank_broken r path fault, rfl⟩

theorem factsOf_of_ok {r : Registry} {path : String} {f : FileFacts}
    (h : (attempt w limit r path).outcome = .ok f) : factsOf w limit r path = f := by
  simp [factsOf, h, settle]

theorem factsOf_of_error {r : Registry} {path : String} {fault : ExtractionFault}
    (h : (attempt w limit r path).outcome = .error fault) :
    factsOf w limit r path = broken r path fault := by
  simp [factsOf, h, settle]

theorem factsOf_cases (r : Registry) (path : String) :
    (factsOf w limit r path).Idle ∨
      ∃ language profile source t f, r.languageFor path = some language ∧
        r.answer w.installed language = .ok (some profile) ∧ source? w limit path = some source ∧
        w.parser.parse path profile.pack.language source = .tree t ∧
        (attempt w limit r path).outcome = .ok f := by
  cases hl : r.languageFor path with
  | none =>
    have ho : (attempt w limit r path).outcome =
        .ok { FileFacts.blank path none with unsupported := true } := by simp [attempt, hl]
    rw [factsOf_of_ok w limit ho]
    exact .inl ⟨⟨rfl, rfl, rfl⟩, rfl⟩
  | some language =>
    cases hs : source? w limit path with
    | none =>
      obtain ⟨outcome, events, he, ho⟩ :=
        ofFile_of_unread w limit (FileFacts.blank path (some language)) hs
      have houtcome : (attempt w limit r path).outcome = outcome := by simp [attempt, hl, he]
      rcases ho with rfl | ⟨why, rfl⟩
      · rw [factsOf_of_error w limit houtcome]
        exact .inl (idle_broken r path _)
      · rw [factsOf_of_ok w limit houtcome]
        exact .inl ⟨⟨rfl, rfl, rfl⟩, rfl⟩
    | some source =>
      have houtcome : (attempt w limit r path).outcome =
          (ofSource w r (FileFacts.blank path (some language)) source).outcome := by
        simp [attempt, hl, ofFile_of_read w limit (FileFacts.blank path (some language)) hs r]
      obtain ⟨_, hparsed⟩ := parseSource_eq w r hl source
      have hblank : (FileFacts.blank path (some language)).path = path := rfl
      rcases ha : r.answer w.installed language with crash | (_ | profile)
      · rw [ha] at hparsed
        have ho : (attempt w limit r path).outcome = .error (.crashed crash) := by
          simp [houtcome, ofSource, hblank, hparsed]
        rw [factsOf_of_error w limit ho]
        exact .inl (idle_broken r path _)
      · rw [ha] at hparsed
        have ho : (attempt w limit r path).outcome =
            .ok { FileFacts.blank path (some language) with unsupported := true } := by
          simp [houtcome, ofSource, hblank, hparsed]
        rw [factsOf_of_ok w limit ho]
        exact .inl ⟨⟨rfl, rfl, rfl⟩, rfl⟩
      · rw [ha] at hparsed
        have malformed : ∀ message,
            (parseSource w.installed w.parser r path source).outcome =
              .failed (.malformed message) → (factsOf w limit r path).Idle := by
          intro message hm
          have ho : (attempt w limit r path).outcome =
              .ok { FileFacts.blank path (some language) with
                error := some ("malformed: " ++ message) } := by
            simp [houtcome, ofSource, hblank, hm]
          rw [factsOf_of_ok w limit ho]
          exact ⟨⟨rfl, rfl, rfl⟩, rfl⟩
        cases hp : w.parser.parse path profile.pack.language source with
        | noTree => exact .inl (malformed _ (by simpa [hp, ParserAnswer.outcome] using hparsed))
        | refused message =>
          exact .inl (malformed _ (by simpa [hp, ParserAnswer.outcome] using hparsed))
        | crashed crash =>
          have ho : (attempt w limit r path).outcome = .error (.crashed crash) := by
            simp [houtcome, ofSource, hblank, hparsed, hp, ParserAnswer.outcome]
          rw [factsOf_of_error w limit ho]
          exact .inl (idle_broken r path _)
        | tree t =>
          have ho := houtcome.trans (ofSource_of_tree w hl ha hp)
          cases hq : w.parser.queryFault? path with
          | some message =>
            rw [hq] at ho
            rw [factsOf_of_error w limit ho]
            exact .inl (idle_broken r path _)
          | none =>
            rw [hq] at ho
            exact .inr ⟨language, profile, source, t, _, rfl, ha, rfl, hp, ho⟩

theorem idle_of_spoilt {r : Registry} {path : String} (h : Spoilt w limit r path) :
    (factsOf w limit r path).Idle := by
  rcases factsOf_cases w limit r path with
    hidle | ⟨language, profile, source, t, f, hl, ha, hs, hp, ho⟩
  · exact hidle
  · obtain ⟨entry, hf, hsize, hr⟩ := source?_eq_some w limit hs
    cases h with
    | unknown h => simp [hl] at h
    | unloadable hl' h =>
      obtain rfl := Option.some.inj (hl.symm.trans hl')
      simp [ha] at h
    | missing h => simp [hf] at h
    | unreadable h => simp [hr] at h
    | oversized hf' h =>
      obtain rfl := Except.ok.inj (hf.symm.trans hf')
      exact absurd h hsize
    | unparsable hl' ha' hr' h =>
      obtain rfl := Option.some.inj (hl.symm.trans hl')
      obtain rfl := Option.some.inj (Except.ok.inj (ha.symm.trans ha'))
      obtain rfl := Except.ok.inj (hr.symm.trans hr')
      exact absurd hp (h t)
    | raised h => simp [ho] at h

end Extraction

theorem filter_middle {α : Type} {p : α → Bool} {as ms bs : List α}
    (hothers : ∀ y ∈ as ++ bs, p y = true) (hmiddle : ∀ y ∈ ms, p y = false) :
    (as ++ ms ++ bs).filter p = as ++ bs := by
  have hnil : ms.filter p = [] := List.filter_eq_nil_iff.2 fun y hy => by simp [hmiddle y hy]
  rw [List.filter_append, List.filter_append, hnil, List.append_nil, ← List.filter_append]
  exact List.filter_eq_self.2 hothers

theorem ne_of_nodup_middle {α κ : Type} (key : α → κ) {x : α} {as bs : List α}
    (hn : ((as ++ x :: bs).map key).Nodup) : ∀ y ∈ as ++ bs, key y ≠ key x := by
  rw [List.map_append, List.map_cons, List.nodup_middle, List.nodup_cons, ← List.map_append] at hn
  intro y hy he
  exact hn.1 (List.mem_map.2 ⟨y, hy, he⟩)

section Insertion

variable {σ : Type} {f : FileFacts} {fs gs : List FileFacts}

def amid (fs : List FileFacts) (f : FileFacts) (gs : List FileFacts) : List FileFacts :=
  fs ++ (if f.unsupported then [] else [f]) ++ gs

theorem filter_amid (hothers : ∀ g ∈ fs ++ gs, g.path ≠ f.path) :
    ((amid fs f gs).filter fun g => g.path ≠ f.path) = fs ++ gs := by
  apply filter_middle
  · intro g hg
    exact decide_eq_true (hothers g hg)
  · intro g hg
    cases hu : f.unsupported with
    | true => simp [hu] at hg
    | false =>
      obtain rfl : g = f := by simpa [hu] using hg
      simp

theorem mem_amid (hothers : ∀ g ∈ fs ++ gs, g.path ≠ f.path) :
    ∀ g ∈ amid fs f gs, g.path = f.path → g = f := by
  intro g hg hp
  rw [amid, List.append_assoc, List.mem_append, List.mem_append] at hg
  rcases hg with hg | hg | hg
  · exact absurd hp (hothers g (List.mem_append_left _ hg))
  · cases hu : f.unsupported with
    | true => simp [hu] at hg
    | false => simpa [hu] using hg
  · exact absurd hp (hothers g (List.mem_append_right _ hg))

namespace Score

variable [ScoreArithmetic σ] (rule : ScoringRule σ)

theorem ofFile_of_empty (hf : f.definitions = Table.empty) :
    ofFile rule f = .ok Table.empty := by
  simp only [ofFile, hf]
  rfl

theorem ofFacts_insert (hf : f.definitions = Table.empty)
    (hn : ((fs ++ f :: gs).map FileFacts.path).Nodup) :
    (∃ e, ofFacts rule (fs ++ gs) = .error e ∧ ofFacts rule (fs ++ f :: gs) = .error e) ∨
      ∃ raw raw' as bs, ofFacts rule (fs ++ gs) = .ok raw ∧
        ofFacts rule (fs ++ f :: gs) = .ok raw' ∧ raw.entries = as ++ bs ∧
        raw'.entries = as ++ (f.path, Table.empty) :: bs := by
  have hsub : ((fs ++ gs).map FileFacts.path).Nodup :=
    ((List.sublist_cons_self f gs).append_left fs |>.map FileFacts.path).nodup hn
  have hrow : ((ofFile rule f).map fun scores => (f.path, scores)) = .ok (f.path, Table.empty) :=
    row_eq_ok_iff.2 ⟨rfl, ofFile_of_empty rule hf⟩
  rcases mapM_insert (f := fun g => (ofFile rule g).map fun scores => (g.path, scores)) hrow fs gs
    with ⟨e, he, he'⟩ | ⟨as, bs, hs, hs'⟩
  · exact .inl ⟨e, by rw [ofFacts, he], by rw [ofFacts, he']⟩
  · have hraw : ofFacts rule (fs ++ gs) = .ok (Table.ofList (as ++ bs)) := by rw [ofFacts, hs]
    have hraw' : ofFacts rule (fs ++ f :: gs) =
        .ok (Table.ofList (as ++ (f.path, Table.empty) :: bs)) := by rw [ofFacts, hs']
    have hrows := (ofFacts_mapM hsub hraw).symm.trans hs
    have hrows' := (ofFacts_mapM hn hraw').symm.trans hs'
    exact .inr ⟨_, _, as, bs, hraw, hraw', Except.ok.inj hrows, Except.ok.inj hrows'⟩

end Score

namespace ScoreTable

variable {raw raw' : ScoreTable σ} {path : String} {as bs : List (String × Table String σ)}
  (hraw : raw.entries = as ++ bs) (hraw' : raw'.entries = as ++ (path, Table.empty) :: bs)

include hraw hraw'

theorem definers_insert [BEq σ] [LT σ] [DecidableLT σ] : raw'.definers = raw.definers := by
  rw [definers, definers, hraw, hraw', List.foldl_append, List.foldl_append, List.foldl_cons]
  rfl

theorem score?_insert (p token : String) : raw'.score? p token = raw.score? p token := by
  have hoffers : raw'.offers = raw.offers := by
    rw [offers, offers, hraw, hraw', List.flatMap_append, List.flatMap_append, List.flatMap_cons]
    rfl
  refine Option.ext fun score => ?_
  rw [← mem_offers, ← mem_offers, hoffers]

end ScoreTable

/-- A file without definitions takes no token over. -/
theorem Score.ofFacts_amid [BEq σ] [LT σ] [DecidableLT σ] [ScoreArithmetic σ]
    (rule : ScoringRule σ) (hf : f.definitions = Table.empty)
    (hn : ((amid fs f gs).map FileFacts.path).Nodup) :
    (∃ e, ofFacts rule (fs ++ gs) = .error e ∧ ofFacts rule (amid fs f gs) = .error e) ∨
      ∃ raw raw', ofFacts rule (fs ++ gs) = .ok raw ∧ ofFacts rule (amid fs f gs) = .ok raw' ∧
        raw'.definers = raw.definers ∧ ∀ p token, raw'.score? p token = raw.score? p token := by
  cases hu : f.unsupported with
  | true =>
    have hamid : amid fs f gs = fs ++ gs := by simp [amid, hu]
    rw [hamid]
    cases hraw : ofFacts rule (fs ++ gs) with
    | error e => exact .inl ⟨e, rfl, rfl⟩
    | ok raw => exact .inr ⟨raw, raw, rfl, rfl, rfl, fun p token => rfl⟩
  | false =>
    have hamid : amid fs f gs = fs ++ f :: gs := by simp [amid, hu]
    rw [hamid] at hn ⊢
    rcases ofFacts_insert rule hf hn with
      he | ⟨raw, raw', as, bs, hraw, hraw', hrows, hrows'⟩
    · exact .inl he
    · exact .inr ⟨raw, raw', hraw, hraw', ScoreTable.definers_insert hrows hrows',
        ScoreTable.score?_insert hrows hrows'⟩

def CallerTable.without (callers : CallerTable) (caller : String) : CallerTable :=
  callers.mapWithKey fun _ lists => lists.mapWithKey fun _ list => list.filter (· ≠ caller)

theorem CallerTable.layout_without (callers : CallerTable) (caller : String) :
    (callers.without caller).layout = callers.layout := by
  simp [layout, without, Table.mapWithKey, Table.keys, List.map_map, Function.comp_def]

theorem CallerTable.list?_without (callers : CallerTable) (caller path token : String) :
    (callers.without caller).list? path token =
      (callers.list? path token).map fun list => list.filter (· ≠ caller) := by
  cases h : callers.get? path with
  | none => simp [list?, without, h]
  | some lists => simp [list?, without, h]

namespace Callers

theorem flatMap_filter {α β : Type} {p : α → Bool} {φ : α → List β} {xs : List α}
    (h : ∀ x ∈ xs, p x = false → φ x = []) : (xs.filter p).flatMap φ = xs.flatMap φ := by
  induction xs with
  | nil => rfl
  | cons x rest ih =>
    have hrest := ih fun y hy => h y (List.mem_cons_of_mem _ hy)
    cases hx : p x with
    | true => simp [hx, hrest]
    | false => simp [hx, hrest, h x List.mem_cons_self hx]

theorem filter_calls (facts : List FileFacts) (path token : String) :
    (facts.flatMap fun g => List.replicate (g.references.count token) g.path).filter (· ≠ path) =
      (facts.filter fun g => g.path ≠ path).flatMap fun g =>
        List.replicate (g.references.count token) g.path := by
  induction facts with
  | nil => rfl
  | cons g rest ih =>
    rw [List.flatMap_cons, List.filter_append, ih, List.filter_cons]
    by_cases hg : g.path = path
    · simp [hg]
    · simp [hg]

namespace Lists

variable {facts facts' : List FileFacts} {homes : Table String String} {a a' : Attribution}
  (h : Lists facts homes a) (h' : Lists facts' homes a') {path : String}
  (hd : ∀ g ∈ facts', g.path = path → g.definitions = Table.empty)
  (hfacts : (facts'.filter fun g => g.path ≠ path) = facts)

include h h' hd hfacts

theorem layout_without : a'.callers.layout = a.callers.layout := by
  have hempty : ∀ g ∈ facts', atHome homes g.path g.definitions.keys ≠ [] → g.path ≠ path := by
    intro g hg hne he
    exact hne (by simp [hd g hg he, atHome])
  rw [h.layout, h'.layout, ← hfacts, List.filter_map, List.filter_map, List.filter_filter]
  refine congrArg _ (List.filter_congr fun g hg => ?_)
  by_cases hne : atHome homes g.path g.definitions.keys = []
  · simp [hne]
  · simp [hne, hempty g hg hne]

/-- A file without definitions only adds itself to lists. -/
theorem callers_without : a'.callers.without path = a.callers := by
  apply CallerTable.eq_of_list?
  · rw [CallerTable.layout_without, h.layout_without h' hd hfacts]
  · intro p token
    rw [CallerTable.list?_without, h.list, h'.list]
    by_cases hp : homes.get? token = some p
    · simp only [hp, if_true, Option.map_some, filter_calls, hfacts]
    · simp [hp]

theorem callers_unchanged (href : ∀ g ∈ facts', g.path = path → g.references = []) :
    a'.callers = a.callers ∧ a'.dropped = a.dropped := by
  constructor
  · refine CallerTable.eq_of_list? (h.layout_without h' hd hfacts) fun p token => ?_
    rw [h.list, h'.list, ← hfacts, flatMap_filter]
    intro g hg hp
    simp [href g hg (by simpa using hp)]
  · rw [h.dropped, h'.dropped, ← hfacts, flatMap_filter]
    intro g hg hp
    exact href g hg (by simpa using hp)

end Lists

theorem external_insert (href : f.references = []) :
    external (fs ++ f :: gs) = external (fs ++ gs) := by
  simp [external, href]

end Callers

namespace Atlas

variable [BEq σ] [LT σ] [DecidableLT σ] [ScoreArithmetic σ]

/-- How the result differs by a file that contributes nothing. -/
structure Beside (facts : FileFacts) (atlas atlas' : Atlas σ) : Prop where
  callers : atlas'.callers = atlas.callers
  others : (atlas'.scores.entries.filter fun row => row.1 ≠ facts.path) = atlas.scores.entries
  own : atlas'.scores.get? facts.path = if facts.unsupported then none else some Table.empty
  stats : atlas'.untimed.stats =
    if facts.unsupported then
      { atlas.untimed.stats with filesUnsupported := atlas.stats.filesUnsupported + 1 }
    else
      { atlas.untimed.stats with
        filesProcessed := atlas.stats.filesProcessed + 1
        filesFailed := atlas.stats.filesFailed + 1 }

variable {rule : ScoringRule σ}

theorem ofFacts_recount (facts : List FileFacts) (paths paths' durationMs durationMs' : Nat) :
    ofFacts rule paths' durationMs' facts =
      (ofFacts rule paths durationMs facts).map fun atlas =>
        { atlas with stats := { atlas.stats with
            filesUnsupported := paths' - facts.length, durationMs := durationMs' } } := by
  cases hraw : Score.ofFacts rule facts with
  | error e => simp [ofFacts, hraw, Except.map]
  | ok raw =>
    cases ha : Callers.assign raw facts raw.definers with
    | error e => simp [ofFacts, hraw, ha, Except.map]
    | ok a =>
      cases hs : Report.scores rule
          ((Callers.external facts).mapWithKey fun _ (n : Nat) => (n : Int)) raw with
      | error e => simp [ofFacts, hraw, ha, hs, Except.map]
      | ok scores => simp [ofFacts, hraw, ha, hs, Except.map, count]

theorem ofFacts_unsupported (hu : f.unsupported = true) {facts : List FileFacts}
    (hn : (facts.map FileFacts.path).Nodup) (hothers : ∀ g ∈ facts, g.path ≠ f.path)
    {paths : Nat} (hlength : facts.length ≤ paths) (durationMs durationMs' : Nat) :
    (∃ e, ofFacts rule paths durationMs facts = .error e ∧
        ofFacts rule (paths + 1) durationMs' facts = .error e) ∨
      ∃ atlas atlas', ofFacts rule paths durationMs facts = .ok atlas ∧
        ofFacts rule (paths + 1) durationMs' facts = .ok atlas' ∧ Beside f atlas atlas' := by
  rw [ofFacts_recount facts paths (paths + 1) durationMs durationMs']
  cases ho : ofFacts rule paths durationMs facts with
  | error e => exact .inl ⟨e, rfl, rfl⟩
  | ok atlas =>
    obtain ⟨raw, a, hraw, _, hscores, _, hstats⟩ := ofFacts_ok hn ho
    have hkeys : f.path ∉ atlas.scores.keys := by
      rw [Report.keys_scores hscores, Score.keys_ofFacts hn hraw, List.mem_map]
      rintro ⟨g, hg, hp⟩
      exact hothers g hg hp
    refine .inr ⟨atlas, _, rfl, rfl, rfl, ?_, ?_, ?_⟩
    · refine List.filter_eq_self.2 fun row hrow => decide_eq_true fun he => ?_
      exact hkeys (he ▸ List.mem_map_of_mem hrow)
    · simpa [hu] using (Table.get?_eq_none_iff atlas.scores f.path).2 hkeys
    · simp [untimed, hu, hstats, count]
      omega

theorem ofFacts_supported (hf : f.Idle) (hu : f.unsupported = false)
    (hn : ((fs ++ f :: gs).map FileFacts.path).Nodup) (paths durationMs durationMs' : Nat) :
    (∃ e, ofFacts rule paths durationMs (fs ++ gs) = .error e ∧
        ofFacts rule (paths + 1) durationMs' (fs ++ f :: gs) = .error e) ∨
      ∃ atlas atlas', ofFacts rule paths durationMs (fs ++ gs) = .ok atlas ∧
        ofFacts rule (paths + 1) durationMs' (fs ++ f :: gs) = .ok atlas' ∧
        Beside f atlas atlas' := by
  obtain ⟨⟨hd, hr, _⟩, he⟩ := hf
  have herror : f.error.isSome = true := by rw [he, FileFacts.isSupported, hu]; rfl
  have hsub : ((fs ++ gs).map FileFacts.path).Nodup :=
    ((List.sublist_cons_self f gs).append_left fs |>.map FileFacts.path).nodup hn
  rcases Score.ofFacts_insert rule hd hn with
    ⟨e, hraw, hraw'⟩ | ⟨raw, raw', as, bs, hraw, hraw', hrows, hrows'⟩
  · exact .inl ⟨.arithmetic e, by simp [ofFacts, hraw], by simp [ofFacts, hraw']⟩
  · obtain ⟨a, ha, hatlas⟩ := ofFacts_eq hsub hraw paths durationMs
    obtain ⟨a', ha', hatlas'⟩ := ofFacts_eq hn hraw' (paths + 1) durationMs'
    rw [ScoreTable.definers_insert hrows hrows'] at ha'
    have hothers := ne_of_nodup_middle FileFacts.path hn
    have hamid : amid fs f gs = fs ++ f :: gs := by simp [amid, hu]
    have hfile := mem_amid hothers
    have hfilter := filter_amid hothers
    rw [hamid] at hfile hfilter
    obtain ⟨hcallers, hdropped⟩ := ha.callers_unchanged ha'
      (fun g hg hp => hfile g hg hp ▸ hd) hfilter fun g hg hp => hfile g hg hp ▸ hr
    rw [hatlas, hatlas', Callers.external_insert hr]
    rcases Report.scores_insert rule
        ((Callers.external (fs ++ gs)).mapWithKey fun _ (n : Nat) => (n : Int)) hrows hrows'
      with ⟨e, hs, hs'⟩ | ⟨out, out', cs, ds, hs, hs', hout, hout'⟩
    · exact .inl ⟨.arithmetic e, by simp [hs], by simp [hs']⟩
    · have hrest : (out'.entries.filter fun row => row.1 ≠ f.path) = out.entries := by
        have hnodup := out'.nodup
        rw [hout'] at hnodup
        rw [hout, hout', ← List.singleton_append, ← List.append_assoc]
        apply filter_middle
        · intro row hrow
          exact decide_eq_true (ne_of_nodup_middle Prod.fst hnodup row hrow)
        · simp
      have hown : out'.get? f.path = some Table.empty :=
        (Table.get?_eq_some_iff ..).2 (by simp [hout'])
      refine .inr ⟨⟨out, a.callers, count paths (fs ++ gs) a.dropped durationMs⟩,
        ⟨out', a'.callers, count (paths + 1) (fs ++ f :: gs) a'.dropped durationMs'⟩,
        by simp only [hs], by simp only [hs'], hcallers, hrest,
        by simp [hown, hu], ?_⟩
      simp [untimed, count, hu, hd, hr, hdropped, herror]
      omega

theorem callers_amid (hf : f.definitions = Table.empty)
    (hn : ((fs ++ gs).map FileFacts.path).Nodup)
    (hn' : ((amid fs f gs).map FileFacts.path).Nodup)
    (hothers : ∀ g ∈ fs ++ gs, g.path ≠ f.path) {paths paths' durationMs durationMs' : Nat}
    {atlas atlas' : Atlas σ} (ho : ofFacts rule paths durationMs (fs ++ gs) = .ok atlas)
    (ho' : ofFacts rule paths' durationMs' (amid fs f gs) = .ok atlas') :
    atlas'.callers.without f.path = atlas.callers := by
  obtain ⟨raw, a, hraw, ha, _, hcallers, _⟩ := ofFacts_ok hn ho
  obtain ⟨raw', a', hraw', ha', _, hcallers', _⟩ := ofFacts_ok hn' ho'
  have hhomes : raw'.definers = raw.definers := by
    rcases Score.ofFacts_amid rule hf hn' with ⟨e, he, _⟩ | ⟨s, s', hs, hs', hhomes, _⟩
    · exact absurd (hraw.symm.trans he) (by simp)
    · obtain rfl := Except.ok.inj (hraw.symm.trans hs)
      obtain rfl := Except.ok.inj (hraw'.symm.trans hs')
      exact hhomes
  rw [hhomes] at ha'
  rw [hcallers, hcallers']
  exact ha.callers_without ha' (fun g hg hp => mem_amid hothers g hg hp ▸ hf)
    (filter_amid hothers)

variable (rule) in
/-- A file that contributes nothing leaves a failure as it is, and of a result everything but its
own row and the counters. -/
theorem ofFacts_amid (hf : f.Idle) (hn : ((amid fs f gs).map FileFacts.path).Nodup)
    (hothers : ∀ g ∈ fs ++ gs, g.path ≠ f.path) {paths : Nat}
    (hlength : (fs ++ gs).length ≤ paths) (durationMs durationMs' : Nat) :
    (∃ e, ofFacts rule paths durationMs (fs ++ gs) = .error e ∧
        ofFacts rule (paths + 1) durationMs' (amid fs f gs) = .error e) ∨
      ∃ atlas atlas', ofFacts rule paths durationMs (fs ++ gs) = .ok atlas ∧
        ofFacts rule (paths + 1) durationMs' (amid fs f gs) = .ok atlas' ∧
        Beside f atlas atlas' := by
  cases hu : f.unsupported with
  | true =>
    have hamid : amid fs f gs = fs ++ gs := by simp [amid, hu]
    rw [hamid] at hn ⊢
    exact ofFacts_unsupported hu hn hothers hlength durationMs durationMs'
  | false =>
    have hamid : amid fs f gs = fs ++ f :: gs := by simp [amid, hu]
    rw [hamid] at hn ⊢
    exact ofFacts_supported hf hu hn paths durationMs durationMs'

end Atlas

end Insertion

section Builds

variable {σ : Type} [BEq σ] [LT σ] [DecidableLT σ] [ScoreArithmetic σ]

/-- The batches of a build without and with one more file. The file has its facts in the second,
between those of the others. -/
theorem Extraction.extract_insert (w : Workspace) {how : ExtractionRule}
    (hs : how.schedule.IsOrder) {limit : Int} (hl : sizeLimit how.maxFileSizeMb = .ok limit)
    (r : Registry) {before behind : List String} {path : String} (hp : path ∉ before ++ behind) :
    ∃ batch batch' as bs,
      extract w how.maxFileSizeMb how.workers how.schedule r (firstSeen (before ++ behind)) =
          .ok batch ∧
        extract w how.maxFileSizeMb how.workers how.schedule r
            (firstSeen (before ++ path :: behind)) = .ok batch' ∧
        (firstSeen (before ++ path :: behind)).length =
          (firstSeen (before ++ behind)).length + 1 ∧
        batch.supported = as ++ bs ∧
        batch'.supported = amid as (factsOf w limit r path) bs ∧
        (∀ g ∈ as ++ bs, g.path ≠ path) ∧
        (as ++ bs).length ≤ (firstSeen (before ++ behind)).length := by
  have hfacts : ∀ paths, ∃ batch,
      extract w how.maxFileSizeMb how.workers how.schedule r paths = .ok batch ∧
        batch.facts = paths.map (factsOf w limit r) := by
    intro paths
    have h := facts_extract w how.maxFileSizeMb hs how.workers r paths
    have hc : contribution w how.maxFileSizeMb r = factsOf w limit r :=
      funext (contribution_of_limit w hl r)
    rw [hl, hc] at h
    cases he : extract w how.maxFileSizeMb how.workers how.schedule r paths with
    | error e => simp [he, Except.map] at h
    | ok batch =>
      refine ⟨batch, rfl, ?_⟩
      simpa [he, Except.map] using h
  obtain ⟨as, bs, hold, hnew⟩ := firstSeen_insert hp
  obtain ⟨batch, hb, hbf⟩ := hfacts (firstSeen (before ++ behind))
  obtain ⟨batch', hb', hbf'⟩ := hfacts (firstSeen (before ++ path :: behind))
  refine ⟨batch, batch', (as.map (factsOf w limit r)).filter FileFacts.isSupported,
    (bs.map (factsOf w limit r)).filter FileFacts.isSupported, hb, hb', ?_, ?_, ?_, ?_, ?_⟩
  · simp [hold, hnew]
    omega
  · simp [Batch.supported, hbf, hold]
  · cases hu : (factsOf w limit r path).unsupported with
    | true => simp [amid, Batch.supported, hbf', hnew, FileFacts.isSupported, hu]
    | false => simp [amid, Batch.supported, hbf', hnew, FileFacts.isSupported, hu]
  · rw [← List.filter_append, ← List.map_append, ← hold]
    intro g hg he
    obtain ⟨p, hmem, rfl⟩ := List.mem_map.1 (List.mem_filter.1 hg).1
    rw [(factsOf_tells w limit r p).1] at he
    exact hp (he ▸ (mem_firstSeen ..).1 hmem)
  · rw [← List.filter_append, ← List.map_append, ← hold]
    exact (List.length_filter_le _ _).trans (by simp)

/-- One more file leaves the others alone. Without definitions of its own it only adds itself to
caller lists; if it is spoilt, it shows nowhere but in its own row and in the counters. -/
theorem others_keep_beside_file (w : Workspace) {how : ExtractionRule}
    (hs : how.schedule.IsOrder)
    (hm : (how.maxFileSizeMb * 1024 * 1024).isFinite = true) (rule : ScoringRule σ)
    (durationMs durationMs' : Nat) (r : Registry) {before behind : List String} {path : String}
    (hp : path ∉ before ++ behind) :
    ∃ limit batch batch', Extraction.sizeLimit how.maxFileSizeMb = .ok limit ∧
      Extraction.extract w how.maxFileSizeMb how.workers how.schedule r
          (firstSeen (before ++ behind)) = .ok batch ∧
      Extraction.extract w how.maxFileSizeMb how.workers how.schedule r
          (firstSeen (before ++ path :: behind)) = .ok batch' ∧
      ((Extraction.factsOf w limit r path).definitions = Table.empty →
        (∀ e, Score.ofFacts rule batch.supported = .error e →
          Score.ofFacts rule batch'.supported = .error e) ∧
        (∀ raw, Score.ofFacts rule batch.supported = .ok raw →
          ∃ raw', Score.ofFacts rule batch'.supported = .ok raw' ∧
            raw'.definers = raw.definers ∧
            ∀ p token, raw'.score? p token = raw.score? p token) ∧
        (∀ atlas atlas',
          (buildAtlas w how rule durationMs r (before ++ behind)).outcome = .ok atlas →
          (buildAtlas w how rule durationMs' r (before ++ path :: behind)).outcome = .ok atlas' →
            atlas'.callers.without path = atlas.callers) ∧
        (∀ atlas,
          (buildAtlas w how rule durationMs r (before ++ behind)).outcome = .ok atlas →
          (rule.boost = true → ∀ token, ∃ factor : σ,
            Score.callBoost (Callers.externalCount batch'.supported token) = .ok factor) →
          ∃ atlas',
            (buildAtlas w how rule durationMs' r (before ++ path :: behind)).outcome =
              .ok atlas')) ∧
      (Extraction.Spoilt w limit r path →
        (Extraction.factsOf w limit r path).definitions = Table.empty ∧
        (Extraction.factsOf w limit r path).references = [] ∧
        (∀ e, (buildAtlas w how rule durationMs r (before ++ behind)).outcome = .error e →
          (buildAtlas w how rule durationMs' r (before ++ path :: behind)).outcome = .error e) ∧
        ∀ atlas,
          (buildAtlas w how rule durationMs r (before ++ behind)).outcome = .ok atlas →
          ∃ atlas',
            (buildAtlas w how rule durationMs' r (before ++ path :: behind)).outcome =
              .ok atlas' ∧
            Atlas.Beside (Extraction.factsOf w limit r path) atlas atlas') := by
  obtain ⟨limit, hl, _⟩ := Extraction.sizeLimit_of_finite hm
  obtain ⟨batch, batch', as, bs, hb, hb', hlength, has, has', hothers, hle⟩ :=
    Extraction.extract_insert w hs hl r hp
  have hn := nodup_supported how hs hb
  have hn' := nodup_supported how hs hb'
  have hpath := (Extraction.factsOf_tells w limit r path).1
  rw [← hpath] at hothers
  have hout : (buildAtlas w how rule durationMs r (before ++ behind)).outcome =
      Atlas.ofFacts rule (firstSeen (before ++ behind)).length durationMs (as ++ bs) := by
    rw [outcome_buildAtlas, hb, ← has]
  have hout' : (buildAtlas w how rule durationMs' r (before ++ path :: behind)).outcome =
      Atlas.ofFacts rule ((firstSeen (before ++ behind)).length + 1) durationMs'
        (amid as (Extraction.factsOf w limit r path) bs) := by
    rw [outcome_buildAtlas, hb', hlength, ← has']
  rw [has] at hn
  rw [has'] at hn'
  refine ⟨limit, batch, batch', hl, hb, hb', ?_, ?_⟩
  · intro hd
    rw [has, has', hout, hout']
    rcases Score.ofFacts_amid rule hd hn' with
      ⟨e, hraw, hraw'⟩ | ⟨raw, raw', hraw, hraw', hhomes, hscores⟩
    · have hnone : ∀ atlas, Atlas.ofFacts rule (firstSeen (before ++ behind)).length durationMs
          (as ++ bs) ≠ .ok atlas := by simp [Atlas.ofFacts, hraw]
      refine ⟨fun e' he => ?_, ?_, fun atlas _ ho => absurd ho (hnone atlas),
        fun atlas ho => absurd ho (hnone atlas)⟩
      · rw [hraw', ← he, hraw]
      · simp [hraw]
    · refine ⟨by simp [hraw], fun s hs => ?_, fun atlas atlas' ho ho' => ?_,
        fun _ _ hboost => Atlas.exists_ofFacts hn' hraw' hboost _ _⟩
      · obtain rfl := Except.ok.inj (hraw.symm.trans hs)
        exact ⟨raw', hraw', hhomes, hscores⟩
      · rw [← hpath]
        exact Atlas.callers_amid hd hn hn' hothers ho ho'
  · intro hspoilt
    have hidle := Extraction.idle_of_spoilt w limit hspoilt
    rw [hout, hout']
    refine ⟨hidle.blank.1, hidle.blank.2.1, ?_⟩
    rcases Atlas.ofFacts_amid rule hidle hn' hothers hle durationMs durationMs' with
      ⟨e, ho, ho'⟩ | ⟨atlas, atlas', ho, ho', hbeside⟩
    · exact ⟨fun e' he => by rw [ho', ← he, ho], by simp [ho]⟩
    · refine ⟨by simp [ho], fun s hs => ?_⟩
      obtain rfl := Except.ok.inj (ho.symm.trans hs)
      exact ⟨atlas', ho', hbeside⟩

end Builds

open Workspace.Sample in
theorem sample_keeps_beside_files : how.schedule.IsOrder ∧
    (how.maxFileSizeMb * 1024 * 1024).isFinite = true ∧
    "c.py" ∉ ["d/b.py"] ++ ["a.py"] ∧ "gone.py" ∉ ["d/b.py"] ++ ["a.py"] ∧
    ∃ atlas calling spoilt : Atlas ℝ,
      (buildAtlas workspace how rule 0 registry ["d/b.py", "a.py"]).outcome = .ok atlas ∧
      (buildAtlas workspace how rule 0 registry ["d/b.py", "c.py", "a.py"]).outcome =
        .ok calling ∧
      (buildAtlas workspace how rule 0 registry ["d/b.py", "gone.py", "a.py"]).outcome =
        .ok spoilt ∧
      calling.callers.without "c.py" = atlas.callers ∧ spoilt.callers = atlas.callers ∧
      spoilt.scores.get? "gone.py" = some Table.empty ∧
      spoilt.stats.filesFailed = atlas.stats.filesFailed + 1 := by
  have hm : (how.maxFileSizeMb * 1024 * 1024).isFinite = true := by decide +kernel
  have hc : "c.py" ∉ ["d/b.py"] ++ ["a.py"] := by decide
  have hg : "gone.py" ∉ ["d/b.py"] ++ ["a.py"] := by decide
  have hlimit : Extraction.sizeLimit how.maxFileSizeMb = .ok 1048576 := rfl
  obtain ⟨limit, batch, batch', hl, hb, hb', hcalling, _⟩ :=
    others_keep_beside_file workspace isOrder_how hm rule 0 0 registry hc
  obtain rfl := Except.ok.inj (hlimit.symm.trans hl)
  obtain ⟨limit, _, _, hl, _, _, _, hspoilt⟩ :=
    others_keep_beside_file workspace isOrder_how hm rule 0 0 registry hg
  obtain rfl := Except.ok.inj (hlimit.symm.trans hl)
  obtain ⟨atlas, _, _, ho, _⟩ := buildAtlas_exact how isOrder_how rule 0 hb
  obtain ⟨calling, _, _, ho', _⟩ := buildAtlas_exact how isOrder_how rule 0 hb'
  have hfind : workspace.find (workspace.root.below (Path.ofText "gone.py")) =
      .error .noEntry := rfl
  have hsupported : (Extraction.factsOf workspace 1048576 registry "gone.py").unsupported = false :=
    by decide +kernel
  have hpath := (Extraction.factsOf_tells workspace 1048576 registry "gone.py").1
  obtain ⟨_, _, _, hatlas⟩ := hspoilt (.missing hfind)
  obtain ⟨spoilt, ho'', hbeside⟩ := hatlas atlas ho
  have hdefinitions : (Extraction.factsOf workspace 1048576 registry "c.py").definitions =
      Table.empty := by
    have hkeys := congrArg (fun v => v.2.1) (view_factsOf "c.py" (by decide))
    exact Table.ext (List.map_eq_nil_iff.1 hkeys)
  refine ⟨isOrder_how, hm, hc, hg, atlas, calling, spoilt, ho, ho', ho'',
    (hcalling hdefinitions).2.2.1 atlas calling ho ho', hbeside.callers, ?_, ?_⟩
  · have hown := hbeside.own
    rwa [hsupported, hpath] at hown
  · have hstats := congrArg BuildStats.filesFailed hbeside.stats
    simpa [hsupported, Atlas.untimed] using hstats

end SymbolAtlas
