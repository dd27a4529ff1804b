import SymbolAtlas.Proofs.Lookups

/-!
Histories of a registry. Inquiries come one after the other and the registry reports what it loads.
After any history a language that was looked up is loaded or has failed, failures stand in the order
of the first look-ups, and each was reported once. A language whose module crashes is the exception:
every look-up crashes anew, and nothing is kept or reported.
-/

set_option autoImplicit false

namespace SymbolAtlas

namespace Event

def isUnavailable (e : Event) : Bool := e.name = "grammar_unavailable" ∧ e.level = .warning

@[simp] theorem isUnavailable_grammarUnavailable (language : Language) (e : GrammarError) :
    (grammarUnavailable language e).isUnavailable = true := by
  simp [isUnavailable, name, level]

@[simp] theorem isUnavailable_grammarLoaded (language : Language) :
    (grammarLoaded language).isUnavailable = false := by
  simp [isUnavailable, name]

end Event

theorem PackTable.languageFor_eq_none_iff {packs : PackTable} {path : String} :
    packs.languageFor path = none ↔
      ∀ row ∈ packs.entries, Path.suffix path ∉ row.2.extensions := by
  rw [languageFor, Table.get?_eq_none_iff, extensions, Table.mem_keys_ofList]
  simp only [List.map_flatMap, List.mem_flatMap, List.map_map, Function.comp_def, List.map_id',
    not_exists, not_and]

/-- The first stage of loading a pack that fails, with its error. -/
inductive Installation.FailsWith (installed : Installation) (p : Pack) : GrammarError → Prop
  | grammar {e} : installed.loadGrammar p = .ok (.error e) → FailsWith installed p e
  | query {g e} : installed.loadGrammar p = .ok (.ok g) → p.compileQuery g = .error e →
    FailsWith installed p e

def Installation.Usable (installed : Installation) (p : Pack) : Prop :=
  ∃ g query, installed.loadGrammar p = .ok (.ok g) ∧ p.compileQuery g = .ok query

namespace Installation

variable {installed : Installation} {p : Pack}

theorem prepare_eq_crash_iff {crash : Crash} :
    installed.prepare p = .error crash ↔ installed.loadGrammar p = .error crash := by
  rcases hg : installed.loadGrammar p with crash' | (e | g)
  · simp [prepare, hg]
  · simp [prepare, hg]
  · cases hq : p.compileQuery g <;> simp [prepare, hg, hq]

theorem prepare_eq_failure_iff {e : GrammarError} :
    installed.prepare p = .ok (.error e) ↔ installed.FailsWith p e := by
  constructor
  · intro h
    rcases hg : installed.loadGrammar p with crash | (e' | g)
    · simp [prepare, hg] at h
    · simp only [prepare, hg, Except.ok.injEq, Except.error.injEq] at h
      exact h ▸ .grammar hg
    · cases hq : p.compileQuery g with
      | error e' =>
        simp only [prepare, hg, hq, Except.ok.injEq, Except.error.injEq] at h
        exact h ▸ .query hg hq
      | ok query => simp [prepare, hg, hq] at h
  · rintro (hg | ⟨hg, hq⟩)
    · simp [prepare, hg]
    · simp [prepare, hg, hq]

theorem exists_prepare_eq_profile_iff :
    (∃ profile, installed.prepare p = .ok (.ok profile)) ↔ installed.Usable p := by
  constructor
  · rintro ⟨profile, h⟩
    rcases hg : installed.loadGrammar p with crash | (e | g)
    · simp [prepare, hg] at h
    · simp [prepare, hg] at h
    · cases hq : p.compileQuery g with
      | error e => simp [prepare, hg, hq] at h
      | ok query => exact ⟨g, query, hg, hq⟩
  · rintro ⟨g, query, hg, hq⟩
    exact ⟨⟨p, g, query⟩, by simp [prepare, hg, hq]⟩

theorem not_usable_iff :
    ¬ installed.Usable p ↔
      (∃ e, installed.FailsWith p e) ∨ ∃ crash, installed.loadGrammar p = .error crash := by
  simp only [← exists_prepare_eq_profile_iff, ← prepare_eq_failure_iff, ← prepare_eq_crash_iff]
  rcases ho : installed.prepare p with crash | (e | profile) <;> simp

theorem FailsWith.not_crash {e : GrammarError} (h : installed.FailsWith p e) (crash : Crash) :
    installed.loadGrammar p ≠ .error crash := by
  rw [← prepare_eq_failure_iff] at h
  rw [ne_eq, ← prepare_eq_crash_iff, h]
  simp

theorem FailsWith.code_eq {e : GrammarError} (h : installed.FailsWith p e) :
    (e.coded.code = .grammarLoadFailed ∧ installed.loadGrammar p = .ok (.error e)) ∨
      (e.coded.code = .queryCompileFailed ∧ ∃ g, installed.loadGrammar p = .ok (.ok g) ∧
        p.compileQuery g = .error e) := by
  cases h with
  | grammar hg =>
    refine .inl ⟨?_, hg⟩
    cases hl : installed.ask p.moduleName p.function with
    | grammar g => simp [loadGrammar, hl] at hg
    | crashed crash => simp [loadGrammar, hl] at hg
    | refused reason =>
      simp only [loadGrammar, hl, Except.ok.injEq, Except.error.injEq] at hg
      exact hg ▸ rfl
  | query hg hq =>
    refine .inr ⟨?_, _, hg, hq⟩
    rename_i g
    cases hc : g.compile p.tags with
    | ok query => simp [Pack.compileQuery, hc] at hq
    | error fault =>
      simp only [Pack.compileQuery, hc, Except.error.injEq] at hq
      exact hq ▸ rfl

end Installation

namespace Registry

inductive Inquiry
  | languageOf (path : String)
  | resolve (path : String)
  | lookUp (language : Language)

inductive Reply
  | language (answer : Option Language)
  | profile (answer : Except Crash (Option Profile))

def Reply.isNothing : Reply → Bool
  | .language answer => answer.isNone
  | .profile (.ok answer) => answer.isNone
  | .profile (.error _) => false

/-- An inquiry about a suffix that no pack has, or about a language without a pack. -/
def Inquiry.Hopeless (packs : PackTable) : Inquiry → Prop
  | .languageOf path => ∀ row ∈ packs.entries, Path.suffix path ∉ row.2.extensions
  | .resolve path => ∀ row ∈ packs.entries, Path.suffix path ∉ row.2.extensions
  | .lookUp language => language ∉ packs.keys

def Inquiry.target? (packs : PackTable) : Inquiry → Option Language
  | .languageOf _ => none
  | .resolve path => packs.languageFor path
  | .lookUp language => some language

structure History where
  registry : Registry
  events : List Event

variable (installed : Installation)

def inquire (r : Registry) : Inquiry → Reply × Registry × List Event
  | .languageOf path => (.language (r.languageFor path), r, [])
  | .resolve path =>
    let found := r.resolve installed path
    (.profile found.profile, found.registry, found.events)
  | .lookUp language =>
    let found := r.profileFor installed language
    (.profile found.profile, found.registry, found.events)

namespace History

def fresh (packs : PackTable) : History := ⟨ofPacks packs, []⟩

def reply (h : History) (inquiry : Inquiry) : Reply := (h.registry.inquire installed inquiry).1

def next (h : History) (inquiry : Inquiry) : History :=
  let (_, registry, events) := h.registry.inquire installed inquiry
  ⟨registry, h.events ++ events⟩

def after (h : History) (inquiries : List Inquiry) : History := inquiries.foldl (next installed) h

def lookUp (h : History) (language : Language) : History :=
  ⟨h.registry.settle installed language,
    h.events ++ (h.registry.profileFor installed language).events⟩

theorem next_eq (h : History) (inquiry : Inquiry) :
    h.next installed inquiry =
      (inquiry.target? h.registry.packs).toList.foldl (lookUp installed) h := by
  cases inquiry with
  | languageOf path => simp [next, inquire, Inquiry.target?]
  | resolve path =>
    cases hl : h.registry.packs.languageFor path with
    | none => simp [next, inquire, Registry.resolve, languageFor, Inquiry.target?, hl]
    | some language =>
      simp [next, inquire, Registry.resolve, languageFor, Inquiry.target?, hl, lookUp, settle]
  | lookUp language => simp [next, inquire, Inquiry.target?, lookUp, settle]

end History

def targets (packs : PackTable) (inquiries : List Inquiry) : List Language :=
  inquiries.filterMap (Inquiry.target? packs)

def failure? (packs : PackTable) (language : Language) : Option GrammarError :=
  match (packs.get? language).map installed.prepare with
  | some (.ok (.error e)) => some e
  | _ => none

variable {installed}

theorem failure?_eq_some_iff {packs : PackTable} {language : Language} {e : GrammarError} :
    failure? installed packs language = some e ↔
      ∃ p, packs.get? language = some p ∧ installed.FailsWith p e := by
  cases hp : packs.get? language with
  | none => simp [failure?, hp]
  | some p =>
    simp only [Option.some.injEq, exists_eq_left', ← Installation.prepare_eq_failure_iff]
    rcases ho : installed.prepare p with crash | (e' | profile) <;> simp [failure?, hp, ho]

/-- That a pack fails and that it cannot be used come to the same unless its module crashes. -/
theorem failed_iff_not_usable_iff (packs : PackTable) (languages : List Language)
    (language : Language) :
    ((language ∈ languages ∧ ∃ p e, packs.get? language = some p ∧ installed.FailsWith p e) ↔
        language ∈ languages ∧ ∃ p, packs.get? language = some p ∧ ¬ installed.Usable p) ↔
      ¬ (language ∈ languages ∧
        ∃ p crash, packs.get? language = some p ∧ installed.loadGrammar p = .error crash) := by
  cases hp : packs.get? language with
  | none => simp
  | some p =>
    simp only [Option.some.injEq, exists_and_left, exists_eq_left', Installation.not_usable_iff]
    constructor
    · rintro h ⟨hm, crash, hcrash⟩
      obtain ⟨_, e, he⟩ := h.2 ⟨hm, .inr ⟨crash, hcrash⟩⟩
      exact he.not_crash crash hcrash
    · intro h
      refine and_congr_right fun hm => ⟨.inl, ?_⟩
      rintro (he | hcrash)
      · exact he
      · exact absurd ⟨hm, hcrash⟩ h

variable (installed) in
def failures (packs : PackTable) (languages : List Language) : List (Language × GrammarError) :=
  (firstSeen languages).filterMap fun language =>
    (failure? installed packs language).map fun e => (language, e)

theorem mem_failures {packs : PackTable} {languages : List Language} {language : Language}
    {e : GrammarError} :
    (language, e) ∈ failures installed packs languages ↔
      language ∈ languages ∧ failure? installed packs language = some e := by
  simp [failures, and_left_comm]

theorem failures_repeat {packs : PackTable} {languages : List Language} {language : Language}
    (h : language ∈ languages) :
    failures installed packs (languages ++ [language]) = failures installed packs languages := by
  rw [failures, firstSeen_concat, if_pos ((mem_firstSeen ..).2 h), failures]

theorem failures_new {packs : PackTable} {languages : List Language} {language : Language}
    (h : language ∉ languages) :
    failures installed packs (languages ++ [language]) =
      failures installed packs languages ++
        ((failure? installed packs language).map fun e => (language, e)).toList := by
  rw [failures, firstSeen_concat, if_neg (fun hm => h ((mem_firstSeen ..).1 hm)),
    List.filterMap_append, failures]
  cases hf : failure? installed packs language <;> simp [hf]

/-- Later look-ups add failures and leave the old ones where they are. -/
theorem failures_prefix (packs : PackTable) (languages more : List Language) :
    failures installed packs languages <+: failures installed packs (languages ++ more) := by
  induction more using List.reverseRecOn with
  | nil => simp
  | append_singleton more language ih =>
    rw [← List.append_assoc]
    by_cases hm : language ∈ languages ++ more
    · rwa [failures_repeat hm]
    · rw [failures_new hm]
      exact ih.trans (List.prefix_append ..)

namespace History

variable (installed) in
structure Records (packs : PackTable) (languages : List Language) (h : History) : Prop where
  samePacks : h.registry.packs = packs
  loaded : ∀ language profile, h.registry.loaded.get? language = some profile ↔
    language ∈ languages ∧ (packs.get? language).map installed.prepare = some (.ok (.ok profile))
  failed : h.registry.failed.entries = failures installed packs languages
  reported : h.events.filter Event.isUnavailable =
    h.registry.failed.entries.map fun row => .grammarUnavailable row.1 row.2

theorem records_fresh (packs : PackTable) : (fresh packs).Records installed packs [] where
  samePacks := rfl
  loaded := by simp [fresh, ofPacks]
  failed := rfl
  reported := rfl

variable {packs : PackTable} {languages : List Language} {h : History}

theorem Records.not_mem (hr : h.Records installed packs languages) {language : Language}
    (hl : h.registry.loaded.get? language = none) (hf : h.registry.failed.get? language = none)
    {outcome : Except GrammarError Profile}
    (ho : (packs.get? language).map installed.prepare = some (.ok outcome)) :
    language ∉ languages := by
  intro hm
  cases outcome with
  | ok profile => simp [(hr.loaded language profile).2 ⟨hm, ho⟩] at hl
  | error e =>
    have hrow : (language, e) ∈ h.registry.failed.entries := by
      rw [hr.failed, mem_failures]
      exact ⟨hm, by simp [failure?, ho]⟩
    simp [(Table.get?_eq_some_iff ..).2 hrow] at hf

/-- A look-up that changes nothing: the language was looked up before, or loading it has no
outcome. -/
theorem Records.unchanged (hr : h.Records installed packs languages) {language : Language}
    (hl : language ∈ languages ∨
      ∀ outcome, (packs.get? language).map installed.prepare ≠ some (.ok outcome)) :
    h.Records installed packs (languages ++ [language]) := by
  have hfailures : failures installed packs (languages ++ [language]) =
      failures installed packs languages := by
    by_cases hm : language ∈ languages
    · exact failures_repeat hm
    · have hnone : failure? installed packs language = none := by
        rw [failure?]
        split
        · next e ho => exact absurd ho (hl.resolve_left hm _)
        · rfl
      simp [failures_new hm, hnone]
  refine ⟨hr.samePacks, ?_, hr.failed.trans hfailures.symm, hr.reported⟩
  intro other profile
  rw [hr.loaded, List.mem_append, List.mem_singleton]
  constructor
  · rintro ⟨hm, ho⟩
    exact ⟨.inl hm, ho⟩
  · rintro ⟨hm | rfl, ho⟩
    · exact ⟨hm, ho⟩
    · exact ⟨hl.resolve_right fun hnone => hnone _ ho, ho⟩

theorem Records.remember (hr : h.Records installed packs languages) {language : Language}
    (hl : h.registry.loaded.get? language = none) (hf : h.registry.failed.get? language = none)
    {outcome : Except GrammarError Profile}
    (ho : (packs.get? language).map installed.prepare = some (.ok outcome)) :
    (⟨(h.registry.remember language outcome).registry,
        h.events ++ (h.registry.remember language outcome).events⟩ : History).Records installed
      packs (languages ++ [language]) := by
  have hnew := hr.not_mem hl hf ho
  cases outcome with
  | ok profile =>
    refine ⟨hr.samePacks, ?_, ?_, ?_⟩
    · intro other profile'
      by_cases he : language = other
      · subst he
        simp [Registry.remember, Table.get?_insert, ho]
      · have he' : ¬ other = language := fun e => he e.symm
        simpa [Registry.remember, Table.get?_insert, he, he'] using hr.loaded other profile'
    · simpa [Registry.remember, failures_new hnew, failure?, ho] using hr.failed
    · simpa [Registry.remember] using hr.reported
  | error e =>
    have hkey : language ∉ h.registry.failed.keys := (Table.get?_eq_none_iff ..).1 hf
    have hentries := Table.entries_insert_of_not_mem h.registry.failed language e hkey
    refine ⟨hr.samePacks, ?_, ?_, ?_⟩
    · intro other profile'
      by_cases he : language = other
      · subst he
        simp [Registry.remember, hl, ho]
      · have he' : ¬ other = language := fun e => he e.symm
        simpa [Registry.remember, he'] using hr.loaded other profile'
    · simp [Registry.remember, hentries, failures_new hnew, failure?, ho, hr.failed]
    · simp [Registry.remember, hentries, hr.reported]

theorem Records.lookUp (hr : h.Records installed packs languages) (language : Language) :
    (h.lookUp installed language).Records installed packs (languages ++ [language]) := by
  rcases @profileFor_eq installed h.registry language with
    ⟨profile, hl, he⟩ | ⟨_, hnone, he⟩ | ⟨crash, _, _, ho, he⟩ | ⟨outcome, hl, hf, ho, he⟩
  · simpa [History.lookUp, settle, he] using
      hr.unchanged (.inl ((hr.loaded language profile).1 hl).1)
  · rcases hnone with hp | ⟨e, hf⟩
    · rw [hr.samePacks] at hp
      simpa [History.lookUp, settle, he] using hr.unchanged (.inr (by simp [hp]))
    · rw [Table.get?_eq_some_iff, hr.failed, mem_failures] at hf
      simpa [History.lookUp, settle, he] using hr.unchanged (.inl hf.1)
  · rw [outcome?, hr.samePacks] at ho
    simpa [History.lookUp, settle, he] using hr.unchanged (.inr (by simp [ho]))
  · rw [outcome?, hr.samePacks] at ho
    simpa only [History.lookUp, settle, he] using hr.remember hl hf ho

theorem Records.foldl (hr : h.Records installed packs languages) (more : List Language) :
    (more.foldl (History.lookUp installed) h).Records installed packs (languages ++ more) := by
  induction more generalizing h languages with
  | nil => simpa using hr
  | cons language rest ih => simpa using ih (hr.lookUp language)

theorem Records.next (hr : h.Records installed packs languages) (inquiry : Inquiry) :
    (h.next installed inquiry).Records installed packs
      (languages ++ (inquiry.target? packs).toList) := by
  rw [next_eq, hr.samePacks]
  exact hr.foldl _

theorem Records.after (hr : h.Records installed packs languages) (inquiries : List Inquiry) :
    (h.after installed inquiries).Records installed packs
      (languages ++ targets packs inquiries) := by
  induction inquiries generalizing h languages with
  | nil => simpa [targets, History.after] using hr
  | cons inquiry rest ih =>
    have hrest := ih (hr.next inquiry)
    cases ht : inquiry.target? packs with
    | none => simpa [targets, ht, History.after] using hrest
    | some language => simpa [targets, ht, History.after] using hrest

variable (hr : h.Records installed packs languages)

include hr

theorem Records.isLoaded_iff (language : Language) :
    h.registry.isLoaded language = true ↔
      language ∈ languages ∧ ∃ p, packs.get? language = some p ∧ installed.Usable p := by
  simp only [isLoaded, Table.contains, Option.isSome_iff_exists, hr.loaded, exists_and_left,
    Option.map_eq_some_iff, ← Installation.exists_prepare_eq_profile_iff]
  refine and_congr_right fun _ => ?_
  constructor
  · rintro ⟨profile, p, hp, ho⟩
    exact ⟨p, hp, profile, ho⟩
  · rintro ⟨p, hp, profile, ho⟩
    exact ⟨profile, p, hp, ho⟩

theorem Records.failed_iff (language : Language) (e : GrammarError) :
    h.registry.failed.get? language = some e ↔
      language ∈ languages ∧ ∃ p, packs.get? language = some p ∧ installed.FailsWith p e := by
  rw [Table.get?_eq_some_iff, hr.failed, mem_failures, failure?_eq_some_iff]

theorem Records.mem_failed_iff (language : Language) :
    language ∈ h.registry.failed.keys ↔
      language ∈ languages ∧ ∃ p e, packs.get? language = some p ∧ installed.FailsWith p e := by
  rw [← Table.isSome_get?_iff, Option.isSome_iff_exists]
  simp only [hr.failed_iff, exists_and_left]
  refine and_congr_right fun _ => ?_
  constructor
  · rintro ⟨e, p, hp, he⟩
    exact ⟨p, hp, e, he⟩
  · rintro ⟨p, hp, e, he⟩
    exact ⟨e, p, hp, he⟩

theorem Records.keys_failed : h.registry.failed.keys.Sublist (firstSeen languages) := by
  have hkeys : h.registry.failed.keys = (firstSeen languages).filter fun language =>
      (failure? installed packs language).isSome := by
    rw [Table.keys, hr.failed, failures]
    induction firstSeen languages with
    | nil => rfl
    | cons language rest ih =>
      cases hf : failure? installed packs language with
      | none => simpa [hf] using ih
      | some e => simpa [hf] using ih
  rw [hkeys]
  exact List.filter_sublist

theorem Records.next_of_hopeless {inquiry : Inquiry} (hi : inquiry.Hopeless packs) :
    h.next installed inquiry = h ∧ (h.reply installed inquiry).isNothing = true := by
  have hpath : ∀ path, (∀ row ∈ packs.entries, Path.suffix path ∉ row.2.extensions) →
      h.registry.languageFor path = none := by
    intro path hs
    rw [languageFor, hr.samePacks]
    exact PackTable.languageFor_eq_none_iff.2 hs
  cases inquiry with
  | languageOf path => simp [History.next, reply, inquire, hpath path hi, Reply.isNothing]
  | resolve path =>
    simp [History.next, reply, inquire, Registry.resolve, hpath path hi, Reply.isNothing]
  | lookUp language =>
    have hp : packs.get? language = none := (Table.get?_eq_none_iff ..).2 hi
    have hfound : h.registry.profileFor installed language = ⟨.ok none, h.registry, []⟩ := by
      rcases @profileFor_eq installed h.registry language with
        ⟨profile, hl, _⟩ | ⟨_, _, he⟩ | ⟨crash, _, _, ho, _⟩ | ⟨outcome, _, _, ho, _⟩
      · have ho := ((hr.loaded language profile).1 hl).2
        simp [hp] at ho
      · exact he
      · simp [outcome?, hr.samePacks, hp] at ho
      · simp [outcome?, hr.samePacks, hp] at ho
    simp [History.next, reply, inquire, hfound, Reply.isNothing]

/-- An inquiry that looks up a language whose module crashes does so too, whatever was asked
before, and leaves everything as it was. -/
theorem Records.next_of_crash {inquiry : Inquiry} {language : Language} {p : Pack} {crash : Crash}
    (ht : inquiry.target? packs = some language) (hp : packs.get? language = some p)
    (hcrash : installed.loadGrammar p = .error crash) :
    h.next installed inquiry = h ∧ h.reply installed inquiry = .profile (.error crash) := by
  have ho : (packs.get? language).map installed.prepare = some (.error crash) := by
    simp [hp, Installation.prepare_eq_crash_iff.2 hcrash]
  have hfound : h.registry.profileFor installed language = ⟨.error crash, h.registry, []⟩ := by
    rcases @profileFor_eq installed h.registry language with
      ⟨profile, hl, _⟩ | ⟨_, hp' | ⟨e, hf⟩, _⟩ | ⟨crash', _, _, ho', he⟩ | ⟨outcome, _, _, ho', _⟩
    · have hloaded := ((hr.loaded language profile).1 hl).2
      simp [ho] at hloaded
    · simp [hr.samePacks, hp] at hp'
    · rw [Table.get?_eq_some_iff, hr.failed, mem_failures] at hf
      simp [failure?, ho] at hf
    · rw [outcome?, hr.samePacks, ho] at ho'
      cases ho'
      exact he
    · simp [outcome?, hr.samePacks, ho] at ho'
  cases inquiry with
  | languageOf path => simp [Inquiry.target?] at ht
  | resolve path =>
    have hl : h.registry.languageFor path = some language := by
      rw [languageFor, hr.samePacks]
      exact ht
    simp [History.next, reply, inquire, Registry.resolve, hl, hfound]
  | lookUp other =>
    cases ht
    simp [History.next, reply, inquire, hfound]

end History

/-- After any inquiries a language is loaded or has failed exactly if it was looked up and its pack
can be used or fails. Failures stand in the order of the first look-ups with the error of the first
stage that failed, later inquiries never touch them, and every one was reported once. A pack that
cannot be used has failed once it is looked up, unless its module crashes: then each inquiry crashes
and changes nothing. -/
theorem state_after_inquiries (installed : Installation) (packs : PackTable)
    (inquiries : List Inquiry) :
    let h := (History.fresh packs).after installed inquiries
    (∀ language, h.registry.isLoaded language = true ↔
        language ∈ targets packs inquiries ∧
          ∃ p, packs.get? language = some p ∧ installed.Usable p) ∧
      (∀ language, language ∈ h.registry.failed.keys ↔
        language ∈ targets packs inquiries ∧
          ∃ p e, packs.get? language = some p ∧ installed.FailsWith p e) ∧
      (∀ language,
        (language ∈ h.registry.failed.keys ↔
          language ∈ targets packs inquiries ∧
            ∃ p, packs.get? language = some p ∧ ¬ installed.Usable p) ↔
        ¬ (language ∈ targets packs inquiries ∧
            ∃ p crash, packs.get? language = some p ∧ installed.loadGrammar p = .error crash)) ∧
      h.registry.failed.keys.Sublist (firstSeen (targets packs inquiries)) ∧
      (∀ language e, h.registry.failed.get? language = some e →
        ∃ p, packs.get? language = some p ∧
          ((e.coded.code = .grammarLoadFailed ∧ installed.loadGrammar p = .ok (.error e)) ∨
            (e.coded.code = .queryCompileFailed ∧ ∃ g, installed.loadGrammar p = .ok (.ok g) ∧
              p.compileQuery g = .error e))) ∧
      (∀ later, h.registry.failed.entries <+: (h.after installed later).registry.failed.entries) ∧
      (∀ inquiry : Inquiry, inquiry.Hopeless packs →
        h.next installed inquiry = h ∧ (h.reply installed inquiry).isNothing = true) ∧
      (∀ (inquiry : Inquiry) (language : Language) (p : Pack) (crash : Crash),
        inquiry.target? packs = some language → packs.get? language = some p →
        installed.loadGrammar p = .error crash →
          h.next installed inquiry = h ∧ h.reply installed inquiry = .profile (.error crash)) ∧
      h.events.countP Event.isUnavailable = h.registry.failed.size := by
  intro h
  have hr : h.Records installed packs (targets packs inquiries) := by
    simpa using (History.records_fresh packs).after inquiries
  have hfailed : ∀ language, language ∈ h.registry.failed.keys ↔ _ := hr.mem_failed_iff
  refine ⟨hr.isLoaded_iff, hfailed, fun language => ?_, hr.keys_failed, ?_, ?_,
    fun _ hi => hr.next_of_hopeless hi, fun _ _ _ _ ht hp hcrash => hr.next_of_crash ht hp hcrash,
    ?_⟩
  · rw [hfailed]
    exact failed_iff_not_usable_iff packs _ language
  · intro language e he
    obtain ⟨_, p, hp, hfails⟩ := (hr.failed_iff language e).1 he
    exact ⟨p, hp, hfails.code_eq⟩
  · intro later
    rw [hr.failed, (hr.after later).failed]
    exact failures_prefix packs _ _
  · rw [List.countP_eq_length_filter, hr.reported, List.length_map, Table.size]

namespace Sample

def pack (language : Language) (extension tags : String) : Pack where
  language := language
  package := "tree-sitter-" ++ language.name
  moduleName := "tree_sitter_" ++ language.name
  functionName := none
  extensions := [extension]
  tags := .text tags

/-- One pack that can be used, one without a module, one whose query does not close and one whose
module crashes. -/
def packs : PackTable :=
  PackTable.ofPacks [pack .python ".py" "", pack .ruby ".rb" "", pack .go ".go" "(",
    pack .rust ".rs" ""]

def loopless : Crash := ⟨"RuntimeError", "no running event loop"⟩

def modules : Installation :=
  .ofModules (⟨"tree_sitter_rust", [("language", .crashed loopless)], []⟩ ::
    Installation.modulesOf [pack .python ".py" "", pack .go ".go" ""] Grammar.permissive)

def inquiries : List Inquiry :=
  [.languageOf "a.rb", .resolve "a.txt", .lookUp .java, .resolve "a.go", .resolve "a.py",
    .lookUp .ruby, .resolve "b.go", .resolve "a.rs", .lookUp .ruby]

theorem state_after_sample :
    let h := (History.fresh packs).after modules inquiries
    h.registry.failed.entries.map (fun row => (row.1, row.2.coded.code)) =
        [(.go, .queryCompileFailed), (.ruby, .grammarLoadFailed)] ∧
      h.registry.isLoaded .python = true ∧ h.registry.isLoaded .java = false ∧
      (Inquiry.lookUp .java).Hopeless packs ∧ h.next modules (.lookUp .java) = h ∧
      h.reply modules (.resolve "b.rs") = .profile (.error loopless) ∧
      h.events.countP Event.isUnavailable = 2 := by
  intro h
  obtain ⟨_, _, _, _, _, _, hidle, hcrash, hcount⟩ := state_after_inquiries modules packs inquiries
  have hjava : (Inquiry.lookUp .java).Hopeless packs := by
    simp only [Inquiry.Hopeless]
    decide +kernel
  have hrust := hcrash (.resolve "b.rs") .rust (pack .rust ".rs" "") loopless (by decide +kernel)
    rfl rfl
  exact ⟨by decide +kernel, by decide +kernel, by decide +kernel, hjava, (hidle _ hjava).1, hrust.2,
    hcount.trans (by decide +kernel)⟩

/-- A language that is looked up twice and cannot be used has not failed, and nobody hears of it. -/
theorem crash_leaves_no_failure :
    let h := (History.fresh packs).after modules [.resolve "a.rs", .lookUp .rust]
    .rust ∈ targets packs [.resolve "a.rs", .lookUp .rust] ∧
      (∃ p, packs.get? .rust = some p ∧ ¬ modules.Usable p) ∧
      h.registry.failed.keys = [] ∧ h.events = [] ∧
      h.reply modules (.lookUp .rust) = .profile (.error loopless) := by
  refine ⟨by decide +kernel, ⟨pack .rust ".rs" "", rfl, ?_⟩, by decide +kernel, rfl, rfl⟩
  exact Installation.not_usable_iff.2 (.inr ⟨loopless, rfl⟩)

end Sample

end Registry

end SymbolAtlas
