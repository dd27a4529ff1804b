import Mathlib.Data.List.Nodup
import SymbolAtlas.Registry.Crew
import SymbolAtlas.Proofs.Extracts

/-!
Workers that share a registry, in whatever order their steps fall. A lock keeps all but one worker
of a language out of the stages that load and store. So a language is loaded at most once, and
whoever gets an answer gets the one a single worker would have got. This needs an outcome to store:
a load that crashes is run again by every worker that comes so far.
-/

set_option autoImplicit false

namespace SymbolAtlas

namespace Registry

variable {installed : Installation}

def Open (r : Registry) (language : Language) : Prop :=
  r.loaded.get? language = none ∧ r.failed.get? language = none

variable (installed) in
def Crashes (r : Registry) (language : Language) : Prop :=
  ∃ crash, r.outcome? installed language = some (.error crash)

variable (installed) in
/-- There is nothing left to keep of a language. -/
def Settled (r : Registry) (language : Language) : Prop :=
  ¬ r.Open language ∨ ∀ outcome, r.outcome? installed language ≠ some (.ok outcome)

theorem packs_remember (r : Registry) (language : Language)
    (outcome : Except GrammarError Profile) :
    (r.remember language outcome).registry.packs = r.packs := by
  cases outcome <;> rfl

theorem outcome?_remember (installed : Installation) (r : Registry) (language : Language)
    (outcome : Except GrammarError Profile) (other : Language) :
    (r.remember language outcome).registry.outcome? installed other =
      r.outcome? installed other :=
  outcome?_congr (packs_remember r language outcome) other

theorem crashes_congr {r s : Registry} (h : r.packs = s.packs) (language : Language) :
    r.Crashes installed language ↔ s.Crashes installed language := by
  rw [Crashes, Crashes, outcome?_congr h]

theorem remember_of_ne (r : Registry) {language other : Language}
    (outcome : Except GrammarError Profile) (h : language ≠ other) :
    (r.remember language outcome).registry.loaded.get? other = r.loaded.get? other ∧
      (r.remember language outcome).registry.failed.get? other = r.failed.get? other := by
  cases outcome with
  | ok profile => simp [remember, Table.get?_insert, h]
  | error e => simp [remember, Table.get?_insert, h]

theorem not_open_remember (r : Registry) (language : Language)
    (outcome : Except GrammarError Profile) :
    ¬ (r.remember language outcome).registry.Open language := by
  cases outcome with
  | ok profile => simp [remember, Open, Table.get?_insert]
  | error e => simp [remember, Open, Table.get?_insert]

theorem Settled.remember {r : Registry} {other : Language} (h : r.Settled installed other)
    (language : Language) (outcome : Except GrammarError Profile) :
    (r.remember language outcome).registry.Settled installed other := by
  by_cases he : language = other
  · subst he
    exact .inl (not_open_remember r language outcome)
  · obtain ⟨hl, hf⟩ := remember_of_ne r outcome he
    simpa only [Settled, Open, hl, hf, outcome?_remember] using h

theorem Faithful.loaded_of_settled {r : Registry} (h : r.Faithful installed) {language : Language}
    (hs : r.Settled installed language) {found : Option Profile}
    (ha : answerOf (r.outcome? installed language) = .ok found) :
    r.loaded.get? language = found := by
  cases hl : r.loaded.get? language with
  | some profile =>
    rw [h.loaded hl] at ha
    exact Except.ok.inj ha
  | none =>
    cases hf : r.failed.get? language with
    | some e =>
      rw [h.failed hf] at ha
      exact Except.ok.inj ha
    | none =>
      rcases hs with hs | hs
      · exact absurd ⟨hl, hf⟩ hs
      · rcases ho : r.outcome? installed language with _ | (crash | outcome)
        · rw [ho] at ha
          exact Except.ok.inj ha
        · simp [ho, answerOf] at ha
        · exact absurd ho (hs outcome)

theorem Settled.none_found {r : Registry} {language : Language} (hs : r.Settled installed language)
    (ha : answerOf (r.outcome? installed language) = .ok none)
    (hl : r.loaded.get? language = none) :
    (r.failed.get? language).isSome ∨ r.packs.get? language = none := by
  rcases hs with hs | hs
  · left
    rw [Option.isSome_iff_ne_none]
    exact fun hf => hs ⟨hl, hf⟩
  · right
    rcases ho : r.outcome? installed language with _ | (crash | outcome)
    · simpa [outcome?] using ho
    · simp [ho, answerOf] at ha
    · exact absurd ho (hs outcome)

structure Grows (r s : Registry) : Prop where
  packs : s.packs = r.packs
  loaded : ∀ {language profile}, r.loaded.get? language = some profile →
    s.loaded.get? language = some profile
  failed : ∀ {language e}, r.failed.get? language = some e → s.failed.get? language = some e

theorem Grows.refl (r : Registry) : r.Grows r := ⟨rfl, id, id⟩

theorem Grows.trans {r s t : Registry} (h : r.Grows s) (h' : s.Grows t) : r.Grows t :=
  ⟨h'.packs.trans h.packs, fun hl => h'.loaded (h.loaded hl), fun hf => h'.failed (h.failed hf)⟩

theorem Open.grows {r : Registry} {language : Language} (h : r.Open language)
    (outcome : Except GrammarError Profile) : r.Grows (r.remember language outcome).registry := by
  refine ⟨packs_remember .., ?_, ?_⟩
  · intro other profile hl
    have hne : language ≠ other := by
      rintro rfl
      simp [h.1] at hl
    rw [(remember_of_ne r outcome hne).1, hl]
  · intro other e hf
    have hne : language ≠ other := by
      rintro rfl
      simp [h.2] at hf
    rw [(remember_of_ne r outcome hne).2, hf]

end Registry

namespace LookupStage

def HoldsLock : LookupStage → Prop
  | .inside | .loading _ | .storing _ | .leaving _ => True
  | _ => False

def hasCrashed : LookupStage → Bool
  | .leaving (.error _) | .finished (.error _) => true
  | _ => false

def Knows (installed : Installation) (r : Registry) (language : Language) : LookupStage → Prop
  | .entering | .unloaded => True
  | .waiting | .inside => (r.packs.get? language).isSome
  | .loading pack => r.packs.get? language = some pack ∧ r.Open language
  | .storing outcome => r.outcome? installed language = some (.ok outcome) ∧ r.Open language
  | .leaving answer | .finished answer =>
    r.Settled installed language ∧ answer = Registry.answerOf (r.outcome? installed language)

variable {installed : Installation} {r : Registry}

/-- News of one language leaves a worker's knowledge true, unless the worker is about to bring
such news itself. -/
theorem Knows.remember {stage : LookupStage} {other : Language}
    (h : stage.Knows installed r other) {language : Language}
    (hfree : language = other → ¬ stage.HoldsLock) (outcome : Except GrammarError Profile) :
    stage.Knows installed (r.remember language outcome).registry other := by
  have hp := r.packs_remember language outcome
  have ho := Registry.outcome?_remember installed r language outcome other
  have hopen : stage.HoldsLock → r.Open other →
      (r.remember language outcome).registry.Open other := by
    intro hs hr
    obtain ⟨hl, hf⟩ := r.remember_of_ne outcome fun he => hfree he hs
    exact ⟨hl.trans hr.1, hf.trans hr.2⟩
  cases stage with
  | entering => trivial
  | unloaded => trivial
  | waiting => simpa only [Knows, hp] using h
  | inside => simpa only [Knows, hp] using h
  | loading pack => exact ⟨by rw [hp]; exact h.1, hopen trivial h.2⟩
  | storing o => exact ⟨by rw [ho]; exact h.1, hopen trivial h.2⟩
  | leaving answer => exact ⟨h.1.remember language outcome, by rw [ho]; exact h.2⟩
  | finished answer => exact ⟨h.1.remember language outcome, by rw [ho]; exact h.2⟩

theorem hasCrashed_lookAgain (r : Registry) (language : Language) :
    (Crew.lookAgain r language).hasCrashed = false := by
  unfold Crew.lookAgain
  repeat' split
  all_goals rfl

end LookupStage

def LookupWorker.hasCrashed (language : Language) (w : LookupWorker) : Bool :=
  w.language = language && w.stage.hasCrashed

theorem countP_set_add {α : Type} (p : α → Bool) {xs : List α} {i : Nat} {x : α}
    (h : xs[i]? = some x) (y : α) :
    (xs.set i y).countP p + (if p x then 1 else 0) = xs.countP p + (if p y then 1 else 0) := by
  obtain ⟨hi, rfl⟩ := List.getElem?_eq_some_iff.1 h
  have hle : (if p xs[i] then 1 else 0) ≤ xs.countP p := by
    split
    · next hp => exact List.countP_pos_iff.2 ⟨_, List.getElem_mem hi, hp⟩
    · exact Nat.zero_le _
  rw [List.countP_set hi]
  omega

namespace Crew

variable {installed : Installation}

/-- Some worker is on its way to store the outcome of a language. -/
def Storing (c : Crew) (language : Language) : Prop :=
  ∃ (i : Nat) (w : LookupWorker) (outcome : _), c.workers[i]? = some w ∧
    w.language = language ∧ w.stage = .storing outcome

variable (installed) in
structure Sound (c : Crew) : Prop where
  faithful : c.registry.Faithful installed
  knows : ∀ {i : Nat} {w : LookupWorker}, c.workers[i]? = some w →
    w.stage.Knows installed c.registry w.language
  locked : ∀ {i : Nat} {w : LookupWorker}, c.workers[i]? = some w → w.stage.HoldsLock →
    w.language ∈ c.locked
  alone : ∀ {i j : Nat} {w v : LookupWorker}, c.workers[i]? = some w → c.workers[j]? = some v →
    w.stage.HoldsLock → v.stage.HoldsLock → w.language = v.language → i = j
  once : ∀ language, ¬ c.registry.Crashes installed language → c.loads.count language ≤ 1
  stored : ∀ language ∈ c.loads, ¬ c.registry.Crashes installed language →
    ¬ c.registry.Open language ∨ c.Storing language
  again : ∀ language, c.registry.Crashes installed language →
    c.loads.count language = c.workers.countP (LookupWorker.hasCrashed language)

theorem sound_start {r : Registry} (h : r.Faithful installed) (languages : List Language) :
    (start r languages).Sound installed := by
  have hstage : ∀ w ∈ (start r languages).workers, w.stage = .entering := by
    intro w hw
    obtain ⟨l, _, rfl⟩ := List.mem_map.1 hw
    rfl
  refine ⟨h, ?_, ?_, ?_, by simp [start], by simp [start], fun language _ => ?_⟩
  · intro i w hw
    rw [hstage w (List.mem_of_getElem? hw)]
    trivial
  · intro i w hw hl
    rw [hstage w (List.mem_of_getElem? hw)] at hl
    exact hl.elim
  · intro i j w v hw _ hl
    rw [hstage w (List.mem_of_getElem? hw)] at hl
    exact hl.elim
  · refine (List.countP_eq_zero.2 fun w hw => ?_).symm
    simp [LookupWorker.hasCrashed, hstage w hw, LookupStage.hasCrashed]

/-- A worker comes to a new stage while the shared state may change too. What has to be shown of
the other workers is that they still know and hold what they did. -/
theorem Sound.turn {c c' : Crew} (h : c.Sound installed) {i : Nat} {w : LookupWorker}
    (hi : c.workers[i]? = some w) {stage : LookupStage}
    (hworkers : c'.workers = c.workers.set i { w with stage := stage })
    (hfaithful : c'.registry.Faithful installed)
    (hknows : stage.Knows installed c'.registry w.language)
    (hothers : ∀ {j : Nat} {v : LookupWorker}, j ≠ i → c.workers[j]? = some v →
      v.stage.Knows installed c'.registry v.language ∧
        (v.stage.HoldsLock → v.language ∈ c'.locked ∧ (stage.HoldsLock → v.language ≠ w.language)))
    (hlocked : stage.HoldsLock → w.language ∈ c'.locked)
    (honce : ∀ language, ¬ c'.registry.Crashes installed language → c'.loads.count language ≤ 1)
    (hstored : ∀ language ∈ c'.loads, ¬ c'.registry.Crashes installed language →
      ¬ c'.registry.Open language ∨ c'.Storing language)
    (hagain : ∀ language, c'.registry.Crashes installed language →
      c'.loads.count language = c'.workers.countP (LookupWorker.hasCrashed language)) :
    c'.Sound installed := by
  -- Whoever is met in the new crew is the worker that moved, or another one as it was.
  have hcases : ∀ {j : Nat} {v : LookupWorker}, c'.workers[j]? = some v →
      (j = i ∧ v = { w with stage := stage }) ∨ (j ≠ i ∧ c.workers[j]? = some v) := by
    intro j v hv
    rw [hworkers, List.getElem?_set] at hv
    by_cases hj : i = j
    · subst hj
      have hlt : i < c.workers.length := (List.getElem?_eq_some_iff.1 hi).1
      simp only [if_true, hlt, Option.some.injEq] at hv
      exact .inl ⟨rfl, hv.symm⟩
    · simp only [hj, if_false] at hv
      exact .inr ⟨fun e => hj e.symm, hv⟩
  refine ⟨hfaithful, ?_, ?_, ?_, honce, hstored, hagain⟩
  · intro j v hv
    rcases hcases hv with ⟨rfl, rfl⟩ | ⟨hj, hv⟩
    · exact hknows
    · exact (hothers hj hv).1
  · intro j v hv hl
    rcases hcases hv with ⟨rfl, rfl⟩ | ⟨hj, hv⟩
    · exact hlocked hl
    · exact ((hothers hj hv).2 hl).1
  · intro j k v u hv hu hlv hlu he
    rcases hcases hv with ⟨rfl, rfl⟩ | ⟨hj, hv⟩
    · rcases hcases hu with ⟨rfl, rfl⟩ | ⟨hk, hu⟩
      · rfl
      · exact absurd he.symm (((hothers hk hu).2 hlu).2 hlv)
    · rcases hcases hu with ⟨rfl, rfl⟩ | ⟨hk, hu⟩
      · exact absurd he (((hothers hj hv).2 hlv).2 hlu)
      · exact h.alone hv hu hlv hlu he

theorem Sound.apart {c : Crew} (h : c.Sound installed) {i j : Nat} {w v : LookupWorker}
    (hi : c.workers[i]? = some w) (hw : w.stage.HoldsLock) (hj : j ≠ i)
    (hv : c.workers[j]? = some v) (hl : v.stage.HoldsLock) : v.language ≠ w.language :=
  fun he => hj (h.alone hv hi hl hw he)

/-- Whoever stores keeps on storing while another worker moves. -/
theorem Storing.move {c : Crew} {language : Language} (h : c.Storing language) {i : Nat}
    {w : LookupWorker} (hi : c.workers[i]? = some w)
    (hw : w.language = language → ∀ outcome, w.stage ≠ .storing outcome) (stage : LookupStage) :
    (c.move i w stage).Storing language := by
  obtain ⟨j, v, outcome, hv, hlanguage, hstage⟩ := h
  have hj : i ≠ j := by
    rintro rfl
    obtain rfl := Option.some.inj (hi.symm.trans hv)
    exact hw hlanguage outcome hstage
  exact ⟨j, v, outcome, by simpa [Crew.move, List.getElem?_set, hj] using hv, hlanguage, hstage⟩

theorem Sound.stored_move {c : Crew} (h : c.Sound installed) {i : Nat} {w : LookupWorker}
    (hi : c.workers[i]? = some w) (hw : ∀ outcome, w.stage ≠ .storing outcome)
    (stage : LookupStage) :
    ∀ language ∈ c.loads, ¬ c.registry.Crashes installed language →
      ¬ c.registry.Open language ∨ (c.move i w stage).Storing language := by
  intro language hl hcrashes
  rcases h.stored language hl hcrashes with hk | hstoring
  · exact .inl hk
  · exact .inr (hstoring.move hi (fun _ => hw) stage)

theorem countP_move (c : Crew) {i : Nat} {w : LookupWorker} (hi : c.workers[i]? = some w)
    (stage : LookupStage) (language : Language) :
    (c.move i w stage).workers.countP (LookupWorker.hasCrashed language) +
        (if w.hasCrashed language then 1 else 0) =
      c.workers.countP (LookupWorker.hasCrashed language) +
        (if w.language = language ∧ stage.hasCrashed then 1 else 0) := by
  simpa [move, LookupWorker.hasCrashed] using
    countP_set_add (LookupWorker.hasCrashed language) hi { w with stage := stage }

theorem Sound.again_move {c : Crew} (h : c.Sound installed) {i : Nat} {w : LookupWorker}
    (hi : c.workers[i]? = some w) {stage : LookupStage}
    (hsame : stage.hasCrashed = w.stage.hasCrashed) {language : Language}
    (hcrashes : c.registry.Crashes installed language) :
    c.loads.count language =
      (c.move i w stage).workers.countP (LookupWorker.hasCrashed language) := by
  have hcount := c.countP_move hi stage language
  simp only [LookupWorker.hasCrashed, hsame, Bool.and_eq_true, decide_eq_true_eq] at hcount
  rw [h.again language hcrashes]
  exact (Nat.add_right_cancel hcount).symm

theorem Sound.move {c : Crew} (h : c.Sound installed) {i : Nat} {w : LookupWorker}
    (hi : c.workers[i]? = some w) (hw : ∀ outcome, w.stage ≠ .storing outcome)
    {stage : LookupStage} (hknows : stage.Knows installed c.registry w.language)
    (hlock : stage.HoldsLock → w.stage.HoldsLock)
    (hsame : stage.hasCrashed = w.stage.hasCrashed) : (c.move i w stage).Sound installed := by
  refine h.turn hi rfl h.faithful hknows ?_ (fun hs => h.locked hi (hlock hs)) h.once
    (h.stored_move hi hw stage) fun _ => h.again_move hi hsame
  intro j v hj hv
  exact ⟨h.knows hv, fun hl => ⟨h.locked hv hl, fun hs => h.apart hi (hlock hs) hj hv hl⟩⟩

theorem knows_lookAgain {r : Registry} (h : r.Faithful installed) {language : Language}
    (hp : (r.packs.get? language).isSome) :
    (lookAgain r language).Knows installed r language := by
  cases hl : r.loaded.get? language with
  | some profile =>
    simp only [lookAgain, hl]
    exact ⟨.inl (by simp [Registry.Open, hl]), by rw [h.loaded hl]; rfl⟩
  | none =>
    cases hf : r.failed.get? language with
    | some e =>
      simp only [lookAgain, hl, Table.contains, hf, Option.isSome_some, if_true]
      exact ⟨.inl (by simp [Registry.Open, hf]), by rw [h.failed hf]; rfl⟩
    | none =>
      obtain ⟨pack, hpack⟩ := Option.isSome_iff_exists.1 hp
      simp only [lookAgain, hl, Table.contains, hf, Option.isSome_none, hpack]
      exact ⟨hpack, hl, hf⟩

theorem Sound.entering {c : Crew} (h : c.Sound installed) {i : Nat} {w : LookupWorker}
    (hi : c.workers[i]? = some w) (hs : w.stage = .entering) :
    (c.advance installed i w).Sound installed := by
  have hw : ∀ outcome, w.stage ≠ .storing outcome := by simp [hs]
  cases hl : c.registry.loaded.get? w.language with
  | some profile =>
    simp only [advance, hs, hl]
    refine h.move hi hw ⟨.inl (by simp [Registry.Open, hl]), ?_⟩ False.elim (by rw [hs]; rfl)
    rw [h.faithful.loaded hl]
    rfl
  | none =>
    simp only [advance, hs, hl]
    exact h.move hi hw trivial False.elim (by rw [hs]; rfl)

theorem Sound.unloaded {c : Crew} (h : c.Sound installed) {i : Nat} {w : LookupWorker}
    (hi : c.workers[i]? = some w) (hs : w.stage = .unloaded) :
    (c.advance installed i w).Sound installed := by
  have hw : ∀ outcome, w.stage ≠ .storing outcome := by simp [hs]
  by_cases hnone : c.registry.failed.contains w.language ∨ !c.registry.packs.contains w.language
  · simp only [advance, hs, hnone, if_true]
    refine h.move hi hw ?_ False.elim (by rw [hs]; rfl)
    rcases hnone with hf | hp
    · obtain ⟨e, he⟩ := Option.isSome_iff_exists.1 hf
      exact ⟨.inl (by simp [Registry.Open, he]), by rw [h.faithful.failed he]; rfl⟩
    · have ho : c.registry.outcome? installed w.language = none := by
        simpa [Registry.outcome?, Table.contains] using hp
      exact ⟨.inr (by simp [ho]), by rw [ho]; rfl⟩
  · simp only [advance, hs, hnone, if_false]
    refine h.move hi hw ?_ False.elim (by rw [hs]; rfl)
    have hp := (not_or.1 hnone).2
    simpa [LookupStage.Knows, Table.contains, Option.isSome_iff_ne_none] using hp

theorem Sound.waiting {c : Crew} (h : c.Sound installed) {i : Nat} {w : LookupWorker}
    (hi : c.workers[i]? = some w) (hs : w.stage = .waiting) :
    (c.advance installed i w).Sound installed := by
  have hw : ∀ outcome, w.stage ≠ .storing outcome := by simp [hs]
  by_cases hlocked : w.language ∈ c.locked
  · simpa [advance, hs, hlocked] using h
  · have hknows := h.knows hi
    rw [hs] at hknows
    simp only [advance, hs, List.contains_eq_mem, hlocked, decide_false, Bool.false_eq_true,
      if_false]
    refine h.turn hi rfl h.faithful hknows ?_ (fun _ => List.mem_cons_self) h.once
      (h.stored_move hi hw .inside) fun _ => h.again_move hi (by rw [hs]; rfl)
    -- Whoever is past the lock of the language has it locked, and it is free.
    intro j v hj hv
    refine ⟨h.knows hv, fun hl => ⟨List.mem_cons_of_mem _ (h.locked hv hl), fun _ he => ?_⟩⟩
    exact hlocked (he ▸ h.locked hv hl)

theorem Sound.inside {c : Crew} (h : c.Sound installed) {i : Nat} {w : LookupWorker}
    (hi : c.workers[i]? = some w) (hs : w.stage = .inside) :
    (c.advance installed i w).Sound installed := by
  have hknows := h.knows hi
  rw [hs] at hknows
  simp only [advance, hs]
  refine h.move hi (by simp [hs]) (knows_lookAgain h.faithful hknows) (fun _ => ?_) ?_
  · rw [hs]
    trivial
  · rw [hs]
    exact LookupStage.hasCrashed_lookAgain _ _

/-- Were the language loaded before without a crash, its outcome would be kept by now, or another
worker would hold its lock. -/
theorem Sound.not_loaded {c : Crew} (h : c.Sound installed) {i : Nat} {w : LookupWorker}
    (hi : c.workers[i]? = some w) {pack : Pack} (hs : w.stage = .loading pack)
    (hcrashes : ¬ c.registry.Crashes installed w.language) : w.language ∉ c.loads := by
  have hknows := h.knows hi
  have hholds : w.stage.HoldsLock := by
    rw [hs]
    trivial
  rw [hs] at hknows
  intro hm
  rcases h.stored _ hm hcrashes with hk | ⟨j, v, outcome, hv, hl, hstage⟩
  · exact hk hknows.2
  · have hj := h.alone hi hv hholds (by rw [hstage]; trivial) hl.symm
    subst hj
    obtain rfl := Option.some.inj (hi.symm.trans hv)
    cases hs.symm.trans hstage

theorem count_append_of_ne {loads : List Language} {loaded language : Language}
    (h : loaded ≠ language) : (loads ++ [loaded]).count language = loads.count language := by
  simp [h]

/-- A load that crashes adds one to the loads and one to the crashed workers. -/
theorem Sound.loading_crash {c : Crew} (h : c.Sound installed) {i : Nat} {w : LookupWorker}
    (hi : c.workers[i]? = some w) {pack : Pack} (hs : w.stage = .loading pack) {crash : Crash}
    (hload : installed.prepare pack = .error crash) :
    (c.advance installed i w).Sound installed := by
  have hknows := h.knows hi
  have hholds : w.stage.HoldsLock := by
    rw [hs]
    trivial
  rw [hs] at hknows
  have ho : c.registry.outcome? installed w.language = some (.error crash) := by
    simp [Registry.outcome?, hknows.1, hload]
  have hcrashes : c.registry.Crashes installed w.language := ⟨crash, ho⟩
  have hafter : (afterLoad (.error crash)).Knows installed c.registry w.language :=
    ⟨.inr (by simp [ho]), by rw [ho]; rfl⟩
  simp only [advance, hs, hload]
  refine h.turn hi rfl h.faithful hafter
    (fun hj hv => ⟨h.knows hv, fun hl => ⟨h.locked hv hl, fun _ => h.apart hi hholds hj hv hl⟩⟩)
    (fun _ => h.locked hi hholds) ?_ ?_ ?_
  · intro language hnot
    have hne : w.language ≠ language := fun he => hnot (he ▸ hcrashes)
    rw [count_append_of_ne hne]
    exact h.once language hnot
  · intro language hm hnot
    rcases List.mem_append.1 hm with hm | hm
    · exact h.stored_move hi (by simp [hs]) _ language hm hnot
    · exact absurd (List.mem_singleton.1 hm ▸ hcrashes) hnot
  · intro language hcrash
    have hcount := c.countP_move hi (afterLoad (.error crash)) language
    by_cases he : w.language = language
    · subst he
      simp only [LookupWorker.hasCrashed, hs, LookupStage.hasCrashed, afterLoad, Bool.and_false,
        Bool.false_eq_true, if_false, and_self, if_true, Nat.add_zero] at hcount
      simp [h.again _ hcrash, hcount, afterLoad]
    · simp only [LookupWorker.hasCrashed, he, decide_false, Bool.false_and, Bool.false_eq_true,
        if_false, false_and, Nat.add_zero] at hcount
      rw [count_append_of_ne he, h.again _ hcrash]
      exact hcount.symm

theorem Sound.loading_outcome {c : Crew} (h : c.Sound installed) {i : Nat} {w : LookupWorker}
    (hi : c.workers[i]? = some w) {pack : Pack} (hs : w.stage = .loading pack)
    {outcome : Except GrammarError Profile} (hload : installed.prepare pack = .ok outcome) :
    (c.advance installed i w).Sound installed := by
  have hknows := h.knows hi
  have hholds : w.stage.HoldsLock := by
    rw [hs]
    trivial
  rw [hs] at hknows
  obtain ⟨hpack, hopen⟩ := hknows
  have ho : c.registry.outcome? installed w.language = some (.ok outcome) := by
    simp [Registry.outcome?, hpack, hload]
  have hcrashes : ¬ c.registry.Crashes installed w.language := by simp [Registry.Crashes, ho]
  have hnew := h.not_loaded hi hs hcrashes
  have hlt : i < c.workers.length := (List.getElem?_eq_some_iff.1 hi).1
  simp only [advance, hs, hload]
  refine h.turn hi rfl h.faithful ⟨ho, hopen⟩
    (fun hj hv => ⟨h.knows hv, fun hl => ⟨h.locked hv hl, fun _ => h.apart hi hholds hj hv hl⟩⟩)
    (fun _ => h.locked hi hholds) ?_ ?_ ?_
  · intro language hnot
    by_cases he : w.language = language
    · subst he
      simp [List.count_eq_zero.2 hnew]
    · rw [count_append_of_ne he]
      exact h.once language hnot
  · intro language hm hnot
    rcases List.mem_append.1 hm with hm | hm
    · exact h.stored_move hi (by simp [hs]) _ language hm hnot
    · obtain rfl := List.mem_singleton.1 hm
      exact .inr ⟨i, { w with stage := .storing outcome }, _, by simp [Crew.move, hlt, afterLoad],
        rfl, rfl⟩
  · intro language hcrash
    have hne : w.language ≠ language := fun he => hcrashes (he ▸ hcrash)
    rw [count_append_of_ne hne]
    exact h.again_move hi (by rw [hs]; rfl) hcrash

theorem Sound.storing {c : Crew} (h : c.Sound installed) {i : Nat} {w : LookupWorker}
    (hi : c.workers[i]? = some w) {outcome : Except GrammarError Profile}
    (hs : w.stage = .storing outcome) : (c.advance installed i w).Sound installed := by
  have hknows := h.knows hi
  have hholds : w.stage.HoldsLock := by
    rw [hs]
    trivial
  rw [hs] at hknows
  obtain ⟨ho, hopen⟩ := hknows
  have hcrashes : ∀ language,
      (c.registry.remember w.language outcome).registry.Crashes installed language ↔
        c.registry.Crashes installed language :=
    Registry.crashes_congr (c.registry.packs_remember w.language outcome)
  simp only [advance, hs]
  refine h.turn hi rfl (h.faithful.remember ho)
    ⟨.inl (c.registry.not_open_remember _ _), ?_⟩ ?_ (fun _ => h.locked hi hholds) ?_ ?_ ?_
  · rw [Registry.outcome?_remember, ho]
    cases outcome <;> rfl
  · intro j v hj hv
    refine ⟨(h.knows hv).remember (fun he hl => h.apart hi hholds hj hv hl he.symm) outcome, ?_⟩
    exact fun hl => ⟨h.locked hv hl, fun _ => h.apart hi hholds hj hv hl⟩
  · exact fun language hnot => h.once language (mt (hcrashes language).2 hnot)
  · intro language hm hnot
    by_cases he : w.language = language
    · subst he
      exact .inl (c.registry.not_open_remember _ _)
    · obtain ⟨hl, hf⟩ := c.registry.remember_of_ne outcome he
      rcases h.stored language hm (mt (hcrashes language).2 hnot) with hk | hstoring
      · left
        rwa [Registry.Open, hl, hf]
      · exact .inr (hstoring.move hi (fun hsame => absurd hsame he) _)
  · intro language hcrash
    refine h.again_move hi ?_ ((hcrashes language).1 hcrash)
    rw [hs]
    cases outcome <;> rfl

theorem Sound.leaving {c : Crew} (h : c.Sound installed) {i : Nat} {w : LookupWorker}
    (hi : c.workers[i]? = some w) {answer : Except Crash (Option Profile)}
    (hs : w.stage = .leaving answer) : (c.advance installed i w).Sound installed := by
  have hknows := h.knows hi
  have hholds : w.stage.HoldsLock := by
    rw [hs]
    trivial
  rw [hs] at hknows
  simp only [advance, hs]
  refine h.turn hi rfl h.faithful hknows ?_ False.elim h.once
    (h.stored_move hi (by simp [hs]) _) fun _ => h.again_move hi ?_
  · intro j v hj hv
    refine ⟨h.knows hv, fun hl => ⟨List.mem_filter.2 ⟨h.locked hv hl, ?_⟩, fun hno => hno.elim⟩⟩
    simpa using h.apart hi hholds hj hv hl
  · rw [hs]
    cases answer <;> rfl

theorem Sound.step {c : Crew} (h : c.Sound installed) (i : Nat) :
    (c.step installed i).Sound installed := by
  cases hi : c.workers[i]? with
  | none => simpa [Crew.step, hi] using h
  | some w =>
    simp only [Crew.step, hi]
    cases hs : w.stage with
    | entering => exact h.entering hi hs
    | unloaded => exact h.unloaded hi hs
    | waiting => exact h.waiting hi hs
    | inside => exact h.inside hi hs
    | loading pack =>
      cases hload : installed.prepare pack with
      | error crash => exact h.loading_crash hi hs hload
      | ok outcome => exact h.loading_outcome hi hs hload
    | storing outcome => exact h.storing hi hs
    | leaving answer => exact h.leaving hi hs
    | finished answer => simpa [advance, hs] using h

theorem Sound.run {c : Crew} (h : c.Sound installed) (schedule : List Nat) :
    (c.run installed schedule).Sound installed := by
  induction schedule generalizing c with
  | nil => exact h
  | cons i rest ih => exact ih (h.step i)

theorem Sound.registry_step {c : Crew} (h : c.Sound installed) (i : Nat) :
    (c.step installed i).registry = c.registry ∨
      ∃ language outcome, c.registry.Open language ∧
        c.registry.outcome? installed language = some (.ok outcome) ∧
        (c.step installed i).registry = (c.registry.remember language outcome).registry := by
  cases hi : c.workers[i]? with
  | none => simp [Crew.step, hi]
  | some w =>
    have hknows := h.knows hi
    simp only [Crew.step, hi]
    cases hs : w.stage with
    | entering =>
      left
      cases hl : c.registry.loaded.get? w.language <;> simp [advance, hs, hl, Crew.move]
    | unloaded =>
      left
      simp only [advance, hs]
      split <;> rfl
    | waiting =>
      left
      simp only [advance, hs]
      split <;> rfl
    | inside => exact .inl (by simp [advance, hs, Crew.move])
    | loading pack => exact .inl (by simp [advance, hs, Crew.move])
    | storing outcome =>
      rw [hs] at hknows
      exact .inr ⟨w.language, outcome, hknows.2, hknows.1, by simp [advance, hs]⟩
    | leaving answer => exact .inl (by simp [advance, hs, Crew.move])
    | finished answer => exact .inl (by simp [advance, hs])

theorem Sound.grows {c : Crew} (h : c.Sound installed) (schedule : List Nat) :
    c.registry.Grows (c.run installed schedule).registry := by
  induction schedule generalizing c with
  | nil => exact .refl _
  | cons i rest ih =>
    refine Registry.Grows.trans ?_ (ih (h.step i))
    rcases h.registry_step i with he | ⟨language, outcome, hopen, _, he⟩
    · rw [he]
      exact .refl _
    · rw [he]
      exact hopen.grows outcome

/-- Whoever is done has what a single worker would have got: a crash, or the answer that the
registry holds by then. -/
theorem Sound.finished {c : Crew} (h : c.Sound installed) {r : Registry}
    (hr : r.Faithful installed) (hp : c.registry.packs = r.packs) {i : Nat} {w : LookupWorker}
    (hi : c.workers[i]? = some w) {answer : Except Crash (Option Profile)}
    (hs : w.stage = .finished answer) :
    answer = r.answer installed w.language ∧
      ∀ found, answer = .ok found →
        found = c.registry.loaded.get? w.language ∧
          (found = none → (c.registry.failed.get? w.language).isSome ∨
            r.packs.get? w.language = none) := by
  have hknows := h.knows hi
  rw [hs] at hknows
  obtain ⟨hsettled, ha⟩ := hknows
  refine ⟨by rw [hr.answer_eq, ha, Registry.outcome?_congr hp], fun found hfound => ?_⟩
  have hanswer := ha.symm.trans hfound
  have hloaded := h.faithful.loaded_of_settled hsettled hanswer
  refine ⟨hloaded.symm, ?_⟩
  rintro rfl
  rw [← hp]
  exact hsettled.none_found hanswer hloaded

/-- However the steps of any number of workers fall, the outcome of a load goes to one of the two
tables and stays there, and all answers for a language are the same. A language is loaded at most
once unless its module crashes; then it is loaded once for every worker that crashes with it. -/
theorem shared_lookups {r : Registry} (hr : r.Faithful installed) (languages : List Language)
    (schedule : List Nat) :
    let c := (start r languages).run installed schedule
    (∀ language, ¬ r.Crashes installed language → c.loads.count language ≤ 1) ∧
      (∀ language, r.Crashes installed language →
        c.loads.count language = c.workers.countP (LookupWorker.hasCrashed language)) ∧
      (∀ language,
        c.registry.loaded.get? language = none ∨ c.registry.failed.get? language = none) ∧
      (∀ i, (c.step installed i).registry = c.registry ∨
        ∃ language outcome, c.registry.Open language ∧
          c.registry.outcome? installed language = some (.ok outcome) ∧
          (c.step installed i).registry = (c.registry.remember language outcome).registry) ∧
      (∀ later, c.registry.Grows (c.run installed later).registry) ∧
      ∀ (i : Nat) (w : LookupWorker) (answer : Except Crash (Option Profile)),
        c.workers[i]? = some w → w.stage = .finished answer →
          answer = r.answer installed w.language ∧
            ∀ found, answer = .ok found →
              found = c.registry.loaded.get? w.language ∧
                (found = none → (c.registry.failed.get? w.language).isSome ∨
                  r.packs.get? w.language = none) := by
  intro c
  have hstart := sound_start hr languages
  have hc : c.Sound installed := hstart.run schedule
  have hp : c.registry.packs = r.packs := (hstart.grows schedule).packs
  have hcrashes : ∀ language,
      c.registry.Crashes installed language ↔ r.Crashes installed language :=
    Registry.crashes_congr hp
  exact ⟨fun language hnot => hc.once language (mt (hcrashes language).1 hnot),
    fun language hcrash => hc.again language ((hcrashes language).2 hcrash),
    hc.faithful.not_both, hc.registry_step, hc.grows, fun _ _ _ hi hs => hc.finished hr hp hi hs⟩

end Crew

namespace Workspace.Sample

def contention : List Nat := [0, 0, 1, 1, 0, 0, 0, 1, 0, 0, 1, 1, 1]

def profile : Profile := ⟨pack, Grammar.permissive, query⟩

/-- The second worker finds what the first one stored. -/
theorem contended_lookups : registry.Faithful workspace.installed ∧
    ¬ registry.Crashes workspace.installed .python ∧
    let c := (Crew.start registry [.python, .python]).run workspace.installed contention
    c.workers = List.replicate 2 ⟨.python, .finished (.ok (some profile))⟩ ∧
      c.loads.count .python ≤ 1 ∧ c.registry.loaded.get? .python = some profile := by
  have hr : registry.Faithful workspace.installed := Registry.faithful_ofPacks _
  have hcalm : ¬ registry.Crashes workspace.installed .python := by
    rintro ⟨crash, hcrash⟩
    cases hcrash
  have hrun : ((Crew.start registry [.python, .python]).run workspace.installed
      contention).workers = List.replicate 2 ⟨.python, .finished (.ok (some profile))⟩ := rfl
  obtain ⟨honce, _, _, _, _, hanswer⟩ := Crew.shared_lookups hr [.python, .python] contention
  have hfirst := hanswer 0 ⟨.python, .finished (.ok (some profile))⟩ _ (by rw [hrun]; rfl) rfl
  exact ⟨hr, hcalm, hrun, honce .python hcalm, (hfirst.2 _ rfl).1.symm⟩

/-- The second worker waits for the first one to leave the lock, and then loads again. -/
theorem crashed_load_runs_again :
    let c := (Crew.start registry [.python, .python]).run crashing (contention ++ [1])
    c.loads = [.python, .python] ∧
      c.workers = List.replicate 2 ⟨.python, .finished (.error loopless)⟩ ∧
      c.registry = registry :=
  ⟨rfl, rfl, rfl⟩

end Workspace.Sample

end SymbolAtlas
