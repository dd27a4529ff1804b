import SymbolAtlas.Registry
import SymbolAtlas.Proofs.Tables

/-!
What look-ups leave behind in a registry. A look-up settles its own language and touches no other,
so after any number of them the registry is known language by language.
-/

set_option autoImplicit false

namespace SymbolAtlas.Registry

variable (installed : Installation)

def answer (r : Registry) (language : Language) : Except Crash (Option Profile) :=
  (r.profileFor installed language).profile

def settle (r : Registry) (language : Language) : Registry :=
  (r.profileFor installed language).registry

/-- A look-up changes nothing, or it loads a pack for the first time and keeps the outcome. -/
theorem profileFor_cases (r : Registry) (language : Language) :
    (r.settle installed language = r) ∨
      (r.loaded.get? language = none ∧ r.failed.get? language = none ∧
        ((∃ profile, r.answer installed language = .ok (some profile) ∧
            r.settle installed language =
              { r with loaded := r.loaded.insert language profile }) ∨
          (∃ e, r.answer installed language = .ok none ∧
            r.settle installed language =
              { r with failed := r.failed.insert language e }))) := by
  cases hl : r.loaded.get? language with
  | some profile =>
    left
    simp [settle, profileFor, hl]
  | none =>
    cases hf : r.failed.get? language with
    | some e =>
      left
      simp [settle, profileFor, hl, Table.contains, hf]
    | none =>
      cases hp : r.packs.get? language with
      | none =>
        left
        simp [settle, profileFor, hl, Table.contains, hf, hp]
      | some pack =>
        cases ho : installed.prepare pack with
        | error crash =>
          left
          simp [settle, profileFor, hl, Table.contains, hf, hp, ho]
        | ok outcome =>
          right
          refine ⟨rfl, rfl, ?_⟩
          cases outcome with
          | ok profile =>
            left
            exact ⟨profile, by simp [answer, profileFor, hl, Table.contains, hf, hp, ho, remember],
              by simp [settle, profileFor, hl, Table.contains, hf, hp, ho, remember]⟩
          | error e =>
            right
            exact ⟨e, by simp [answer, profileFor, hl, Table.contains, hf, hp, ho, remember],
              by simp [settle, profileFor, hl, Table.contains, hf, hp, ho, remember]⟩

@[simp] theorem packs_settle (r : Registry) (language : Language) :
    (r.settle installed language).packs = r.packs := by
  rcases profileFor_cases installed r language with h | ⟨_, _, ⟨_, _, h⟩ | ⟨_, _, h⟩⟩
  · rw [h]
  · rw [h]
  · rw [h]

theorem loaded_settle_of_ne (r : Registry) {language other : Language} (h : language ≠ other) :
    (r.settle installed language).loaded.get? other = r.loaded.get? other := by
  rcases profileFor_cases installed r language with he | ⟨_, _, ⟨_, _, he⟩ | ⟨_, _, he⟩⟩
  · rw [he]
  · rw [he, Table.get?_insert, if_neg h]
  · rw [he]

theorem failed_settle_of_ne (r : Registry) {language other : Language} (h : language ≠ other) :
    (r.settle installed language).failed.get? other = r.failed.get? other := by
  rcases profileFor_cases installed r language with he | ⟨_, _, ⟨_, _, he⟩ | ⟨_, _, he⟩⟩
  · rw [he]
  · rw [he]
  · rw [he, Table.get?_insert, if_neg h]

theorem profileFor_congr {r s : Registry} {language : Language} (hp : r.packs = s.packs)
    (hl : r.loaded.get? language = s.loaded.get? language)
    (hf : r.failed.get? language = s.failed.get? language) :
    r.answer installed language = s.answer installed language ∧
      (r.settle installed language).loaded.get? language =
        (s.settle installed language).loaded.get? language ∧
      (r.settle installed language).failed.get? language =
        (s.settle installed language).failed.get? language := by
  cases hs : s.loaded.get? language with
  | some profile => simp [answer, settle, profileFor, hl, hf, hs]
  | none =>
    cases hsf : s.failed.get? language with
    | some e => simp [answer, settle, profileFor, hl, hf, hs, Table.contains, hsf]
    | none =>
      cases hsp : s.packs.get? language with
      | none => simp [answer, settle, profileFor, hl, hf, hs, Table.contains, hsf, hp, hsp]
      | some pack =>
        cases ho : installed.prepare pack with
        | error crash =>
          simp [answer, settle, profileFor, hl, hf, hs, Table.contains, hsf, hp, hsp, ho]
        | ok outcome =>
          cases outcome with
          | ok profile =>
            simp [answer, settle, profileFor, hl, hf, hs, Table.contains, hsf, hp, hsp, ho,
              remember, Table.get?_insert]
          | error e =>
            simp [answer, settle, profileFor, hl, hf, hs, Table.contains, hsf, hp, hsp, ho,
              remember, Table.get?_insert]

theorem profileFor_again (r : Registry) (language : Language) :
    (r.settle installed language).answer installed language = r.answer installed language ∧
      (r.settle installed language).settle installed language = r.settle installed language := by
  rcases profileFor_cases installed r language with h | ⟨hl, hf, ⟨p, ha, h⟩ | ⟨e, ha, h⟩⟩
  · rw [h]
    exact ⟨rfl, h⟩
  · rw [h, ha]
    simp [answer, settle, profileFor, Table.get?_insert]
  · rw [h, ha]
    simp [answer, settle, profileFor, hl, Table.contains, Table.get?_insert]

/-- Whichever look-ups come first, the answer stays the same. -/
theorem answer_settle (r : Registry) (language other : Language) :
    (r.settle installed language).answer installed other = r.answer installed other := by
  by_cases h : language = other
  · subst h
    exact (profileFor_again installed r language).1
  · exact (profileFor_congr installed (packs_settle installed r language)
      (loaded_settle_of_ne installed r h) (failed_settle_of_ne installed r h)).1

def settleAll (r : Registry) (languages : List Language) : Registry :=
  languages.foldl (settle installed) r

@[simp] theorem settleAll_nil (r : Registry) : r.settleAll installed [] = r := rfl

@[simp] theorem settleAll_cons (r : Registry) (language : Language) (rest : List Language) :
    r.settleAll installed (language :: rest) =
      (r.settle installed language).settleAll installed rest := rfl

theorem settleAll_append (r : Registry) (xs ys : List Language) :
    r.settleAll installed (xs ++ ys) = (r.settleAll installed xs).settleAll installed ys :=
  List.foldl_append

@[simp] theorem packs_settleAll (r : Registry) (languages : List Language) :
    (r.settleAll installed languages).packs = r.packs := by
  induction languages generalizing r with
  | nil => rfl
  | cons language rest ih => rw [settleAll_cons, ih, packs_settle]

theorem answer_settleAll (r : Registry) (languages : List Language) (language : Language) :
    (r.settleAll installed languages).answer installed language =
      r.answer installed language := by
  induction languages generalizing r with
  | nil => rfl
  | cons other rest ih => rw [settleAll_cons, ih, answer_settle]

/-- A language that was looked up is as one look-up leaves it; any other is as it was. -/
theorem get?_settleAll (r : Registry) (languages : List Language) (language : Language) :
    (r.settleAll installed languages).loaded.get? language =
        (if language ∈ languages then r.settle installed language else r).loaded.get? language ∧
      (r.settleAll installed languages).failed.get? language =
        (if language ∈ languages then r.settle installed language else r).failed.get? language := by
  induction languages generalizing r with
  | nil => simp
  | cons other rest ih =>
    rw [settleAll_cons]
    obtain ⟨hl, hf⟩ := ih (r.settle installed other)
    rw [hl, hf]
    by_cases h : other = language
    · subst h
      by_cases hm : other ∈ rest
      · simp [hm, (profileFor_again installed r other).2]
      · simp [hm]
    · have h' : ¬ language = other := fun e => h e.symm
      by_cases hm : language ∈ rest
      · have hc := profileFor_congr installed (packs_settle installed r other)
          (loaded_settle_of_ne installed r h) (failed_settle_of_ne installed r h)
        simpa [hm, h'] using hc.2
      · simp [hm, h', loaded_settle_of_ne installed r h, failed_settle_of_ne installed r h]

section Faithful

/-- What loading a language comes to. There is nothing to load without a pack. -/
def outcome? (r : Registry) (language : Language) :
    Option (Except Crash (Except GrammarError Profile)) :=
  (r.packs.get? language).map installed.prepare

def answerOf : Option (Except Crash (Except GrammarError Profile)) → Except Crash (Option Profile)
  | none => .ok none
  | some (.error crash) => .error crash
  | some (.ok outcome) => .ok outcome.toOption

/-- Whatever is kept of a language is what loading it comes to. -/
structure Faithful (r : Registry) : Prop where
  loaded : ∀ {language profile}, r.loaded.get? language = some profile →
    r.outcome? installed language = some (.ok (.ok profile))
  failed : ∀ {language e}, r.failed.get? language = some e →
    r.outcome? installed language = some (.ok (.error e))

variable {installed}

theorem faithful_ofPacks (packs : PackTable) : (ofPacks packs).Faithful installed := by
  constructor
  · intro language profile h
    simp [ofPacks] at h
  · intro language e h
    simp [ofPacks] at h

theorem outcome?_congr {r s : Registry} (h : r.packs = s.packs) (language : Language) :
    r.outcome? installed language = s.outcome? installed language := by
  rw [outcome?, outcome?, h]

theorem Faithful.not_both {r : Registry} (h : r.Faithful installed) (language : Language) :
    r.loaded.get? language = none ∨ r.failed.get? language = none := by
  cases hl : r.loaded.get? language with
  | none => exact .inl rfl
  | some profile =>
    right
    cases hf : r.failed.get? language with
    | none => rfl
    | some e => exact absurd ((h.loaded hl).symm.trans (h.failed hf)) (by simp)

theorem profileFor_eq (r : Registry) (language : Language) :
    (∃ profile, r.loaded.get? language = some profile ∧
        r.profileFor installed language = ⟨.ok (some profile), r, []⟩) ∨
      (r.loaded.get? language = none ∧
        (r.packs.get? language = none ∨ ∃ e, r.failed.get? language = some e) ∧
        r.profileFor installed language = ⟨.ok none, r, []⟩) ∨
      (∃ crash, r.loaded.get? language = none ∧ r.failed.get? language = none ∧
        r.outcome? installed language = some (.error crash) ∧
        r.profileFor installed language = ⟨.error crash, r, []⟩) ∨
      ∃ outcome, r.loaded.get? language = none ∧ r.failed.get? language = none ∧
        r.outcome? installed language = some (.ok outcome) ∧
        r.profileFor installed language = r.remember language outcome := by
  cases hl : r.loaded.get? language with
  | some profile => exact .inl ⟨profile, rfl, by simp [profileFor, hl]⟩
  | none =>
    right
    cases hf : r.failed.get? language with
    | some e =>
      left
      exact ⟨rfl, .inr ⟨e, rfl⟩, by simp [profileFor, hl, Table.contains, hf]⟩
    | none =>
      cases hp : r.packs.get? language with
      | none =>
        left
        exact ⟨rfl, .inl rfl, by simp [profileFor, hl, Table.contains, hf, hp]⟩
      | some pack =>
        right
        cases ho : installed.prepare pack with
        | error crash =>
          exact .inl ⟨crash, rfl, rfl, by simp [outcome?, hp, ho],
            by simp [profileFor, hl, Table.contains, hf, hp, ho]⟩
        | ok outcome =>
          exact .inr ⟨outcome, rfl, rfl, by simp [outcome?, hp, ho],
            by simp [profileFor, hl, Table.contains, hf, hp, ho]⟩

/-- A look-up answers with what loading comes to, whether it is kept already or not. -/
theorem Faithful.answer_eq {r : Registry} (h : r.Faithful installed) (language : Language) :
    r.answer installed language = answerOf (r.outcome? installed language) := by
  rcases profileFor_eq r language with ⟨profile, hl, he⟩ | ⟨_, hp | ⟨e, hf⟩, he⟩ |
    ⟨crash, _, _, ho, he⟩ | ⟨outcome, _, _, ho, he⟩
  · rw [answer, he, h.loaded hl]
    rfl
  · rw [answer, he, outcome?, hp]
    rfl
  · rw [answer, he, h.failed hf]
    rfl
  · rw [answer, he, ho]
    rfl
  · rw [answer, he, ho]
    cases outcome with
    | ok profile => rfl
    | error e => rfl

theorem Faithful.answer_congr {r s : Registry} (hr : r.Faithful installed)
    (hs : s.Faithful installed) (hp : r.packs = s.packs) (language : Language) :
    r.answer installed language = s.answer installed language := by
  rw [hr.answer_eq, hs.answer_eq, outcome?_congr hp]

theorem Faithful.remember {r : Registry} (h : r.Faithful installed) {language : Language}
    {outcome : Except GrammarError Profile}
    (ho : r.outcome? installed language = some (.ok outcome)) :
    (r.remember language outcome).registry.Faithful installed := by
  cases outcome with
  | ok profile =>
    constructor
    · intro other p hp
      by_cases he : language = other
      · subst he
        simp only [Registry.remember, Table.get?_insert, if_true, Option.some.injEq] at hp
        subst hp
        exact ho
      · simp only [Registry.remember, Table.get?_insert, he, if_false] at hp
        exact h.loaded hp
    · intro other e he
      exact h.failed he
  | error e =>
    constructor
    · intro other p hp
      exact h.loaded hp
    · intro other e' he'
      by_cases he : language = other
      · subst he
        simp only [Registry.remember, Table.get?_insert, if_true, Option.some.injEq] at he'
        subst he'
        exact ho
      · simp only [Registry.remember, Table.get?_insert, he, if_false] at he'
        exact h.failed he'

theorem Faithful.settle {r : Registry} (h : r.Faithful installed) (language : Language) :
    (r.settle installed language).Faithful installed := by
  rcases profileFor_eq r language with ⟨_, _, he⟩ | ⟨_, _, he⟩ | ⟨_, _, _, _, he⟩ |
    ⟨outcome, _, _, ho, he⟩
  · rwa [Registry.settle, he]
  · rwa [Registry.settle, he]
  · rwa [Registry.settle, he]
  · rw [Registry.settle, he]
    exact h.remember ho

theorem Faithful.settleAll {r : Registry} (h : r.Faithful installed)
    (languages : List Language) : (r.settleAll installed languages).Faithful installed := by
  induction languages generalizing r with
  | nil => exact h
  | cons language rest ih => exact ih (h.settle language)

end Faithful

end SymbolAtlas.Registry
