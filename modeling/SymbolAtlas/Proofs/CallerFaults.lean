import SymbolAtlas.Proofs.CallerLists
import SymbolAtlas.Proofs.Homes

/-!
References that go astray. Lists are opened where a file scores a token that is at home there, and
counting references opens no list and closes none. So the homes and the scores alone decide whether
a reference finds its list, and the first one that does not ends the count.
-/

set_option autoImplicit false

namespace SymbolAtlas

variable {σ : Type}

namespace CallerTable

theorem mem_keys_iff_layout (callers : CallerTable) (path : String) :
    path ∈ callers.keys ↔ ∃ tokens, (path, tokens) ∈ callers.layout := by
  simp [keys_eq_layout]

theorem isSome_list?_iff_layout (callers : CallerTable) (path token : String) :
    (callers.list? path token).isSome ↔
      ∃ tokens, (path, tokens) ∈ callers.layout ∧ token ∈ tokens := by
  simp only [mem_layout]
  cases h : callers.get? path with
  | none => simp [list?, h]
  | some lists => simp [list?, h, Table.isSome_get?_iff]

end CallerTable

namespace Callers

variable (scores : ScoreTable σ) (definers : Table String String)

/-- A token with a home that does not score it. -/
def Astray (token : String) : Prop :=
  ∃ home, definers.get? token = some home ∧ scores.score? home token = none

def Hosts (home : String) : Prop :=
  ∃ token, (scores.score? home token).isSome ∧ definers.get? token = some home

/-- What is missed where a token goes astray: the home as a whole if nothing is at home there, and
otherwise the token. -/
inductive Missed (home token : String) : CallerFault → Prop
  | file (h : ¬ Hosts scores definers home) : Missed home token (.noFile home)
  | token (h : Hosts scores definers home) : Missed home token (.noToken token)

def Kept (callers : CallerTable) : Prop := callers.layout = (opened scores definers).layout

namespace Kept

variable {scores definers} {callers : CallerTable} (h : Kept scores definers callers)

include h

theorem isSome_list?_iff (home token : String) :
    (callers.list? home token).isSome ↔
      definers.get? token = some home ∧ (scores.score? home token).isSome := by
  rw [CallerTable.isSome_list?_iff_layout, h, ← CallerTable.isSome_list?_iff_layout,
    list?_opened, ScoreTable.isSome_score?_iff]
  split
  · next hc => exact ⟨fun _ => hc, fun _ => rfl⟩
  · next hc => exact ⟨fun hn => absurd hn (by simp), fun hn => absurd hn hc⟩

theorem mem_keys_iff (home : String) : home ∈ callers.keys ↔ Hosts scores definers home := by
  have hlist : Hosts scores definers home ↔ ∃ token, (callers.list? home token).isSome := by
    simp only [Hosts, h.isSome_list?_iff, and_comm]
  simp only [hlist, CallerTable.isSome_list?_iff_layout, CallerTable.mem_keys_iff_layout]
  constructor
  · rintro ⟨tokens, hm⟩
    -- A file is opened with the first list, so none stands there without any.
    have hne : tokens ≠ [] := by
      have hopened := hm
      rw [h, layout_opened, List.mem_filter] at hopened
      simpa using hopened.2
    obtain ⟨token, ht⟩ := List.exists_mem_of_ne_nil tokens hne
    exact ⟨token, tokens, hm, ht⟩
  · rintro ⟨_, tokens, hm, _⟩
    exact ⟨tokens, hm⟩

theorem append_error {home token : String} (hs : scores.score? home token = none)
    (caller : String) :
    ∃ e, append callers home token caller = .error e ∧ Missed scores definers home token e := by
  have hlist : callers.list? home token = none := by
    rw [← Option.not_isSome_iff_eq_none, h.isSome_list?_iff, hs]
    simp
  cases hg : callers.get? home with
  | none =>
    refine ⟨.noFile home, by simp [append, hg], .file ?_⟩
    rwa [← h.mem_keys_iff, ← Table.get?_eq_none_iff]
  | some lists =>
    have ht : lists.get? token = none := by simpa [CallerTable.list?, hg] using hlist
    refine ⟨.noToken token, by simp [append, hg, ht], .token ?_⟩
    rw [← h.mem_keys_iff]
    exact Table.mem_keys_of_get? hg

end Kept

variable {scores definers}

theorem refer_kept {a : Attribution} (h : Kept scores definers a.callers) {ref : String × String}
    (hr : ¬ Astray scores definers ref.2) :
    ∃ a', refer definers ref.1 a ref.2 = .ok a' ∧ Kept scores definers a'.callers := by
  cases hd : definers.get? ref.2 with
  | none => exact ⟨⟨a.callers, a.dropped + 1⟩, by simp [refer, hd], h⟩
  | some home =>
    have hscored : (scores.score? home ref.2).isSome :=
      Option.isSome_iff_ne_none.2 fun hs => hr ⟨home, hd, hs⟩
    obtain ⟨list, hlist⟩ :=
      Option.isSome_iff_exists.1 ((h.isSome_list?_iff home ref.2).2 ⟨hd, hscored⟩)
    obtain ⟨callers', happend, hlayout, _⟩ := append_ok hlist ref.1
    exact ⟨⟨callers', a.dropped⟩, by simp [refer, hd, happend], hlayout.trans h⟩

theorem refer_astray {a : Attribution} (h : Kept scores definers a.callers)
    {ref : String × String} {home : String} (hd : definers.get? ref.2 = some home)
    (hs : scores.score? home ref.2 = none) :
    ∃ e, refer definers ref.1 a ref.2 = .error e ∧ Missed scores definers home ref.2 e := by
  obtain ⟨e, happend, hmissed⟩ := h.append_error hs ref.1
  exact ⟨e, by simp [refer, hd, happend], hmissed⟩

theorem foldlM_refer_kept {refs : List (String × String)}
    (hr : ∀ ref ∈ refs, ¬ Astray scores definers ref.2) {a : Attribution}
    (h : Kept scores definers a.callers) :
    ∃ a', refs.foldlM (fun a ref => refer definers ref.1 a ref.2) a = .ok a' ∧
      Kept scores definers a'.callers := by
  induction refs generalizing a with
  | nil => exact ⟨a, rfl, h⟩
  | cons ref rest ih =>
    obtain ⟨b, hb, hkept⟩ := refer_kept h (hr ref List.mem_cons_self)
    obtain ⟨c, hc, hkept'⟩ := ih (fun r hm => hr r (List.mem_cons_of_mem ref hm)) hkept
    refine ⟨c, ?_, hkept'⟩
    rw [List.foldlM_cons, hb]
    exact hc

variable (scores definers) in
def tally (refs : List (String × String)) : Except CallerFault Attribution :=
  refs.foldlM (fun a ref => refer definers ref.1 a ref.2) ⟨opened scores definers, 0⟩

theorem assign_eq_tally (facts : List FileFacts) :
    assign scores facts definers = tally scores definers (references facts) :=
  foldlM_referAll definers facts _

theorem tally_ok {refs : List (String × String)}
    (hr : ∀ ref ∈ refs, ¬ Astray scores definers ref.2) :
    ∃ a, tally scores definers refs = .ok a ∧ Kept scores definers a.callers :=
  foldlM_refer_kept hr rfl

/-- The first reference that goes astray ends the count, whatever comes after it. -/
theorem tally_error {before : List (String × String)} {home : String}
    (hr : ∀ r ∈ before, ¬ Astray scores definers r.2) (ref : String × String)
    (hd : definers.get? ref.2 = some home) (hs : scores.score? home ref.2 = none)
    (after : List (String × String)) :
    ∃ a e, tally scores definers before = .ok a ∧ refer definers ref.1 a ref.2 = .error e ∧
      tally scores definers (before ++ ref :: after) = .error e ∧
      Missed scores definers home ref.2 e := by
  obtain ⟨a, ha, hkept⟩ := tally_ok hr
  obtain ⟨e, he, hmissed⟩ := refer_astray hkept hd hs
  refine ⟨a, e, ha, he, ?_, hmissed⟩
  rw [tally] at ha ⊢
  rw [List.foldlM_append, ha]
  simp [bind, Except.bind, he]

theorem exists_first_astray {refs : List (String × String)}
    (h : ∃ ref ∈ refs, Astray scores definers ref.2) :
    ∃ before ref after, refs = before ++ ref :: after ∧
      (∀ r ∈ before, ¬ Astray scores definers r.2) ∧ Astray scores definers ref.2 := by
  classical
  obtain ⟨ref, hm, hastray⟩ := h
  obtain ⟨first, hfirst⟩ := Option.isSome_iff_exists.1
    ((List.find?_isSome (p := fun ref => decide (Astray scores definers ref.2))).2
      ⟨ref, hm, decide_eq_true hastray⟩)
  obtain ⟨hp, before, after, hrefs, hbefore⟩ := List.find?_eq_some_iff_append.1 hfirst
  exact ⟨before, first, after, hrefs, fun r hr => by simpa using hbefore r hr, by simpa using hp⟩

theorem mem_references (facts : List FileFacts) (ref : String × String) :
    ref ∈ references facts ↔ ∃ f ∈ facts, f.path = ref.1 ∧ ref.2 ∈ f.references := by
  simp only [references, List.mem_flatMap, List.mem_map]
  constructor
  · rintro ⟨f, hf, token, ht, rfl⟩
    exact ⟨f, hf, rfl, ht⟩
  · rintro ⟨f, hf, hpath, ht⟩
    exact ⟨f, hf, ref.2, ht, Prod.ext hpath rfl⟩

theorem assign_error_iff (facts : List FileFacts) :
    (∃ e, assign scores facts definers = .error e) ↔
      ∃ f ∈ facts, ∃ token ∈ f.references, Astray scores definers token := by
  have hrefs : (∃ f ∈ facts, ∃ token ∈ f.references, Astray scores definers token) ↔
      ∃ ref ∈ references facts, Astray scores definers ref.2 := by
    simp only [mem_references]
    constructor
    · rintro ⟨f, hf, token, ht, hastray⟩
      exact ⟨(f.path, token), ⟨f, hf, rfl, ht⟩, hastray⟩
    · rintro ⟨ref, ⟨f, hf, _, ht⟩, hastray⟩
      exact ⟨f, hf, ref.2, ht, hastray⟩
  rw [hrefs, assign_eq_tally]
  constructor
  · rintro ⟨e, he⟩
    by_contra hnone
    have hall : ∀ ref ∈ references facts, ¬ Astray scores definers ref.2 :=
      fun ref hm hastray => hnone ⟨ref, hm, hastray⟩
    obtain ⟨a, ha, _⟩ := tally_ok hall
    exact absurd (ha.symm.trans he) (by simp)
  · intro h
    obtain ⟨before, ref, after, hsplit, hbefore, home, hd, hs⟩ := exists_first_astray h
    obtain ⟨_, e, _, _, he, _⟩ := tally_error hbefore ref hd hs after
    exact ⟨e, hsplit ▸ he⟩

/-- With the homes that the scores themselves give, no token goes astray. -/
theorem not_astray_definers [BEq σ] [LT σ] [DecidableLT σ] (scores : ScoreTable σ)
    (token : String) : ¬ Astray scores scores.definers token := by
  rintro ⟨home, hd, hs⟩
  obtain ⟨score, hscore⟩ := ScoreTable.exists_score?_of_definers hd
  exact absurd (hscore.symm.trans hs) (by simp)

end Callers

open Callers

/-- Counting references fails exactly if some token goes astray. All references before the first
such one are counted; that one ends the count and misses its home, if nothing is at home there, and
otherwise the token. With the homes that the scores give, counting never fails. -/
theorem astray_reference_ends_count [BEq σ] [LT σ] [DecidableLT σ] (scores : ScoreTable σ)
    (facts : List FileFacts) (definers : Table String String) :
    ((∃ e, assign scores facts definers = .error e) ↔
      ∃ f ∈ facts, ∃ token ∈ f.references, ∃ home, definers.get? token = some home ∧
        scores.score? home token = none) ∧
    (∀ before caller token after home, references facts = before ++ (caller, token) :: after →
      (∀ ref ∈ before, ¬ Astray scores definers ref.2) →
      definers.get? token = some home → scores.score? home token = none →
      ∃ a e, tally scores definers before = .ok a ∧ refer definers caller a token = .error e ∧
        assign scores facts definers = .error e ∧ Missed scores definers home token e) ∧
    ∃ a, assign scores facts scores.definers = .ok a := by
  refine ⟨assign_error_iff facts, ?_, ?_⟩
  · intro before caller token after home hrefs hbefore hd hs
    rw [assign_eq_tally, hrefs]
    exact tally_error hbefore (caller, token) hd hs after
  · rw [assign_eq_tally]
    obtain ⟨a, ha, _⟩ := tally_ok fun ref (_ : ref ∈ references facts) =>
      not_astray_definers scores ref.2
    exact ⟨a, ha⟩

namespace Callers.Sample

/-- `g` is scored elsewhere than at its home, and the home of `h` is not scored at all. -/
def scores : ScoreTable Nat :=
  ⟨[("a.py", ⟨[("f", 1)], by decide⟩), ("b.py", ⟨[("g", 1)], by decide⟩)], by decide⟩

def homes : Table String String := ⟨[("f", "a.py"), ("g", "a.py"), ("h", "c.py")], by decide⟩

def calling (tokens : List String) : FileFacts :=
  { FileFacts.blank "b.py" none with references := tokens }

end Callers.Sample

open Callers.Sample in
/-- The reference to `g` misses the token, as `f` is at home where it leads, and the reference to
`h` misses the file. What is counted before makes no difference, and what comes after is not
reached. -/
theorem astray_references_of_sample :
    assign scores [calling ["f"], calling ["x", "g", "h"]] homes = .error (.noToken "g") ∧
    assign scores [calling ["f", "h", "g"]] homes = .error (.noFile "c.py") ∧
    ∃ a, assign scores [calling ["h", "g", "f"]] scores.definers = .ok a := by
  have hf : ¬ Astray scores homes "f" := by
    rintro ⟨home, hd, hs⟩
    obtain rfl : "a.py" = home := Option.some.inj hd
    exact absurd hs (by decide)
  have hx : ¬ Astray scores homes "x" := by
    have hnone : homes.get? "x" = none := by decide
    rintro ⟨home, hd, _⟩
    exact absurd (hnone.symm.trans hd) (by simp)
  refine ⟨?_, ?_, (astray_reference_ends_count scores [calling ["h", "g", "f"]] homes).2.2⟩
  · obtain ⟨_, _, _, _, he, hmissed⟩ :=
      (astray_reference_ends_count scores [calling ["f"], calling ["x", "g", "h"]] homes).2.1
        [("b.py", "f"), ("b.py", "x")] "b.py" "g" [("b.py", "h")] "a.py" rfl (by simp [hf, hx])
        (by decide) (by decide)
    cases hmissed with
    | file h => exact absurd ⟨"f", by decide, by decide⟩ h
    | token _ => exact he
  · obtain ⟨_, _, _, _, he, hmissed⟩ :=
      (astray_reference_ends_count scores [calling ["f", "h", "g"]] homes).2.1
        [("b.py", "f")] "b.py" "h" [("b.py", "g")] "c.py" rfl (by simp [hf]) (by decide) (by decide)
    cases hmissed with
    | file _ => exact he
    | token h =>
      obtain ⟨token, hs, _⟩ := h
      exact absurd hs (by simp [ScoreTable.score?, Table.get?, Table.lookup, scores])

end SymbolAtlas
