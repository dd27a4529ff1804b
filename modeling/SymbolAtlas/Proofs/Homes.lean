import Mathlib.Data.Prod.Lex
import Mathlib.Data.String.Basic
import Mathlib.Order.OrderDual
import SymbolAtlas.Definers
import SymbolAtlas.Proofs.Tables

/-!
The home of a token as a choice among the offers made for it. Files offer their tokens in turn; for
one token only its own offers count, and the choice among them is a running best.
-/

set_option autoImplicit false

namespace SymbolAtlas

variable {σ : Type}

namespace ScoreTable

def score? (scores : ScoreTable σ) (path token : String) : Option σ :=
  (scores.get? path).bind fun row => row.get? token

theorem isSome_score?_iff (scores : ScoreTable σ) (path token : String) :
    (scores.score? path token).isSome ↔
      ∃ row, scores.get? path = some row ∧ token ∈ row.keys := by
  cases h : scores.get? path with
  | none => simp [score?, h]
  | some row => simp [score?, h, Table.isSome_get?_iff]

def offers (scores : ScoreTable σ) : List (String × σ × String) :=
  scores.entries.flatMap fun row => row.2.entries.map fun entry => (entry.1, entry.2, row.1)

theorem mem_offers (scores : ScoreTable σ) (token path : String) (score : σ) :
    (token, score, path) ∈ scores.offers ↔ scores.score? path token = some score := by
  simp only [offers, score?, List.mem_flatMap, List.mem_map, Option.bind_eq_some_iff]
  constructor
  · rintro ⟨⟨p, row⟩, hrow, ⟨t, s⟩, hentry, he⟩
    simp only [Prod.mk.injEq] at he
    obtain ⟨rfl, rfl, rfl⟩ := he
    exact ⟨row, (Table.get?_eq_some_iff ..).2 hrow, (Table.get?_eq_some_iff ..).2 hentry⟩
  · rintro ⟨row, hrow, hentry⟩
    exact ⟨(path, row), (Table.get?_eq_some_iff ..).1 hrow, (token, score),
      (Table.get?_eq_some_iff ..).1 hentry, rfl⟩

end ScoreTable

namespace Definers

def candidates (token : String) (offers : List (String × σ × String)) : List (σ × String) :=
  offers.filterMap fun o => if o.1 = token then some o.2 else none

theorem mem_candidates (token : String) (offers : List (String × σ × String))
    (c : σ × String) : c ∈ candidates token offers ↔ (token, c) ∈ offers := by
  simp only [candidates, List.mem_filterMap, Option.ite_none_right_eq_some, Option.some.injEq]
  constructor
  · rintro ⟨⟨t, c'⟩, hm, rfl, rfl⟩
    exact hm
  · intro hm
    exact ⟨(token, c), hm, rfl, rfl⟩

/-- Candidates in the order of preference: the higher score first, then the lesser path. -/
def preference (c : σ × String) : σᵒᵈ ×ₗ String := toLex (OrderDual.toDual c.1, c.2)

theorem preference_injective : Function.Injective (preference (σ := σ)) := by
  intro a b h
  obtain ⟨hs, hp⟩ := Prod.mk.inj (toLex.injective h)
  exact Prod.ext (OrderDual.toDual.injective hs) hp

section Choice

variable [BEq σ] [LT σ] [DecidableLT σ]

def choose (home : Option (σ × String)) (candidate : σ × String) : Option (σ × String) :=
  match home with
  | none => some candidate
  | some home => if better candidate.1 candidate.2 home then some candidate else some home

theorem get?_offer (path token : String) (homes : Table String (σ × String))
    (row : String × σ) :
    (offer path homes row).get? token =
      if row.1 = token then choose (homes.get? token) (row.2, path) else homes.get? token := by
  by_cases ht : row.1 = token
  · subst ht
    cases hg : homes.get? row.1 with
    | none => simp [offer, hg, choose, Table.get?_insert]
    | some home =>
      by_cases hb : better row.2 path home = true
      · simp [offer, hg, choose, hb, Table.get?_insert]
      · simp [offer, hg, choose, hb]
  · cases hg : homes.get? row.1 with
    | none => simp [offer, hg, ht, Table.get?_insert]
    | some home =>
      by_cases hb : better row.2 path home = true
      · simp [offer, hg, hb, ht, Table.get?_insert]
      · simp [offer, hg, hb, ht]

theorem keys_offer (path : String) (homes : Table String (σ × String)) (row : String × σ) :
    (offer path homes row).keys =
      if row.1 ∈ homes.keys then homes.keys else homes.keys ++ [row.1] := by
  cases hg : homes.get? row.1 with
  | none =>
    rw [offer, hg]
    exact homes.keys_insert row.1 _
  | some home =>
    have hmem := Table.mem_keys_of_get? hg
    by_cases hb : better row.2 path home = true
    · simp [offer, hg, hb, hmem, Table.keys_insert]
    · simp [offer, hg, hb, hmem]

theorem get?_foldl_offer (token : String) (offers : List (String × σ × String))
    (homes : Table String (σ × String)) :
    (offers.foldl (fun homes o => offer o.2.2 homes (o.1, o.2.1)) homes).get? token =
      (candidates token offers).foldl choose (homes.get? token) := by
  induction offers generalizing homes with
  | nil => rfl
  | cons o rest ih =>
    rw [List.foldl_cons, ih, get?_offer]
    by_cases ht : o.1 = token
    · simp [candidates, ht]
    · simp [candidates, ht]

theorem foldl_choose_some (cs : List (σ × String)) (home : σ × String) :
    ∃ best, cs.foldl choose (some home) = some best ∧ best ∈ home :: cs := by
  induction cs generalizing home with
  | nil => exact ⟨home, rfl, List.mem_cons_self⟩
  | cons c rest ih =>
    by_cases hb : better c.1 c.2 home = true
    · obtain ⟨best, hbest, hm⟩ := ih c
      exact ⟨best, by simpa [choose, hb] using hbest, List.mem_cons_of_mem _ hm⟩
    · obtain ⟨best, hbest, hm⟩ := ih home
      refine ⟨best, by simpa [choose, hb] using hbest, ?_⟩
      rcases List.mem_cons.1 hm with h | h
      · simp [h]
      · simp [h]

theorem foldl_choose_eq_none_iff (cs : List (σ × String)) :
    cs.foldl choose none = none ↔ cs = [] := by
  cases cs with
  | nil => simp
  | cons c rest =>
    obtain ⟨best, hbest, _⟩ := foldl_choose_some rest c
    simp [choose, hbest]

theorem mem_of_foldl_choose {cs : List (σ × String)} {best : σ × String}
    (h : cs.foldl choose none = some best) : best ∈ cs := by
  cases cs with
  | nil => simp at h
  | cons c rest =>
    obtain ⟨best', hbest, hm⟩ := foldl_choose_some rest c
    simp only [List.foldl_cons, choose, hbest, Option.some.injEq] at h
    exact h ▸ hm

end Choice

end Definers

namespace ScoreTable

variable [BEq σ] [LT σ] [DecidableLT σ]

open Definers

theorem foldl_offerFile (scores : ScoreTable σ) :
    scores.entries.foldl offerFile Table.empty =
      scores.offers.foldl (fun homes o => offer o.2.2 homes (o.1, o.2.1)) Table.empty := by
  simp only [offers, List.foldl_flatMap, List.foldl_map]
  rfl

theorem get?_definers (scores : ScoreTable σ) (token : String) :
    scores.definers.get? token =
      ((candidates token scores.offers).foldl choose none).map Prod.snd := by
  rw [definers, Table.get?_mapWithKey, foldl_offerFile, get?_foldl_offer]
  rfl

theorem keys_definers (scores : ScoreTable σ) :
    scores.definers.keys = firstSeen (scores.entries.flatMap fun row => row.2.keys) := by
  have hfold : ∀ offers : List (String × σ × String),
      (offers.foldl (fun homes o => offer o.2.2 homes (o.1, o.2.1)) Table.empty).keys =
        firstSeen (offers.map Prod.fst) := by
    intro offers
    induction offers using List.reverseRecOn with
    | nil => rfl
    | append_singleton offers o ih =>
      rw [List.foldl_append, List.map_append, List.map_singleton, firstSeen_concat, ← ih]
      exact keys_offer _ _ _
  rw [definers, Table.keys_mapWithKey, foldl_offerFile, hfold, offers, List.map_flatMap]
  simp [Table.keys, Function.comp_def]

theorem isSome_get?_definers (scores : ScoreTable σ) (token : String) :
    (scores.definers.get? token).isSome ↔ ∃ path, (scores.score? path token).isSome := by
  rw [get?_definers, Option.isSome_map, ← Option.ne_none_iff_isSome, ne_eq,
    foldl_choose_eq_none_iff, List.eq_nil_iff_forall_not_mem]
  simp only [mem_candidates, not_forall, not_not, Prod.exists, mem_offers,
    Option.isSome_iff_exists]
  exact exists_comm

theorem exists_score?_of_definers {scores : ScoreTable σ} {token path : String}
    (h : scores.definers.get? token = some path) :
    ∃ score, scores.score? path token = some score := by
  rw [get?_definers, Option.map_eq_some_iff] at h
  obtain ⟨⟨score, p⟩, hbest, rfl⟩ := h
  have hm := mem_of_foldl_choose hbest
  rw [mem_candidates, mem_offers] at hm
  exact ⟨score, hm⟩

end ScoreTable

section Order

variable [LinearOrder σ] [BEq σ] [LawfulBEq σ]

namespace Definers

theorem better_iff (c home : σ × String) :
    better c.1 c.2 home = true ↔ preference c < preference home := by
  rw [preference, preference, Prod.Lex.toLex_lt_toLex]
  by_cases h : c.1 = home.1
  · simp [better, h]
  · have hd : ¬ OrderDual.toDual c.1 = OrderDual.toDual home.1 := h
    simp [better, h]

theorem foldl_choose_le (cs : List (σ × String)) (home best : σ × String)
    (h : cs.foldl choose (some home) = some best) :
    ∀ c ∈ home :: cs, preference best ≤ preference c := by
  -- On the candidates still to come; `home` is the best of those already seen.
  induction cs generalizing home with
  | nil =>
    simp only [List.foldl_nil, Option.some.injEq] at h
    simp [h]
  | cons c rest ih =>
    rw [List.foldl_cons] at h
    by_cases hb : better c.1 c.2 home = true
    · have hlt := (better_iff c home).1 hb
      have hrest := ih c (by simpa [choose, hb] using h)
      intro d hd
      rcases List.mem_cons.1 hd with rfl | hd
      · exact (hrest c List.mem_cons_self).trans hlt.le
      · exact hrest d hd
    · have hle := not_lt.1 fun hlt => hb ((better_iff c home).2 hlt)
      have hrest := ih home (by simpa [choose, hb] using h)
      intro d hd
      rcases List.mem_cons.1 hd with rfl | hd
      · exact hrest d List.mem_cons_self
      · rcases List.mem_cons.1 hd with rfl | hd
        · exact (hrest home List.mem_cons_self).trans hle
        · exact hrest d (List.mem_cons_of_mem _ hd)

end Definers

open Definers

/-- A file is the home of a token exactly if it offers it and its offer is the best of all. -/
theorem ScoreTable.get?_definers_eq_some_iff (scores : ScoreTable σ) (token path : String) :
    scores.definers.get? token = some path ↔
      ∃ score, scores.score? path token = some score ∧
        ∀ path' score', scores.score? path' token = some score' →
          preference (score, path) ≤ preference (score', path') := by
  have least : ∀ best, (candidates token scores.offers).foldl choose none = some best →
      ∀ c ∈ candidates token scores.offers, preference best ≤ preference c := by
    intro best hbest
    cases hc : candidates token scores.offers with
    | nil => simp
    | cons c rest =>
      rw [hc, List.foldl_cons] at hbest
      exact foldl_choose_le rest c best hbest
  constructor
  · intro h
    rw [get?_definers, Option.map_eq_some_iff] at h
    obtain ⟨⟨score, p⟩, hbest, rfl⟩ := h
    have hm := mem_of_foldl_choose hbest
    rw [mem_candidates, mem_offers] at hm
    refine ⟨score, hm, fun path' score' h' => least _ hbest _ ?_⟩
    rw [mem_candidates, mem_offers]
    exact h'
  · rintro ⟨score, hs, hleast⟩
    obtain ⟨home, hhome⟩ := Option.isSome_iff_exists.1
      ((isSome_get?_definers scores token).2 ⟨path, by simp [hs]⟩)
    rw [get?_definers, Option.map_eq_some_iff] at hhome
    obtain ⟨⟨s, p⟩, hbest, rfl⟩ := hhome
    have hm := mem_of_foldl_choose hbest
    rw [mem_candidates, mem_offers] at hm
    have hle : preference (s, p) ≤ preference (score, path) :=
      least _ hbest _ ((mem_candidates ..).2 ((mem_offers ..).2 hs))
    have he := preference_injective (hle.antisymm (hleast p s hm))
    rw [get?_definers, hbest, he]
    rfl

end Order

end SymbolAtlas
