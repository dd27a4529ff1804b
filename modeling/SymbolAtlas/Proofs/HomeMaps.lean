import SymbolAtlas.Proofs.Homes

/-!
The homes of a score table as a map. Its tokens are those of the files, each at a file with the best
score of the token and, among such files, the least path; so only the order of the tokens hangs on
the order in which files and tokens are given.
-/

set_option autoImplicit false

namespace SymbolAtlas

variable {σ : Type}

namespace ScoreTable

def tokens (scores : ScoreTable σ) : List String := scores.entries.flatMap fun row => row.2.keys

/-- The same files in another order, and in each file the same tokens in another order. -/
def Rearranges (s t : ScoreTable σ) : Prop :=
  ∃ rows, s.entries.Perm rows ∧
    List.Forall₂ (fun a b => a.1 = b.1 ∧ a.2.entries.Perm b.2.entries) rows t.entries

theorem Rearranges.offers_perm {s t : ScoreTable σ} (h : s.Rearranges t) :
    s.offers.Perm t.offers := by
  obtain ⟨rows, hfiles, htokens⟩ := h
  refine (hfiles.flatMap_right _).trans ?_
  clear hfiles
  rw [offers]
  generalize t.entries = others at htokens ⊢
  induction htokens with
  | nil => exact .nil
  | @cons a b as bs hab _ ih =>
    rw [List.flatMap_cons, List.flatMap_cons, hab.1]
    exact (hab.2.map _).append ih

theorem Rearranges.score? {s t : ScoreTable σ} (h : s.Rearranges t) (path token : String) :
    s.score? path token = t.score? path token := by
  refine Option.ext fun score => ?_
  rw [← mem_offers, ← mem_offers, h.offers_perm.mem_iff]

variable [LinearOrder σ]

/-- A file with the best score of a token, and of all files with that score the one with the least
path. Paths are compared by the code points of their characters. -/
structure IsBest (scores : ScoreTable σ) (token path : String) (score : σ) : Prop where
  scored : scores.score? path token = some score
  most : ∀ path' score', scores.score? path' token = some score' → score' ≤ score
  least : ∀ path', scores.score? path' token = some score → path ≤ path'

theorem isBest_iff (scores : ScoreTable σ) (token path : String) (score : σ) :
    scores.IsBest token path score ↔
      scores.score? path token = some score ∧
        ∀ path' score', scores.score? path' token = some score' →
          Definers.preference (score, path) ≤ Definers.preference (score', path') := by
  simp only [Definers.preference, Prod.Lex.toLex_le_toLex, OrderDual.toDual_lt_toDual,
    OrderDual.toDual_inj]
  constructor
  · intro h
    refine ⟨h.scored, fun path' score' h' => ?_⟩
    rcases (h.most path' score' h').lt_or_eq with hlt | rfl
    · exact .inl hlt
    · exact .inr ⟨rfl, h.least path' h'⟩
  · rintro ⟨hscore, hbest⟩
    refine ⟨hscore, fun path' score' h' => ?_, fun path' h' => ?_⟩
    · rcases hbest path' score' h' with hlt | ⟨heq, _⟩
      · exact hlt.le
      · exact heq.ge
    · rcases hbest path' score h' with hlt | ⟨_, hle⟩
      · exact absurd hlt (lt_irrefl score)
      · exact hle

theorem get?_definers_congr {s t : ScoreTable σ}
    (h : ∀ path token, s.score? path token = t.score? path token) (token : String) :
    s.definers.get? token = t.definers.get? token := by
  refine Option.ext fun path => ?_
  simp only [get?_definers_eq_some_iff, h]

end ScoreTable

/-- Exactly the tokens of the files have homes, in the order in which they are first seen. The home
of a token is a file with its best score, of these the one with the least path, and in whatever
order files and tokens are given, the homes are the same. -/
theorem homes_of_scores [LinearOrder σ] (scores : ScoreTable σ) :
    (∀ token, token ∈ scores.definers.keys ↔ ∃ row ∈ scores.entries, token ∈ row.2.keys) ∧
    (∀ token path, scores.definers.get? token = some path ↔
      ∃ score, scores.IsBest token path score) ∧
    scores.definers.keys.Pairwise
      (fun token later => scores.tokens.idxOf token < scores.tokens.idxOf later) ∧
    ∀ other, scores.Rearranges other → scores.definers.entries.Perm other.definers.entries := by
  refine ⟨fun token => ?_, fun token path => ?_, ?_, fun other h => ?_⟩
  · rw [ScoreTable.keys_definers, mem_firstSeen, List.mem_flatMap]
  · simp only [ScoreTable.get?_definers_eq_some_iff, ScoreTable.isBest_iff]
  · rw [ScoreTable.keys_definers]
    exact pairwise_firstSeen _
  · exact Table.perm_of_get? (ScoreTable.get?_definers_congr h.score?)

namespace ScoreTable.Sample

def given : ScoreTable Nat :=
  ⟨[("b.py", ⟨[("f", 2), ("g", 1)], by decide⟩),
    ("a.py", ⟨[("h", 0), ("g", 1), ("f", 1)], by decide⟩)], by decide⟩

def turned : ScoreTable Nat :=
  ⟨[("a.py", ⟨[("g", 1), ("f", 1), ("h", 0)], by decide⟩),
    ("b.py", ⟨[("f", 2), ("g", 1)], by decide⟩)], by decide⟩

end ScoreTable.Sample

open ScoreTable.Sample in
/-- The tie goes to the lesser path in both orders, and only the order of the tokens differs. -/
theorem homes_of_sample : given.Rearranges turned ∧
    given.definers.entries = [("f", "b.py"), ("g", "a.py"), ("h", "a.py")] ∧
    turned.definers.keys = ["g", "f", "h"] ∧
    given.definers.entries.Perm turned.definers.entries := by
  have h : given.Rearranges turned :=
    ⟨_, List.Perm.swap _ _ _, .cons ⟨rfl, by decide⟩ (.cons ⟨rfl, .refl _⟩ .nil)⟩
  exact ⟨h, by decide, by decide, (homes_of_scores given).2.2.2 turned h⟩

end SymbolAtlas
