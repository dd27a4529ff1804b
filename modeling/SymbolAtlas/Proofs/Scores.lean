import SymbolAtlas.Score
import SymbolAtlas.Proofs.Homes

/-!
Scores of a batch. The table has a row for every file, in the order of the files, and in it a score
for every token the file defines; all tokens of a file have one score.
-/

set_option autoImplicit false

namespace SymbolAtlas

section Traversal

variable {α β γ ε : Type}

theorem map_of_mapM {f : α → Except ε β} (φ : β → γ) (ψ : α → γ)
    (hf : ∀ x y, f x = .ok y → φ y = ψ x) {xs : List α} {ys : List β}
    (h : xs.mapM f = .ok ys) : ys.map φ = xs.map ψ := by
  induction xs generalizing ys with
  | nil =>
    cases h
    rfl
  | cons x rest ih =>
    rw [List.mapM_cons] at h
    cases hx : f x with
    | error e => simp [hx, bind, Except.bind] at h
    | ok y =>
      cases hrest : rest.mapM f with
      | error e => simp [hx, hrest, bind, Except.bind] at h
      | ok ys' =>
        simp only [hx, hrest, bind, Except.bind, pure, Except.pure, Except.ok.injEq] at h
        subst h
        simp [hf x y hx, ih hrest]

theorem mapM_some_error (f : α → Except ε β) (xs : List α) :
    (∃ e, xs.mapM f = .error e) ↔ ∃ x ∈ xs, ∃ e, f x = .error e := by
  induction xs with
  | nil => simp [pure, Except.pure]
  | cons x rest ih =>
    rw [List.mapM_cons]
    cases hx : f x with
    | error e => simp [hx, bind, Except.bind]
    | ok y =>
      cases hrest : rest.mapM f with
      | error e => simpa [hx, hrest, bind, Except.bind] using ih
      | ok ys => simpa [hx, hrest, bind, Except.bind, pure, Except.pure] using ih

theorem exists_of_mapM {f : α → Except ε β} {xs : List α} {ys : List β}
    (h : xs.mapM f = .ok ys) :
    (∀ x ∈ xs, ∃ y ∈ ys, f x = .ok y) ∧ ∀ y ∈ ys, ∃ x ∈ xs, f x = .ok y := by
  have hmap : ys.map Except.ok = xs.map f := map_of_mapM _ f (fun x y hxy => hxy.symm) h
  constructor
  · intro x hx
    have hm : f x ∈ ys.map Except.ok := hmap ▸ List.mem_map_of_mem hx
    obtain ⟨y, hy, he⟩ := List.mem_map.1 hm
    exact ⟨y, hy, he.symm⟩
  · intro y hy
    have hm : Except.ok y ∈ xs.map f := hmap ▸ List.mem_map_of_mem hy
    obtain ⟨x, hx, he⟩ := List.mem_map.1 hm
    exact ⟨x, hx, he⟩

theorem mapM_eq_ok_iff {f : α → Except ε β} {xs : List α} {ys : List β} :
    xs.mapM f = .ok ys ↔ xs.map f = ys.map Except.ok := by
  constructor
  · intro h
    exact (map_of_mapM Except.ok f (fun x y hxy => hxy.symm) h).symm
  · intro h
    induction xs generalizing ys with
    | nil =>
      obtain rfl : ys = [] := by simpa using h.symm
      rfl
    | cons x rest ih =>
      cases ys with
      | nil => simp at h
      | cons y ys =>
        simp only [List.map_cons, List.cons.injEq] at h
        simp [List.mapM_cons, h.1, ih h.2, bind, Except.bind, pure, Except.pure]

/-- One more member that does not fail leaves the failure as it is, or adds its own result. -/
theorem mapM_insert {f : α → Except ε β} {x : α} {y : β} (hx : f x = .ok y) (xs zs : List α) :
    (∃ e, (xs ++ zs).mapM f = .error e ∧ (xs ++ x :: zs).mapM f = .error e) ∨
      ∃ as bs, (xs ++ zs).mapM f = .ok (as ++ bs) ∧
        (xs ++ x :: zs).mapM f = .ok (as ++ y :: bs) := by
  rw [List.mapM_append, List.mapM_append, List.mapM_cons, hx]
  cases xs.mapM f with
  | error e => exact .inl ⟨e, rfl, rfl⟩
  | ok as =>
    cases zs.mapM f with
    | error e => exact .inl ⟨e, rfl, rfl⟩
    | ok bs => exact .inr ⟨as, bs, rfl, rfl⟩

theorem mapM_perm {f : α → Except ε β} {xs xs' : List α} (hp : xs.Perm xs') {ys : List β}
    (h : xs.mapM f = .ok ys) : ∃ ys', xs'.mapM f = .ok ys' ∧ ys.Perm ys' := by
  simp only [mapM_eq_ok_iff] at h ⊢
  induction hp generalizing ys with
  | nil =>
    obtain rfl : ys = [] := by simpa using h.symm
    exact ⟨[], rfl, .refl _⟩
  | cons x _ ih =>
    cases ys with
    | nil => simp at h
    | cons y ys =>
      simp only [List.map_cons, List.cons.injEq] at h
      obtain ⟨ys', hys', hperm⟩ := ih h.2
      exact ⟨y :: ys', by simp [h.1, hys'], hperm.cons y⟩
  | swap x x' l =>
    cases ys with
    | nil => simp at h
    | cons y ys =>
      cases ys with
      | nil => simp at h
      | cons y' ys =>
        simp only [List.map_cons, List.cons.injEq] at h
        exact ⟨y' :: y :: ys, by simp [h.1, h.2.1, h.2.2], .swap y' y ys⟩
  | trans _ _ ih ih' =>
    obtain ⟨zs, hzs, hp⟩ := ih h
    obtain ⟨ys', hys', hp'⟩ := ih' hzs
    exact ⟨ys', hys', hp.trans hp'⟩

end Traversal

namespace Score

variable {σ : Type} [ScoreArithmetic σ] {rule : ScoringRule σ}

def ofTokens (rule : ScoringRule σ) (f : FileFacts) : Except ArithmeticFault σ :=
  definition rule (Path.depth f.path) f.lineCount f.definitions.size

theorem ofFile_ok {f : FileFacts} {row : Table String σ} (h : ofFile rule f = .ok row) :
    row.keys = f.definitions.keys ∧
      ∀ token score, row.get? token = some score ↔
        token ∈ f.definitions.keys ∧ ofTokens rule f = .ok score := by
  have hkeys := Table.keys_of_traverse _ f.definitions row h
  refine ⟨hkeys, ?_⟩
  cases hd : ofTokens rule f with
  | error e =>
    have hempty : f.definitions.entries = [] := by
      rw [List.eq_nil_iff_forall_not_mem]
      intro entry hm
      obtain ⟨e', he⟩ := (Table.traverse_error_iff
        (fun _ _ => definition rule (Path.depth f.path) f.lineCount f.definitions.size)
        f.definitions).2 ⟨entry, hm, e, hd⟩
      exact absurd (h.symm.trans he) (by simp)
    intro token score
    have hnone : row.get? token = none := by
      rw [Table.get?_eq_none_iff, hkeys]
      simp [Table.keys, hempty]
    simp [hnone]
  | ok value =>
    have hrow := Table.traverse_ok
      (fun _ _ => definition rule (Path.depth f.path) f.lineCount f.definitions.size)
      (fun _ _ => value) f.definitions (fun _ _ => hd)
    have he : row = f.definitions.mapWithKey fun _ _ => value :=
      Except.ok.inj (h.symm.trans hrow)
    intro token score
    rw [he, Table.get?_mapWithKey, ← Table.isSome_get?_iff]
    cases hg : f.definitions.get? token with
    | none => simp
    | some n => simp

theorem ofFile_of_ok {f : FileFacts}
    (h : f.definitions.keys ≠ [] → ∃ value, ofTokens rule f = .ok value) :
    ∃ row, ofFile rule f = .ok row := by
  cases hrow : ofFile rule f with
  | ok row => exact ⟨row, rfl⟩
  | error e =>
    obtain ⟨entry, hm, e', he⟩ := (Table.traverse_error_iff _ _).1 ⟨e, hrow⟩
    obtain ⟨value, hv⟩ := h (List.ne_nil_of_mem (List.mem_map_of_mem hm))
    exact absurd (hv.symm.trans he) (by simp)

theorem row_eq_ok_iff {f : FileFacts} {row : String × Table String σ} :
    ((ofFile rule f).map fun scores => (f.path, scores)) = .ok row ↔
      row.1 = f.path ∧ ofFile rule f = .ok row.2 := by
  cases hf : ofFile rule f with
  | error e => simp [Except.map]
  | ok scores => simp [Except.map, Prod.ext_iff, eq_comm]

theorem ofFacts_of_ok {facts : List FileFacts}
    (h : ∀ f ∈ facts, f.definitions.keys ≠ [] → ∃ value, ofTokens rule f = .ok value) :
    ∃ raw, ofFacts rule facts = .ok raw := by
  cases hm : facts.mapM fun f => (ofFile rule f).map fun scores => (f.path, scores) with
  | ok rows => exact ⟨Table.ofList rows, by simp [ofFacts, hm]⟩
  | error e =>
    obtain ⟨f, hf, e', he⟩ := (mapM_some_error _ _).1 ⟨e, hm⟩
    obtain ⟨row, hrow⟩ := ofFile_of_ok (h f hf)
    simp [hrow, Except.map] at he

section Rows

variable {facts : List FileFacts} {raw : ScoreTable σ}
  (hn : (facts.map FileFacts.path).Nodup) (h : ofFacts rule facts = .ok raw)

include hn h

theorem ofFacts_mapM : (facts.mapM fun f =>
    (ofFile rule f).map fun scores => (f.path, scores)) = .ok raw.entries := by
  cases hm : facts.mapM fun f => (ofFile rule f).map fun scores => (f.path, scores) with
  | error e => simp [ofFacts, hm] at h
  | ok rows =>
    have hraw : Table.ofList rows = raw := by simpa [ofFacts, hm] using h
    have hpaths : rows.map Prod.fst = facts.map FileFacts.path :=
      map_of_mapM Prod.fst FileFacts.path (fun f row hrow => (row_eq_ok_iff.1 hrow).1) hm
    rw [← hraw, Table.entries_ofList rows (hpaths ▸ hn)]

theorem rows_ofFacts : raw.entries.map (fun row => (row.1, row.2.keys)) =
    facts.map fun f => (f.path, f.definitions.keys) := by
  refine map_of_mapM (fun row : String × Table String σ => (row.1, row.2.keys)) _ ?_
    (ofFacts_mapM hn h)
  intro f row hrow
  obtain ⟨hpath, hf⟩ := row_eq_ok_iff.1 hrow
  rw [hpath, (ofFile_ok hf).1]

theorem keys_ofFacts : raw.keys = facts.map FileFacts.path := by
  have hrows := congrArg (List.map Prod.fst) (rows_ofFacts hn h)
  simpa [Table.keys, List.map_map, Function.comp_def] using hrows

theorem isSome_score?_ofFacts (path token : String) :
    (raw.score? path token).isSome ↔ ∃ f ∈ facts, f.path = path ∧ token ∈ f.definitions.keys := by
  have hrows := rows_ofFacts hn h
  simp only [ScoreTable.isSome_score?_iff, Table.get?_eq_some_iff raw]
  constructor
  · rintro ⟨row, hrow, ht⟩
    have hm : (path, row.keys) ∈ facts.map fun f => (f.path, f.definitions.keys) :=
      hrows ▸ List.mem_map.2 ⟨_, hrow, rfl⟩
    obtain ⟨f, hf, he⟩ := List.mem_map.1 hm
    obtain ⟨hpath, hkeys⟩ := Prod.mk.inj he
    exact ⟨f, hf, hpath, hkeys ▸ ht⟩
  · rintro ⟨f, hf, rfl, ht⟩
    have hm : (f.path, f.definitions.keys) ∈ raw.entries.map fun row => (row.1, row.2.keys) :=
      hrows ▸ List.mem_map.2 ⟨f, hf, rfl⟩
    obtain ⟨⟨p, row⟩, hrow, he⟩ := List.mem_map.1 hm
    obtain ⟨rfl, hkeys⟩ := Prod.mk.inj he
    exact ⟨row, hrow, hkeys ▸ ht⟩

theorem score?_ofFacts (path token : String) (score : σ) :
    raw.score? path token = some score ↔
      ∃ f ∈ facts, f.path = path ∧ token ∈ f.definitions.keys ∧ ofTokens rule f = .ok score := by
  obtain ⟨hrow, hfile⟩ := exists_of_mapM (ofFacts_mapM hn h)
  simp only [ScoreTable.score?, Option.bind_eq_some_iff, Table.get?_eq_some_iff raw]
  constructor
  · rintro ⟨row, hm, hs⟩
    obtain ⟨f, hf, he⟩ := hfile _ hm
    obtain ⟨hpath, hscores⟩ := row_eq_ok_iff.1 he
    exact ⟨f, hf, hpath.symm, ((ofFile_ok hscores).2 token score).1 hs⟩
  · rintro ⟨f, hf, rfl, hs⟩
    obtain ⟨⟨p, row⟩, hm, he⟩ := hrow f hf
    obtain ⟨hpath, hscores⟩ := row_eq_ok_iff.1 he
    exact ⟨row, hpath ▸ hm, ((ofFile_ok hscores).2 token score).2 hs⟩

end Rows

end Score

end SymbolAtlas
