import Mathlib.Data.List.Induction
import Mathlib.Data.List.Nodup
import SymbolAtlas.Table

/-!
Tables seen through look-ups and keys. Later modules reason about tables only through these two
views; the rows themselves matter where the order of values does.
-/

set_option autoImplicit false

namespace SymbolAtlas.Table

universe u v w

variable {κ : Type u} {α : Type v} {β : Type w}

@[simp] theorem keys_empty : (empty : Table κ α).keys = [] := rfl

theorem nodup_keys (t : Table κ α) : t.keys.Nodup := t.nodup

section Lookup

variable [DecidableEq κ]

@[simp] theorem get?_empty (k : κ) : (empty : Table κ α).get? k = none := rfl

theorem lookup_eq_none_iff (k : κ) (rows : List (κ × α)) :
    lookup k rows = none ↔ k ∉ rows.map Prod.fst := by
  induction rows with
  | nil => simp [lookup]
  | cons row rest ih =>
    obtain ⟨k', a⟩ := row
    by_cases h : k' = k
    · simp [lookup, h]
    · have hk : ¬ k = k' := fun e => h e.symm
      simp [lookup, h, hk, ih]

theorem get?_eq_none_iff (t : Table κ α) (k : κ) : t.get? k = none ↔ k ∉ t.keys :=
  lookup_eq_none_iff k t.entries

theorem isSome_get?_iff (t : Table κ α) (k : κ) : (t.get? k).isSome ↔ k ∈ t.keys := by
  have h := get?_eq_none_iff t k
  cases hg : t.get? k with
  | none => simpa [hg] using h
  | some a => simpa [hg] using h

theorem exists_get?_of_mem {t : Table κ α} {k : κ} (h : k ∈ t.keys) : ∃ a, t.get? k = some a :=
  Option.isSome_iff_exists.1 ((isSome_get?_iff t k).2 h)

theorem mem_keys_of_get? {t : Table κ α} {k : κ} {a : α} (h : t.get? k = some a) : k ∈ t.keys :=
  (isSome_get?_iff t k).1 (by simp [h])

theorem lookup_eq_some_iff (k : κ) (a : α) (rows : List (κ × α))
    (h : (rows.map Prod.fst).Nodup) : lookup k rows = some a ↔ (k, a) ∈ rows := by
  induction rows with
  | nil => simp [lookup]
  | cons row rest ih =>
    obtain ⟨k', b⟩ := row
    rw [List.map_cons, List.nodup_cons] at h
    by_cases hk : k' = k
    · subst hk
      have hn : (k', a) ∉ rest := fun hm => h.1 (List.mem_map.2 ⟨_, hm, rfl⟩)
      simp [lookup, hn, eq_comm]
    · have hk' : ¬ k = k' := fun e => hk e.symm
      simp [lookup, hk, hk', ih h.2]

theorem get?_eq_some_iff (t : Table κ α) (k : κ) (a : α) :
    t.get? k = some a ↔ (k, a) ∈ t.entries :=
  lookup_eq_some_iff k a t.entries t.nodup

theorem get?_insert (t : Table κ α) (key k : κ) (a : α) :
    (t.insert key a).get? k = if key = k then some a else t.get? k :=
  get?_alter t key k fun _ => a

theorem keys_insert (t : Table κ α) (key : κ) (a : α) :
    (t.insert key a).keys = if key ∈ t.keys then t.keys else t.keys ++ [key] :=
  keys_alter t key fun _ => a

theorem lookup_mapWithKey (f : κ → α → β) (k : κ) (rows : List (κ × α)) :
    lookup k (rows.map fun row => (row.1, f row.1 row.2)) = (lookup k rows).map (f k) := by
  induction rows with
  | nil => rfl
  | cons row rest ih =>
    obtain ⟨k', a⟩ := row
    by_cases h : k' = k
    · simp [lookup, h]
    · simpa [lookup, h] using ih

@[simp] theorem get?_mapWithKey (f : κ → α → β) (t : Table κ α) (k : κ) :
    (t.mapWithKey f).get? k = (t.get? k).map (f k) :=
  lookup_mapWithKey f k t.entries

/-- Keys and look-ups say everything there is to a table. -/
theorem eq_of_get? {s t : Table κ α} (hk : s.keys = t.keys)
    (hg : ∀ k, s.get? k = t.get? k) : s = t := by
  apply Table.ext
  have hlen : s.entries.length = t.entries.length := by
    have h := congrArg List.length hk
    simpa [keys] using h
  apply List.ext_getElem hlen
  intro i hs ht
  have hfst : (s.entries[i]).1 = (t.entries[i]).1 := by
    have h := congrArg (fun l => l[i]?) hk
    simpa [keys, hs, ht] using h
  have hs' : s.get? (s.entries[i]).1 = some (s.entries[i]).2 :=
    (get?_eq_some_iff ..).2 (List.getElem_mem hs)
  have ht' : t.get? (t.entries[i]).1 = some (t.entries[i]).2 :=
    (get?_eq_some_iff ..).2 (List.getElem_mem ht)
  rw [hg, hfst, ht', Option.some.injEq] at hs'
  exact Prod.ext hfst hs'.symm

theorem get?_perm {s t : Table κ α} (h : s.entries.Perm t.entries) (k : κ) :
    s.get? k = t.get? k := by
  refine Option.ext fun a => ?_
  rw [get?_eq_some_iff, get?_eq_some_iff, h.mem_iff]

theorem perm_of_get? {s t : Table κ α} (h : ∀ k, s.get? k = t.get? k) :
    s.entries.Perm t.entries := by
  rw [List.perm_ext_iff_of_nodup (List.Nodup.of_map _ s.nodup) (List.Nodup.of_map _ t.nodup)]
  intro row
  rw [← get?_eq_some_iff, ← get?_eq_some_iff, h]

theorem alterRows_of_not_mem (key : κ) (f : Option α → α) (rows : List (κ × α))
    (h : key ∉ rows.map Prod.fst) : alterRows key f rows = rows ++ [(key, f none)] := by
  induction rows with
  | nil => rfl
  | cons row rest ih =>
    obtain ⟨k, a⟩ := row
    rw [List.map_cons, List.mem_cons, not_or] at h
    have hk : ¬ k = key := fun e => h.1 e.symm
    simp [alterRows, hk, ih h.2]

theorem alter_alter (t : Table κ α) (key : κ) (f g : Option α → α) :
    (t.alter key f).alter key g = t.alter key fun old => g (some (f old)) := by
  apply eq_of_get?
  · by_cases h : key ∈ t.keys
    · simp [keys_alter, h]
    · simp [keys_alter, h]
  · intro k
    by_cases h : key = k
    · simp [get?_alter, h]
    · simp [get?_alter, h]

theorem map_alterRows {γ : Type w} (φ : κ × α → γ) (key : κ) (f : Option α → α) {a : α}
    (hφ : φ (key, f (some a)) = φ (key, a)) (rows : List (κ × α))
    (h : lookup key rows = some a) : (alterRows key f rows).map φ = rows.map φ := by
  induction rows with
  | nil => simp [lookup] at h
  | cons row rest ih =>
    obtain ⟨k, b⟩ := row
    by_cases hk : k = key
    · subst hk
      obtain rfl : b = a := by simpa [lookup] using h
      simp [alterRows, hφ]
    · have hrest := ih (by simpa [lookup, hk] using h)
      simp [alterRows, hk, hrest]

theorem map_entries_insert {γ : Type w} (φ : κ × α → γ) (t : Table κ α) {key : κ} {a b : α}
    (hφ : φ (key, b) = φ (key, a)) (h : t.get? key = some a) :
    (t.insert key b).entries.map φ = t.entries.map φ :=
  map_alterRows φ key (fun _ => b) hφ t.entries h

theorem entries_insert_of_not_mem (t : Table κ α) (key : κ) (a : α) (h : key ∉ t.keys) :
    (t.insert key a).entries = t.entries ++ [(key, a)] :=
  alterRows_of_not_mem key (fun _ => a) t.entries h

theorem entries_foldl_insert (rows : List (κ × α)) (t : Table κ α)
    (h : (t.keys ++ rows.map Prod.fst).Nodup) :
    (rows.foldl (fun t row => t.insert row.1 row.2) t).entries = t.entries ++ rows := by
  induction rows generalizing t with
  | nil => simp
  | cons row rest ih =>
    have hnew : row.1 ∉ t.keys := by
      intro hm
      exact (List.nodup_append.1 h).2.2 row.1 hm row.1 (by simp) rfl
    have hkeys : (t.insert row.1 row.2).keys = t.keys ++ [row.1] := by
      rw [keys_insert, if_neg hnew]
    rw [List.foldl_cons, ih, entries_insert_of_not_mem t _ _ hnew]
    · simp
    · rw [hkeys]
      simpa using h

theorem entries_ofList (rows : List (κ × α)) (h : (rows.map Prod.fst).Nodup) :
    (ofList rows).entries = rows := by
  simpa [ofList, empty] using entries_foldl_insert rows empty (by simpa using h)

theorem mem_keys_foldl_insert (rows : List (κ × α)) (t : Table κ α) (k : κ) :
    k ∈ (rows.foldl (fun t row => t.insert row.1 row.2) t).keys ↔
      k ∈ t.keys ∨ k ∈ rows.map Prod.fst := by
  induction rows generalizing t with
  | nil => simp
  | cons row rest ih =>
    have hkeys : k ∈ (t.insert row.1 row.2).keys ↔ k ∈ t.keys ∨ k = row.1 := by
      rw [keys_insert]
      by_cases hm : row.1 ∈ t.keys
      · rw [if_pos hm]
        exact ⟨.inl, fun h => h.elim id fun he => he ▸ hm⟩
      · simp [hm]
    rw [List.foldl_cons, ih, hkeys, List.map_cons, List.mem_cons, or_assoc]

theorem mem_keys_ofList (rows : List (κ × α)) (k : κ) :
    k ∈ (ofList rows).keys ↔ k ∈ rows.map Prod.fst := by
  simp [ofList, mem_keys_foldl_insert]

end Lookup

section Traverse

variable {ε : Type w}

theorem traverseRows_ok (f : κ → α → Except ε β) (g : κ → α → β) (rows : List (κ × α))
    (h : ∀ row ∈ rows, f row.1 row.2 = .ok (g row.1 row.2)) :
    ∃ hk, traverseRows f rows = .ok ⟨rows.map fun row => (row.1, g row.1 row.2), hk⟩ := by
  induction rows with
  | nil => exact ⟨rfl, rfl⟩
  | cons row rest ih =>
    obtain ⟨k, a⟩ := row
    obtain ⟨hk, hrest⟩ := ih fun row hm => h row (List.mem_cons_of_mem _ hm)
    have hrow : f k a = .ok (g k a) := h (k, a) List.mem_cons_self
    exact ⟨by simp, by simp [traverseRows, hrow, hrest]⟩

theorem traverse_ok (f : κ → α → Except ε β) (g : κ → α → β) (t : Table κ α)
    (h : ∀ row ∈ t.entries, f row.1 row.2 = .ok (g row.1 row.2)) :
    t.traverse f = .ok (t.mapWithKey g) := by
  obtain ⟨hk, hrows⟩ := traverseRows_ok f g t.entries h
  simp [traverse, hrows, mapWithKey]

theorem traverseRows_error_iff (f : κ → α → Except ε β) (rows : List (κ × α)) :
    (∃ e, traverseRows f rows = .error e) ↔ ∃ row ∈ rows, ∃ e, f row.1 row.2 = .error e := by
  induction rows with
  | nil => simp [traverseRows]
  | cons row rest ih =>
    obtain ⟨k, a⟩ := row
    cases hf : f k a with
    | error e => simp [traverseRows, hf]
    | ok b =>
      cases hr : traverseRows f rest with
      | error e => simpa [traverseRows, hf, hr] using ih
      | ok out => simpa [traverseRows, hf, hr] using ih

theorem traverse_error_iff (f : κ → α → Except ε β) (t : Table κ α) :
    (∃ e, t.traverse f = .error e) ↔ ∃ row ∈ t.entries, ∃ e, f row.1 row.2 = .error e := by
  rw [← traverseRows_error_iff]
  cases hr : traverseRows f t.entries with
  | error e => simp [traverse, hr]
  | ok out => simp [traverse, hr]

theorem keys_of_traverse (f : κ → α → Except ε β) (t : Table κ α) (u : Table κ β)
    (h : t.traverse f = .ok u) : u.keys = t.keys := by
  cases hr : traverseRows f t.entries with
  | error e => simp [traverse, hr] at h
  | ok out =>
    simp only [traverse, hr, Except.ok.injEq] at h
    subst h
    exact out.2

end Traverse

end SymbolAtlas.Table

namespace SymbolAtlas

universe u

variable {κ : Type u} [DecidableEq κ]

theorem nodup_firstSeen (xs : List κ) : (firstSeen xs).Nodup := Table.nodup_keys _

@[simp] theorem firstSeen_nil : firstSeen ([] : List κ) = [] := rfl

theorem firstSeen_concat (xs : List κ) (x : κ) :
    firstSeen (xs ++ [x]) = if x ∈ firstSeen xs then firstSeen xs else firstSeen xs ++ [x] := by
  rw [firstSeen, List.foldl_append]
  exact Table.keys_insert _ x ()

@[simp] theorem mem_firstSeen (xs : List κ) (x : κ) : x ∈ firstSeen xs ↔ x ∈ xs := by
  induction xs using List.reverseRecOn with
  | nil => simp
  | append_singleton xs y ih =>
    rw [firstSeen_concat]
    by_cases hy : y ∈ firstSeen xs
    · have hmem : x = y → x ∈ xs := fun he => ih.1 (he ▸ hy)
      rw [if_pos hy, ih, List.mem_append, List.mem_singleton]
      exact ⟨.inl, fun h => h.elim id hmem⟩
    · simp [hy, ih]

theorem pairwise_firstSeen (xs : List κ) :
    (firstSeen xs).Pairwise fun x y => xs.idxOf x < xs.idxOf y := by
  induction xs using List.reverseRecOn with
  | nil => exact List.Pairwise.nil
  | append_singleton xs z ih =>
    have hkeep : (firstSeen xs).Pairwise fun x y =>
        (xs ++ [z]).idxOf x < (xs ++ [z]).idxOf y := by
      refine ih.imp_of_mem fun {x y} hx hy hlt => ?_
      rw [mem_firstSeen] at hx hy
      rwa [List.idxOf_append_of_mem hx, List.idxOf_append_of_mem hy]
    rw [firstSeen_concat]
    by_cases hz : z ∈ firstSeen xs
    · rwa [if_pos hz]
    · rw [if_neg hz, List.pairwise_append]
      refine ⟨hkeep, List.pairwise_singleton _ _, fun x hx y hy => ?_⟩
      rw [List.mem_singleton.1 hy]
      rw [mem_firstSeen] at hx hz
      rw [List.idxOf_append_of_mem hx, List.idxOf_append_of_notMem hz]
      exact Nat.lt_add_right _ (List.idxOf_lt_length_of_mem hx)

theorem firstSeen_repeat {xs : List κ} {x : κ} (h : x ∈ xs) (ys : List κ) :
    firstSeen (xs ++ x :: ys) = firstSeen (xs ++ ys) := by
  induction ys using List.reverseRecOn with
  | nil => rw [firstSeen_concat, if_pos ((mem_firstSeen ..).2 h), List.append_nil]
  | append_singleton ys y ih =>
    rw [← List.cons_append, ← List.append_assoc, ← List.append_assoc, firstSeen_concat,
      firstSeen_concat, ih]

theorem firstSeen_insert {xs ys : List κ} {x : κ} (h : x ∉ xs ++ ys) :
    ∃ as bs, firstSeen (xs ++ ys) = as ++ bs ∧ firstSeen (xs ++ x :: ys) = as ++ x :: bs := by
  induction ys using List.reverseRecOn with
  | nil =>
    rw [List.append_nil] at h
    refine ⟨firstSeen xs, [], by simp, ?_⟩
    rw [firstSeen_concat, if_neg (by simpa using h)]
  | append_singleton ys y ih =>
    rw [← List.append_assoc, List.mem_append, List.mem_singleton, not_or] at h
    obtain ⟨as, bs, hold, hnew⟩ := ih h.1
    have hmem : y ∈ firstSeen (xs ++ x :: ys) ↔ y ∈ firstSeen (xs ++ ys) := by
      have hne : y ≠ x := fun e => h.2 e.symm
      simp [hne]
    rw [← List.cons_append, ← List.append_assoc, ← List.append_assoc, firstSeen_concat,
      firstSeen_concat]
    by_cases hy : y ∈ firstSeen (xs ++ ys)
    · exact ⟨as, bs, by rw [if_pos hy, hold], by rw [if_pos (hmem.2 hy), hnew]⟩
    · refine ⟨as, bs ++ [y], ?_, ?_⟩
      · rw [if_neg hy, hold, List.append_assoc]
      · rw [if_neg (fun hm => hy (hmem.1 hm)), hnew, List.append_assoc, List.cons_append]

end SymbolAtlas
