import SymbolAtlas.Value

/-!
Values in which no key comes twice. Rows are put one after the other, so whatever is made of them is
such a value.
-/

set_option autoImplicit false

namespace SymbolAtlas

namespace Rows

theorem keys_put (key : Scalar) (v : Value) (rows : Rows) :
    keys (put key v rows) =
      if key.key ∈ keys rows then keys rows else keys rows ++ [key.key] := by
  induction rows with
  | nil => simp [put, keys]
  | cons row rest ih =>
    obtain ⟨k', v'⟩ := row
    by_cases hput : k'.key = key.key
    · simp [put, keys, hput]
    · have hne : ¬ key.key = k'.key := fun e => hput e.symm
      simp only [keys] at ih
      by_cases hmem : key.key ∈ rest.map fun row => row.1.key
      · simp only [hmem, if_true] at ih
        simp [put, keys, hput, ih, hmem]
      · simp only [hmem, if_false] at ih
        simp [put, keys, hput, hne, ih, hmem]

theorem nodup_keys_put (key : Scalar) (v : Value) {rows : Rows} (h : (keys rows).Nodup) :
    (keys (put key v rows)).Nodup := by
  rw [keys_put]
  split
  · exact h
  · next hnew =>
    refine List.nodup_append.2 ⟨h, by simp, ?_⟩
    rintro k hk _ hkey rfl
    exact hnew (List.mem_singleton.1 hkey ▸ hk)

theorem mem_put {key : Scalar} {v : Value} {rows : Rows} {row : Scalar × Value}
    (h : row ∈ put key v rows) :
    row ∈ rows ∨ row.2 = v ∧ (row.1 = key ∨ ∃ old ∈ rows, row.1 = old.1) := by
  induction rows with
  | nil =>
    rw [List.mem_singleton.1 h]
    exact .inr ⟨rfl, .inl rfl⟩
  | cons head rest ih =>
    rw [put] at h
    split at h
    · rcases List.mem_cons.1 h with rfl | hrest
      · exact .inr ⟨rfl, .inr ⟨head, List.mem_cons_self, rfl⟩⟩
      · exact .inl (List.mem_cons_of_mem head hrest)
    · rcases List.mem_cons.1 h with rfl | hrest
      · exact .inl List.mem_cons_self
      · rcases ih hrest with hold | ⟨hv, hkey | ⟨old, hmem, hname⟩⟩
        · exact .inl (List.mem_cons_of_mem head hold)
        · exact .inr ⟨hv, .inl hkey⟩
        · exact .inr ⟨hv, .inr ⟨old, List.mem_cons_of_mem head hmem, hname⟩⟩

theorem forall_put {P : Value → Prop} {key : Scalar} {v : Value} {rows : Rows}
    (hv : P v) (h : ∀ row ∈ rows, P row.2) : ∀ row ∈ put key v rows, P row.2 := by
  intro row hrow
  rcases mem_put hrow with hold | ⟨hvalue, _⟩
  · exact h row hold
  · exact hvalue ▸ hv

theorem ofList_spec {P : Value → Prop} {rows : List (Scalar × Value)}
    (h : ∀ row ∈ rows, P row.2) : (keys (ofList rows)).Nodup ∧ ∀ row ∈ ofList rows, P row.2 := by
  have hrun : ∀ acc : Rows, (keys acc).Nodup → (∀ row ∈ acc, P row.2) →
      (keys (rows.foldl (fun acc row => put row.1 row.2 acc) acc)).Nodup ∧
        ∀ row ∈ rows.foldl (fun acc row => put row.1 row.2 acc) acc, P row.2 := by
    induction rows with
    | nil => exact fun acc hkeys hvalues => ⟨hkeys, hvalues⟩
    | cons row rest ih =>
      intro acc hkeys hvalues
      obtain ⟨hrow, hrest⟩ := List.forall_mem_cons.1 h
      exact ih hrest _ (nodup_keys_put _ _ hkeys) (forall_put hrow hvalues)
  exact hrun [] List.nodup_nil (by simp)

end Rows

namespace Value

/-- No mapping in reach of a path has a key twice. What lies in a list is never joined, so nothing
is asked of it. -/
inductive Distinct : Value → Prop
  | scalar (s : Scalar) : Distinct (.scalar s)
  | list (items : List Value) : Distinct (.list items)
  | map {rows : Rows} (keys : (Rows.keys rows).Nodup) (values : ∀ row ∈ rows, Distinct row.2) :
      Distinct (.map rows)

theorem Distinct.put {rows : Rows} (h : Distinct (.map rows)) (key : Scalar) {v : Value}
    (hv : Distinct v) : Distinct (.map (Rows.put key v rows)) := by
  cases h with
  | map keys values => exact .map (Rows.nodup_keys_put _ _ keys) (Rows.forall_put hv values)

theorem Distinct.ofList {rows : List (Scalar × Value)} (h : ∀ row ∈ rows, Distinct row.2) :
    Distinct (.map (Rows.ofList rows)) :=
  .map (Rows.ofList_spec h).1 (Rows.ofList_spec h).2

theorem Distinct.nil : Distinct (.map []) := .map List.nodup_nil (by simp)

end Value

end SymbolAtlas
