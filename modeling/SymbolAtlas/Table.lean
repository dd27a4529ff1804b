/-!
Finite tables in order of first insertion. Changing the value at a key leaves the key where it
stands; a new key goes to the end.
-/

set_option autoImplicit false

namespace SymbolAtlas

universe u v w

/-- A finite table in order of first insertion. No key stands twice. -/
structure Table (κ : Type u) (α : Type v) where
  entries : List (κ × α)
  nodup : (entries.map Prod.fst).Nodup

namespace Table

variable {κ : Type u} {α : Type v} {β : Type w}

def empty : Table κ α := ⟨[], List.nodup_nil⟩

instance : EmptyCollection (Table κ α) := ⟨empty⟩

instance : Inhabited (Table κ α) := ⟨empty⟩

def keys (t : Table κ α) : List κ := t.entries.map Prod.fst

def values (t : Table κ α) : List α := t.entries.map Prod.snd

def size (t : Table κ α) : Nat := t.entries.length

@[ext] theorem ext {s t : Table κ α} (h : s.entries = t.entries) : s = t := by
  cases s; cases t; cases h; rfl

def mapWithKey (f : κ → α → β) (t : Table κ α) : Table κ β where
  entries := t.entries.map fun row => (row.1, f row.1 row.2)
  nodup := by simpa [List.map_map, Function.comp_def] using t.nodup

@[simp] theorem keys_mapWithKey (f : κ → α → β) (t : Table κ α) :
    (t.mapWithKey f).keys = t.keys := by
  simp [keys, mapWithKey, List.map_map, Function.comp_def]

def traverseRows {ε : Type w} (f : κ → α → Except ε β) : (rows : List (κ × α)) →
    Except ε { out : List (κ × β) // out.map Prod.fst = rows.map Prod.fst }
  | [] => .ok ⟨[], rfl⟩
  | (k, a) :: rest =>
    match f k a with
    | .error e => .error e
    | .ok b =>
      match traverseRows f rest with
      | .error e => .error e
      | .ok ⟨out, h⟩ => .ok ⟨(k, b) :: out, by simp [h]⟩

def traverse {ε : Type w} (f : κ → α → Except ε β) (t : Table κ α) : Except ε (Table κ β) :=
  match traverseRows f t.entries with
  | .error e => .error e
  | .ok ⟨out, h⟩ => .ok ⟨out, h ▸ t.nodup⟩

variable [DecidableEq κ]

def lookup (key : κ) : List (κ × α) → Option α
  | [] => none
  | (k, a) :: rest => if k = key then some a else lookup key rest

def get? (t : Table κ α) (key : κ) : Option α := lookup key t.entries

def contains (t : Table κ α) (key : κ) : Bool := (t.get? key).isSome

/-- Change the first row with this key in place, or add a row at the end. -/
def alterRows (key : κ) (f : Option α → α) : List (κ × α) → List (κ × α)
  | [] => [(key, f none)]
  | (k, a) :: rest =>
    if k = key then (k, f (some a)) :: rest else (k, a) :: alterRows key f rest

theorem keys_alterRows (key : κ) (f : Option α → α) (rows : List (κ × α)) :
    (alterRows key f rows).map Prod.fst =
      if key ∈ rows.map Prod.fst then rows.map Prod.fst else rows.map Prod.fst ++ [key] := by
  induction rows with
  | nil => simp [alterRows]
  | cons row rest ih =>
    obtain ⟨k, a⟩ := row
    by_cases h : k = key
    · simp [alterRows, h]
    · have hk : ¬ key = k := fun e => h e.symm
      by_cases hm : key ∈ rest.map Prod.fst
      · simp only [List.mem_map, Prod.exists, exists_and_right, exists_eq_right] at hm
        simp [alterRows, h, hk, ih, hm]
      · simp only [List.mem_map, Prod.exists, exists_and_right, exists_eq_right] at hm
        simp [alterRows, h, hk, ih, hm]

theorem nodup_alterRows (key : κ) (f : Option α → α) (rows : List (κ × α))
    (h : (rows.map Prod.fst).Nodup) : ((alterRows key f rows).map Prod.fst).Nodup := by
  rw [keys_alterRows]
  split
  · exact h
  · next hm =>
    refine List.nodup_append.2 ⟨h, by simp, ?_⟩
    intro a ha b hb hab
    simp only [List.mem_singleton] at hb
    exact hm (hb ▸ hab ▸ ha)

def alter (t : Table κ α) (key : κ) (f : Option α → α) : Table κ α :=
  ⟨alterRows key f t.entries, nodup_alterRows key f t.entries t.nodup⟩

def insert (t : Table κ α) (key : κ) (a : α) : Table κ α := t.alter key fun _ => a

/-- Keys keep their first position, and an old key stays where it was. -/
theorem keys_alter (t : Table κ α) (key : κ) (f : Option α → α) :
    (t.alter key f).keys = if key ∈ t.keys then t.keys else t.keys ++ [key] :=
  keys_alterRows key f t.entries

theorem lookup_alterRows (key k : κ) (f : Option α → α) (rows : List (κ × α)) :
    lookup k (alterRows key f rows) =
      if key = k then some (f (lookup key rows)) else lookup k rows := by
  induction rows with
  | nil => simp [alterRows, lookup]
  | cons row rest ih =>
    obtain ⟨k', a⟩ := row
    by_cases h : k' = key
    · subst h
      by_cases hk : k' = k <;> simp [alterRows, lookup, hk]
    · by_cases hk : k' = k
      · subst hk
        have hk : ¬ key = k' := fun e => h e.symm
        simp [alterRows, lookup, h, hk]
      · simp [alterRows, lookup, h, hk, ih]

theorem get?_alter (t : Table κ α) (key k : κ) (f : Option α → α) :
    (t.alter key f).get? k = if key = k then some (f (t.get? key)) else t.get? k :=
  lookup_alterRows key k f t.entries

def ofList (rows : List (κ × α)) : Table κ α :=
  rows.foldl (fun t row => t.insert row.1 row.2) empty

def bump (t : Table κ Nat) (key : κ) : Table κ Nat := t.alter key fun old => old.getD 0 + 1

end Table

/-- The members of a list at their first positions. -/
def firstSeen {κ : Type u} [DecidableEq κ] (xs : List κ) : List κ :=
  (xs.foldl (fun t x => t.insert x ()) (Table.empty : Table κ Unit)).keys

end SymbolAtlas
