import Mathlib.Data.List.Nodup
import SymbolAtlas.Value.Distinct

/-!
Documents laid over each other, seen path by path. A path that the upper document leaves alone
keeps what the lower one has there, and where the lower one has nothing the upper one has its way.
-/

set_option autoImplicit false

namespace SymbolAtlas

namespace Rows

/-! ## Rows through look-ups -/

theorem find?_put (k : Key) (key : Scalar) (v : Value) (rows : Rows) :
    find? k (put key v rows) = if key.key = k then some v else find? k rows := by
  induction rows with
  | nil => simp [put, find?]
  | cons row rest ih =>
    obtain ⟨k', v'⟩ := row
    by_cases hput : k'.key = key.key
    · by_cases hk : key.key = k <;> simp [put, find?, hput, hk]
    · by_cases hk' : k'.key = k
      · subst hk'
        simp [put, find?, hput, Ne.symm hput]
      · simp [put, find?, hput, hk', ih]

theorem find?_eq_none_iff (k : Key) (rows : Rows) : find? k rows = none ↔ k ∉ keys rows := by
  induction rows with
  | nil => simp [find?, keys]
  | cons row rest ih =>
    obtain ⟨k', v'⟩ := row
    by_cases hk : k'.key = k
    · simp [find?, keys, hk]
    · have hne : ¬ k = k'.key := fun e => hk e.symm
      simpa [find?, keys, hk, hne] using ih

theorem mem_of_find? {k : Key} {v : Value} {rows : Rows} (h : find? k rows = some v) :
    ∃ row ∈ rows, row.1.key = k ∧ row.2 = v := by
  induction rows with
  | nil => simp [find?] at h
  | cons row rest ih =>
    obtain ⟨k', v'⟩ := row
    by_cases hk : k'.key = k
    · exact ⟨(k', v'), List.mem_cons_self, hk, by simpa [find?, hk] using h⟩
    · obtain ⟨found, hmem, hfound⟩ := ih (by simpa [find?, hk] using h)
      exact ⟨found, List.mem_cons_of_mem _ hmem, hfound⟩

theorem find?_append (k : Key) (rows more : Rows) :
    find? k (rows ++ more) = (find? k rows <|> find? k more) := by
  induction rows with
  | nil => simp [find?]
  | cons row rest ih =>
    obtain ⟨k', v'⟩ := row
    by_cases hk : k'.key = k
    · simp [find?, hk]
    · simpa [find?, hk] using ih

theorem ofList_eq {rows : List (Scalar × Value)} (h : (keys rows).Nodup) : ofList rows = rows := by
  have hend : ∀ (acc : Rows) (row : Scalar × Value), row.1.key ∉ keys acc →
      put row.1 row.2 acc = acc ++ [row] := by
    intro acc row hnew
    induction acc with
    | nil => rfl
    | cons head rest ih =>
      simp only [keys, List.map_cons, List.mem_cons, not_or] at hnew
      have hne : ¬ head.1.key = row.1.key := fun e => hnew.1 e.symm
      simpa [put, hne] using ih hnew.2
  have hrun : ∀ acc : Rows, (keys (acc ++ rows)).Nodup →
      rows.foldl (fun acc row => put row.1 row.2 acc) acc = acc ++ rows := by
    clear h
    induction rows with
    | nil => simp
    | cons row rest ih =>
      intro acc hkeys
      have hnew : row.1.key ∉ keys acc := by
        simp only [keys, List.map_append, List.map_cons, List.nodup_append] at hkeys
        exact fun hmem => hkeys.2.2 _ hmem _ List.mem_cons_self rfl
      rw [List.foldl_cons, hend acc row hnew, ih _ (by simpa using hkeys)]
      simp
  exact hrun [] h

end Rows

namespace Value

/-! ## Mappings in which no key comes twice -/

theorem Distinct.nodup {rows : Rows} (h : Distinct (.map rows)) : (Rows.keys rows).Nodup := by
  cases h with
  | map keys values => exact keys

theorem Distinct.of_find? {rows : Rows} (h : Distinct (.map rows)) {k : Key} {v : Value}
    (hv : Rows.find? k rows = some v) : Distinct v := by
  cases h with
  | map keys values =>
    obtain ⟨row, hmem, _, rfl⟩ := Rows.mem_of_find? hv
    exact values row hmem

/-- What two documents say at one place, the second over the first. -/
def joined : Option Value → Option Value → Option Value
  | base, none => base
  | none, some v => some v
  | some old, some v => some (old.overlay v)

@[simp] theorem joined_none (base : Option Value) : joined base none = base := by
  cases base <;> rfl

@[simp] theorem none_joined (upper : Option Value) : joined none upper = upper := by
  cases upper <;> rfl

end Value

namespace Rows

theorem find?_overlay (k : Key) (rows : Rows) {upper : Rows} (h : (keys upper).Nodup) :
    find? k (overlay rows upper) = Value.joined (find? k rows) (find? k upper) := by
  induction upper generalizing rows with
  | nil => simp [overlay, find?]
  | cons row rest ih =>
    obtain ⟨key, value⟩ := row
    simp only [keys, List.map_cons, List.nodup_cons] at h
    rw [overlay, ih _ h.2, find?_put]
    by_cases hk : key.key = k
    · have hrest : find? k rest = none := (find?_eq_none_iff k rest).2 (hk ▸ h.1)
      rw [hrest, if_pos hk]
      subst hk
      cases find? key.key rows <;> simp [find?, Value.joined]
    · simp [find?, hk]

theorem distinct_overlay {upper : Rows}
    (h : ∀ row ∈ upper, ∀ base : Value, base.Distinct → (base.overlay row.2).Distinct)
    (hupper : ∀ row ∈ upper, row.2.Distinct) {rows : Rows} (hrows : (Value.map rows).Distinct) :
    (Value.map (overlay rows upper)).Distinct := by
  induction upper generalizing rows with
  | nil => simpa [overlay] using hrows
  | cons row rest ih =>
    obtain ⟨hrow, hrest⟩ := List.forall_mem_cons.1 h
    obtain ⟨hvalue, hvalues⟩ := List.forall_mem_cons.1 hupper
    rw [overlay]
    refine ih hrest hvalues (hrows.put _ ?_)
    cases hold : find? row.1.key rows with
    | none => exact hvalue
    | some old => exact hrow old (hrows.of_find? hold)

end Rows

namespace Value

theorem Distinct.overlay {base upper : Value} (hbase : base.Distinct) (hupper : upper.Distinct) :
    (base.overlay upper).Distinct := by
  induction hupper generalizing base with
  | scalar s => exact .scalar s
  | list items => exact .list items
  | @map rows keys values ih =>
    cases base with
    | scalar s => exact .map keys values
    | list items => exact .map keys values
    | map lower =>
      exact Rows.distinct_overlay (fun row hmem base hb => ih row hmem hb) values hbase

/-! ## Paths -/

def at? : Value → List Key → Option Value
  | v, [] => some v
  | .map rows, k :: rest => (Rows.find? k rows).bind fun v => v.at? rest
  | .scalar _, _ :: _ => none
  | .list _, _ :: _ => none

/-- No proper prefix of a path is bound to anything but a mapping. -/
def Opens : Value → List Key → Prop
  | _, [] => True
  | .map rows, k :: rest => ∀ v, Rows.find? k rows = some v → v.Opens rest
  | .scalar _, _ :: _ => False
  | .list _, _ :: _ => False

theorem at?_congr {rows rows' : Rows} (h : ∀ k, Rows.find? k rows = Rows.find? k rows')
    {p : List Key} (hp : p ≠ []) : (Value.map rows).at? p = (Value.map rows').at? p := by
  cases p with
  | nil => exact absurd rfl hp
  | cons k rest => simp [at?, h k]

/-- A document leaves a path alone if it binds neither the path nor a proper prefix of it to
anything but a mapping. -/
def Leaves (v : Value) (p : List Key) : Prop := v.Opens p ∧ v.at? p = none

/-- Two documents are joined at every path that the upper one opens. -/
theorem at?_overlay {base upper : Value} {p : List Key} (hupper : upper.Distinct)
    (h : upper.Opens p) : (base.overlay upper).at? p = joined (base.at? p) (upper.at? p) := by
  induction p generalizing base upper with
  | nil => simp [at?, joined]
  | cons k rest ih =>
    cases upper with
    | scalar s => exact h.elim
    | list items => exact h.elim
    | map rows =>
      cases base with
      | scalar s => simp [overlay, at?]
      | list items => simp [overlay, at?]
      | map lower =>
        have hfind := Rows.find?_overlay k lower hupper.nodup
        cases hk : Rows.find? k rows with
        | none => simp [overlay, at?, hfind, hk]
        | some v =>
          cases hold : Rows.find? k lower with
          | none => simp [overlay, at?, hfind, hk, hold]
          | some old =>
            simpa [overlay, at?, hfind, hk, hold, joined] using ih (hupper.of_find? hk) (h v hk)

theorem at?_overlay_of_leaves {base upper : Value} {p : List Key} (hupper : upper.Distinct)
    (h : upper.Leaves p) : (base.overlay upper).at? p = base.at? p := by
  rw [at?_overlay hupper h.1, h.2, joined_none]

theorem at?_overlay_of_none {base upper : Value} {p : List Key} (hupper : upper.Distinct)
    (h : base.at? p = none) : (base.overlay upper).at? p = upper.at? p := by
  -- The upper document may close the path with a scalar, so this is no case of the law above.
  induction p generalizing base upper with
  | nil => simp [at?] at h
  | cons k rest ih =>
    cases upper with
    | scalar s => rfl
    | list items => rfl
    | map rows =>
      cases base with
      | scalar s => rfl
      | list items => rfl
      | map lower =>
        have hfind := Rows.find?_overlay k lower hupper.nodup
        cases hold : Rows.find? k lower with
        | none => simp [overlay, at?, hfind, hold]
        | some old =>
          have hnone : old.at? rest = none := by simpa [at?, hold] using h
          cases hk : Rows.find? k rows with
          | none => simpa [overlay, at?, hfind, hk, hold] using hnone
          | some v =>
            simpa [overlay, at?, hfind, hk, hold, joined] using ih (hupper.of_find? hk) hnone

theorem Opens.overlay {base upper : Value} {p : List Key} (hdistinct : upper.Distinct)
    (hbase : base.Opens p) (hupper : upper.Opens p) : (base.overlay upper).Opens p := by
  induction p generalizing base upper with
  | nil => trivial
  | cons k rest ih =>
    cases upper with
    | scalar s => exact hupper.elim
    | list items => exact hupper.elim
    | map rows =>
      cases base with
      | scalar s => exact hbase.elim
      | list items => exact hbase.elim
      | map lower =>
        intro v hv
        rw [Rows.find?_overlay k lower hdistinct.nodup] at hv
        cases hold : Rows.find? k lower with
        | none =>
          rw [hold, none_joined] at hv
          exact hupper v hv
        | some old =>
          cases hk : Rows.find? k rows with
          | none =>
            rw [hold, hk, joined_none] at hv
            exact hbase v (hold.trans hv)
          | some new =>
            rw [hold, hk] at hv
            cases hv
            exact ih (hdistinct.of_find? hk) (hbase old hold) (hupper new hk)

theorem Leaves.overlay {base upper : Value} {p : List Key} (hdistinct : upper.Distinct)
    (hbase : base.Leaves p) (hupper : upper.Leaves p) : (base.overlay upper).Leaves p :=
  ⟨hbase.1.overlay hdistinct hupper.1,
    (at?_overlay_of_leaves hdistinct hupper).trans hbase.2⟩

/-- A document holds what each of its layers, given from the lowest, has to itself: where the
layers below have nothing and those above leave the path alone, it has what the layer has. -/
def Stacks (layers : List Value) (whole : Value) : Prop :=
  ∀ (below : List Value) (layer : Value) (above : List Value), layers = below ++ layer :: above →
    ∀ p : List Key, p ≠ [] → (∀ v ∈ below, v.at? p = none) → (∀ v ∈ above, v.Leaves p) →
      whole.at? p = layer.at? p

theorem stacks_pairs {a b c d : Value} (hb : b.Distinct) (hc : c.Distinct) (hd : d.Distinct) :
    Stacks [a, b, c, d] ((a.overlay b).overlay (c.overlay d)) := by
  have hcd : (c.overlay d).Distinct := hc.overlay hd
  intro below layer above hlayers p _ hbelow habove
  match below with
  | [] =>
    cases hlayers
    have hupper : (c.overlay d).Leaves p :=
      (habove c (by simp)).overlay hd (habove d (by simp))
    rw [at?_overlay_of_leaves hcd hupper, at?_overlay_of_leaves hb (habove b (by simp))]
  | [_] =>
    cases hlayers
    have hupper : (c.overlay d).Leaves p :=
      (habove c (by simp)).overlay hd (habove d (by simp))
    rw [at?_overlay_of_leaves hcd hupper, at?_overlay_of_none hb (hbelow a (by simp))]
  | [_, _] =>
    cases hlayers
    have hlower : (a.overlay b).at? p = none :=
      (at?_overlay_of_none hb (hbelow a (by simp))).trans (hbelow b (by simp))
    rw [at?_overlay_of_none hcd hlower, at?_overlay_of_leaves hd (habove d (by simp))]
  | [_, _, _] =>
    cases hlayers
    have hlower : (a.overlay b).at? p = none :=
      (at?_overlay_of_none hb (hbelow a (by simp))).trans (hbelow b (by simp))
    rw [at?_overlay_of_none hcd hlower, at?_overlay_of_none hd (hbelow c (by simp))]
  | _ :: _ :: _ :: _ :: rest => simp at hlayers

/-! ## What kind of value stands at a path -/

def outline : Value → Value
  | .map _ => .map []
  | .list items => .list items
  | .scalar s => .scalar s

@[simp] theorem outline_overlay (base upper : Value) :
    (base.overlay upper).outline = upper.outline := by
  cases upper with
  | scalar s => rfl
  | list items => rfl
  | map rows => cases base <;> rfl

theorem outline_joined (base upper : Option Value) :
    (joined base upper).map outline = (upper <|> base).map outline := by
  cases base <;> cases upper <;> simp [joined]

/-- Of four documents in two pairs, the last one that has something at a path counts there. -/
theorem outline_pairs {a b c d : Value} {p : List Key} (hb : b.Distinct) (hc : c.Distinct)
    (hd : d.Distinct) (hbp : b.Opens p) (hcp : c.Opens p) (hdp : d.Opens p) :
    (((a.overlay b).overlay (c.overlay d)).at? p).map outline =
      (d.at? p <|> c.at? p <|> b.at? p <|> a.at? p).map outline := by
  rw [at?_overlay (hc.overlay hd) (hcp.overlay hd hdp), at?_overlay hd hdp, at?_overlay hb hbp,
    outline_joined]
  cases d.at? p with
  | some v => cases c.at? p <;> simp [joined]
  | none =>
    cases c.at? p with
    | some v => simp
    | none => simpa using outline_joined (a.at? p) (b.at? p)

end Value

end SymbolAtlas
