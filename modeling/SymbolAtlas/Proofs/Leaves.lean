import SymbolAtlas.Proofs.Overlays

/-!
Documents laid over each other, seen leaf by leaf. A leaf is what is no mapping. Every leaf of the
upper document stands in the whole, a leaf of the lower one stands unless the upper document claims
its path, and there are no others; names keep their order, and laying the same document over the
whole again changes nothing.
-/

set_option autoImplicit false

namespace SymbolAtlas

namespace Rows

/-! ## Names in their order -/

theorem names_put (key : Scalar) (v : Value) (rows : Rows) :
    (put key v rows).map Prod.fst =
      if key.key ∈ keys rows then rows.map Prod.fst else rows.map Prod.fst ++ [key] := by
  induction rows with
  | nil => simp [put, keys]
  | cons row rest ih =>
    obtain ⟨k, w⟩ := row
    by_cases hput : k.key = key.key
    · simp [put, keys, hput]
    · by_cases hmem : key.key ∈ keys rest
      · have hold : key.key ∈ keys ((k, w) :: rest) := List.mem_cons_of_mem _ hmem
        rw [if_pos hmem] at ih
        rw [if_pos hold, put, if_neg hput, List.map_cons, ih, List.map_cons]
      · have hnew : key.key ∉ keys ((k, w) :: rest) := by
          rw [keys, List.map_cons, List.mem_cons, not_or]
          exact ⟨fun e => hput e.symm, hmem⟩
        rw [if_neg hmem] at ih
        rw [if_neg hnew, put, if_neg hput, List.map_cons, ih, List.map_cons, List.cons_append]

/-- The names of the lower rows come first, as they are spelled there, then the new ones. -/
theorem names_overlay (rows : Rows) {upper : Rows} (h : (keys upper).Nodup) :
    (overlay rows upper).map Prod.fst =
      rows.map Prod.fst ++ (upper.map Prod.fst).filter fun key => key.key ∉ keys rows := by
  -- On the upper rows; those still to come have other keys than the row that is put.
  induction upper generalizing rows with
  | nil => simp [overlay]
  | cons row rest ih =>
    obtain ⟨key, value⟩ := row
    simp only [keys, List.map_cons, List.nodup_cons] at h
    have hrest : ∀ v, ((rest.map Prod.fst).filter fun k => k.key ∉ keys (put key v rows)) =
        (rest.map Prod.fst).filter fun k => k.key ∉ keys rows := by
      intro v
      refine List.filter_congr fun k hk => ?_
      have hne : k.key ≠ key.key := by
        obtain ⟨other, hother, rfl⟩ := List.mem_map.1 hk
        exact fun e => h.1 (List.mem_map.2 ⟨other, hother, e⟩)
      rw [decide_eq_decide, keys_put]
      split
      · exact Iff.rfl
      · simp [hne]
    rw [overlay, ih _ h.2, hrest, names_put, List.map_cons]
    by_cases hold : key.key ∈ keys rows
    · rw [if_pos hold, List.filter_cons_of_neg (by simpa using hold)]
    · rw [if_neg hold, List.filter_cons_of_pos (by simpa using hold), List.append_assoc,
        List.singleton_append]

/-- Names and look-ups say everything there is to rows without a key twice. -/
theorem eq_of_find? {rows others : Rows} (hkeys : (keys rows).Nodup)
    (hnames : others.map Prod.fst = rows.map Prod.fst)
    (hfind : ∀ k, find? k others = find? k rows) : others = rows := by
  induction rows generalizing others with
  | nil => simpa using hnames
  | cons row rest ih =>
    obtain ⟨key, v⟩ := row
    cases others with
    | nil => simp at hnames
    | cons other more =>
      obtain ⟨key', v'⟩ := other
      rw [List.map_cons, List.map_cons, List.cons.injEq] at hnames
      obtain ⟨rfl, hnames⟩ := hnames
      simp only [keys, List.map_cons, List.nodup_cons] at hkeys
      have hv : v' = v := by simpa [find?] using hfind key'.key
      have hsame : keys more = keys rest := by
        have h := congrArg (List.map Scalar.key) hnames
        simpa [keys, List.map_map, Function.comp_def] using h
      have hrest : ∀ k, find? k more = find? k rest := by
        intro k
        by_cases hk : key'.key = k
        · have hnone : find? k rest = none := (find?_eq_none_iff k rest).2 (hk ▸ hkeys.1)
          rw [hnone, find?_eq_none_iff, hsame, ← find?_eq_none_iff, hnone]
        · simpa [find?, hk] using hfind k
      rw [hv, ih hkeys.2 hnames hrest]

theorem nil_overlay {rows : Rows} (h : (keys rows).Nodup) : overlay [] rows = rows := by
  refine eq_of_find? h ?_ fun k => ?_
  · rw [names_overlay [] h]
    simp [keys]
  · rw [find?_overlay k [] h]
    exact Value.none_joined _

theorem names_overlay_of_subset {rows upper : Rows} (h : (keys upper).Nodup)
    (hsub : ∀ k ∈ keys upper, k ∈ keys rows) :
    (overlay rows upper).map Prod.fst = rows.map Prod.fst := by
  rw [names_overlay rows h, List.append_right_eq_self, List.filter_eq_nil_iff]
  intro key hkey
  obtain ⟨row, hrow, rfl⟩ := List.mem_map.1 hkey
  simpa using hsub _ (List.mem_map.2 ⟨row, hrow, rfl⟩)

end Rows

namespace Value

/-! ## Laying a document over another twice -/

theorem overlay_self {v : Value} (h : v.Distinct) : v.overlay v = v := by
  induction h with
  | scalar s => rfl
  | list items => rfl
  | @map rows keys values ih =>
    rw [overlay, Value.map.injEq]
    refine Rows.eq_of_find? keys (Rows.names_overlay_of_subset keys fun k hk => hk) fun k => ?_
    rw [Rows.find?_overlay k rows keys]
    cases hk : Rows.find? k rows with
    | none => rfl
    | some w =>
      obtain ⟨row, hrow, _, rfl⟩ := Rows.mem_of_find? hk
      rw [joined, ih row hrow]

theorem overlay_overlay {base upper : Value} (hbase : base.Distinct) (hupper : upper.Distinct) :
    (base.overlay upper).overlay upper = base.overlay upper := by
  -- On the upper document; where the lower one has nothing, a value is laid over itself.
  induction hupper generalizing base with
  | scalar s => rfl
  | list items => rfl
  | @map rows keys values ih =>
    have hrows : (Value.map rows).Distinct := .map keys values
    cases base with
    | scalar s => exact overlay_self hrows
    | list items => exact overlay_self hrows
    | map lower =>
      have hwhole : (Value.map (Rows.overlay lower rows)).Distinct := hbase.overlay hrows
      change Value.map (Rows.overlay (Rows.overlay lower rows) rows) =
        Value.map (Rows.overlay lower rows)
      rw [Value.map.injEq]
      refine Rows.eq_of_find? hwhole.nodup (Rows.names_overlay_of_subset keys fun k hk => ?_)
        fun k => ?_
      · by_contra hnew
        rw [← Rows.find?_eq_none_iff, Rows.find?_overlay k lower keys] at hnew
        cases hfind : Rows.find? k rows with
        | none => exact (Rows.find?_eq_none_iff k rows).1 hfind hk
        | some v => cases hold : Rows.find? k lower <;> simp [hfind, hold, joined] at hnew
      · rw [Rows.find?_overlay k _ keys, Rows.find?_overlay k lower keys]
        cases hfind : Rows.find? k rows with
        | none => rw [joined_none, joined_none]
        | some v =>
          obtain ⟨row, hrow, _, rfl⟩ := Rows.mem_of_find? hfind
          cases hold : Rows.find? k lower with
          | none => rw [none_joined, joined, overlay_self (values row hrow)]
          | some old =>
            simp only [joined]
            rw [ih row hrow (hbase.of_find? hold)]

/-! ## Leaves and the paths a document claims -/

def IsLeaf : Value → Prop
  | .map _ => False
  | .list _ => True
  | .scalar _ => True

theorem IsLeaf.overlay {v : Value} (h : v.IsLeaf) (base : Value) : base.overlay v = v := by
  cases v with
  | map rows => exact h.elim
  | list items => rfl
  | scalar s => rfl

theorem IsLeaf.overlaid {v : Value} (h : v.IsLeaf) (upper : Value) : v.overlay upper = upper := by
  cases v with
  | map rows => exact h.elim
  | list items => cases upper <;> rfl
  | scalar s => cases upper <;> rfl

theorem IsLeaf.of_overlay {base upper : Value} (h : (base.overlay upper).IsLeaf) :
    upper.IsLeaf := by
  cases upper with
  | map rows => cases base <;> exact h.elim
  | list items => trivial
  | scalar s => trivial

/-- A document claims a path if it binds the path itself, or a proper prefix of it to a leaf. -/
def Claims (v : Value) (p : List Key) : Prop :=
  (∃ w, v.at? p = some w) ∨
    ∃ front back w, p = front ++ back ∧ back ≠ [] ∧ v.at? front = some w ∧ w.IsLeaf

theorem not_opens_iff (v : Value) (p : List Key) : ¬ v.Opens p ↔
    ∃ front back w, p = front ++ back ∧ back ≠ [] ∧ v.at? front = some w ∧ w.IsLeaf := by
  induction p generalizing v with
  | nil =>
    refine ⟨fun h => (h trivial).elim, ?_⟩
    rintro ⟨front, back, w, happend, hback, _⟩
    exact absurd (List.append_eq_nil_iff.1 happend.symm).2 hback
  | cons k rest ih =>
    cases v with
    | scalar s =>
      exact ⟨fun _ => ⟨[], k :: rest, .scalar s, rfl, by simp, rfl, trivial⟩, fun _ => id⟩
    | list items =>
      exact ⟨fun _ => ⟨[], k :: rest, .list items, rfl, by simp, rfl, trivial⟩, fun _ => id⟩
    | map rows =>
      simp only [Opens, not_forall, ih]
      constructor
      · rintro ⟨v, hv, front, back, w, rfl, hback, hw, hleaf⟩
        exact ⟨k :: front, back, w, rfl, hback, by simp [at?, hv, hw], hleaf⟩
      · rintro ⟨front, back, w, happend, hback, hw, hleaf⟩
        cases front with
        | nil =>
          cases hw
          exact hleaf.elim
        | cons k' front =>
          rw [List.cons_append, List.cons.injEq] at happend
          obtain ⟨rfl, rfl⟩ := happend
          obtain ⟨v, hv, hw⟩ := Option.bind_eq_some_iff.1 hw
          exact ⟨v, hv, front, back, w, rfl, hback, hw, hleaf⟩

theorem leaves_iff_not_claims (v : Value) (p : List Key) : v.Leaves p ↔ ¬ v.Claims p := by
  rw [Leaves, Claims, not_or, ← not_opens_iff, not_not, and_comm, not_exists,
    Option.eq_none_iff_forall_ne_some]

theorem opens_of_at? {v w : Value} {p : List Key} (h : v.at? p = some w) : v.Opens p := by
  induction p generalizing v with
  | nil => trivial
  | cons k rest ih =>
    cases v with
    | scalar s => simp [at?] at h
    | list items => simp [at?] at h
    | map rows =>
      obtain ⟨u, hu, hw⟩ := Option.bind_eq_some_iff.1 h
      intro u' hu'
      cases hu.symm.trans hu'
      exact ih hw

theorem at?_of_not_opens {v : Value} {p : List Key} (h : ¬ v.Opens p) : v.at? p = none :=
  Option.eq_none_iff_forall_ne_some.2 fun _ hw => h (opens_of_at? hw)

theorem at?_overlay_of_not_opens {base upper : Value} {p : List Key} (hupper : upper.Distinct)
    (h : ¬ upper.Opens p) : (base.overlay upper).at? p = none := by
  induction p generalizing base upper with
  | nil => exact (h trivial).elim
  | cons k rest ih =>
    cases upper with
    | scalar s => rfl
    | list items => rfl
    | map rows =>
      simp only [Opens, not_forall] at h
      obtain ⟨v, hv, hclosed⟩ := h
      have hnone := at?_of_not_opens hclosed
      cases base with
      | scalar s => simp [overlay, at?, hv, hnone]
      | list items => simp [overlay, at?, hv, hnone]
      | map lower =>
        have hfind := Rows.find?_overlay k lower hupper.nodup
        cases hold : Rows.find? k lower with
        | none => simp [overlay, at?, hfind, hold, hv, hnone]
        | some old =>
          simpa [overlay, at?, hfind, hold, hv, joined] using ih (hupper.of_find? hv) hclosed

/-- What a document laid over another makes of the leaves and of the names of both. -/
structure LeafExact (base upper whole : Value) : Prop where
  higher : ∀ p v, upper.at? p = some v → v.IsLeaf → whole.at? p = some v
  kept : ∀ p v, base.at? p = some v → v.IsLeaf → ¬ upper.Claims p → whole.at? p = some v
  replaced : ∀ p v, base.at? p = some v → v.IsLeaf → upper.Claims p → whole.at? p = upper.at? p
  origin : ∀ p v, whole.at? p = some v → v.IsLeaf →
    base.at? p = some v ∨ upper.at? p = some v
  names : ∀ p rows more, base.at? p = some (.map rows) → upper.at? p = some (.map more) →
    ∃ all, whole.at? p = some (.map all) ∧
      all.map Prod.fst =
        rows.map Prod.fst ++ (more.map Prod.fst).filter fun key => key.key ∉ Rows.keys rows

theorem distinct_of_at? {v w : Value} {p : List Key} (hv : v.Distinct) (h : v.at? p = some w) :
    w.Distinct := by
  induction p generalizing v with
  | nil =>
    cases v <;> cases h <;> exact hv
  | cons k rest ih =>
    cases v with
    | scalar s => simp [at?] at h
    | list items => simp [at?] at h
    | map rows =>
      obtain ⟨u, hu, hw⟩ := Option.bind_eq_some_iff.1 h
      exact ih (hv.of_find? hu) hw

theorem leafExact_overlay (base : Value) {upper : Value} (hupper : upper.Distinct) :
    LeafExact base upper (base.overlay upper) := by
  refine ⟨fun p v hv hleaf => ?_, fun p v hv hleaf hclaims => ?_, fun p v hv hleaf hclaims => ?_,
    fun p v hv hleaf => ?_, fun p rows more hrows hmore => ?_⟩
  · rw [at?_overlay hupper (opens_of_at? hv), hv]
    cases base.at? p with
    | none => rfl
    | some old => rw [joined, hleaf.overlay]
  · rw [← leaves_iff_not_claims] at hclaims
    rw [at?_overlay_of_leaves hupper hclaims, hv]
  · by_cases hopens : upper.Opens p
    · rw [at?_overlay hupper hopens, hv]
      cases hw : upper.at? p with
      | none => exact absurd hclaims ((leaves_iff_not_claims upper p).1 ⟨hopens, hw⟩)
      | some w => rw [joined, hleaf.overlaid]
    · rw [at?_overlay_of_not_opens hupper hopens]
      exact (at?_of_not_opens hopens).symm
  · by_cases hopens : upper.Opens p
    · rw [at?_overlay hupper hopens] at hv
      cases hw : upper.at? p with
      | none =>
        rw [hw, joined_none] at hv
        exact .inl hv
      | some w =>
        cases hold : base.at? p with
        | none =>
          rw [hw, hold, none_joined] at hv
          exact .inr hv
        | some old =>
          rw [hw, hold, joined, Option.some.injEq] at hv
          subst hv
          exact .inr (by rw [hleaf.of_overlay.overlay])
    · rw [at?_overlay_of_not_opens hupper hopens] at hv
      cases hv
  · refine ⟨Rows.overlay rows more, ?_,
      Rows.names_overlay rows (distinct_of_at? hupper hmore).nodup⟩
    rw [at?_overlay hupper (opens_of_at? hmore), hrows, hmore]
    rfl

end Value

/-- A mapping laid over another keeps every leaf of its own and those of the other whose paths it
does not claim, and has no more; at each level the names of the lower one come first. Laid over the
whole again it changes nothing, and the empty mapping changes nothing on either side. -/
theorem overlay_exact {base upper : Rows} (hbase : (Value.map base).Distinct)
    (hupper : (Value.map upper).Distinct) :
    Value.LeafExact (.map base) (.map upper) (.map (base.overlay upper)) ∧
    (base.overlay upper).overlay upper = base.overlay upper ∧
    Rows.overlay [] upper = upper ∧ base.overlay [] = base := by
  refine ⟨Value.leafExact_overlay (.map base) hupper, ?_, Rows.nil_overlay hupper.nodup, rfl⟩
  exact Value.map.inj (Value.overlay_overlay hbase hupper)

namespace Value.Sample

def base : Rows :=
  [(.text "a", .int 1), (.text "m", .map [(.text "x", .int 1), (.text "y", .int 2)]),
    (.text "s", .map [(.text "t", .int 1)]), (.text "n", .int 3)]

def upper : Rows :=
  [(.text "n", .map []), (.text "m", .map [(.text "z", .null), (.text "x", .int 9)]),
    (.text "s", .int 5)]

def whole : Rows :=
  [(.text "a", .int 1),
    (.text "m", .map [(.text "x", .int 9), (.text "y", .int 2), (.text "z", .null)]),
    (.text "s", .int 5), (.text "n", .map [])]

theorem distinct_base : (Value.map base).Distinct := by
  refine .map (by decide) ?_
  simp only [base, List.forall_mem_cons]
  refine ⟨.scalar _, .map (by decide) ?_, .map (by decide) ?_, .scalar _, by simp⟩
  · simpa using ⟨.scalar _, .scalar _⟩
  · simpa using .scalar _

theorem distinct_upper : (Value.map upper).Distinct := by
  refine .map (by decide) ?_
  simp only [upper, List.forall_mem_cons]
  refine ⟨.nil, .map (by decide) ?_, .scalar _, by simp⟩
  simpa using ⟨.scalar _, .scalar _⟩

end Value.Sample

open Value.Sample in
theorem overlay_of_sample : (Value.map base).Distinct ∧ (Value.map upper).Distinct ∧
    base.overlay upper = whole ∧ whole.overlay upper = whole ∧
    (Value.map whole).at? [.text "m", .text "y"] = some (.int 2) ∧
    (Value.map whole).at? [.text "s", .text "t"] = none := by
  have hwhole : base.overlay upper = whole := by rfl
  obtain ⟨hexact, hagain, _⟩ := overlay_exact distinct_base distinct_upper
  rw [hwhole] at hexact hagain
  have hunclaimed : ¬ (Value.map upper).Claims [.text "m", .text "y"] := by
    rw [← Value.leaves_iff_not_claims]
    refine ⟨fun v hv => ?_, rfl⟩
    cases hv
    exact fun w hw => trivial
  have hclaimed : (Value.map upper).Claims [.text "s", .text "t"] :=
    .inr ⟨[.text "s"], [.text "t"], .int 5, rfl, by simp, rfl, trivial⟩
  exact ⟨distinct_base, distinct_upper, hwhole, hagain, hexact.kept _ _ rfl trivial hunclaimed,
    hexact.replaced _ (.int 1) rfl trivial hclaimed⟩

end SymbolAtlas
