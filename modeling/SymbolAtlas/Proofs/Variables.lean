import SymbolAtlas.Proofs.Documents
import SymbolAtlas.Proofs.Tables

/-!
What the environment says about the settings. Where every variable of the settings is that of a
known key, a key has the value of its own variable and of no other.
-/

set_option autoImplicit false

namespace SymbolAtlas

namespace Section

def path (s : Section) (key : String) : List Key := [.text s.title, .text key]

end Section

namespace Environment

def nameOf (s : Section) (key : String) : List Char :=
  stem ++ s.title.toList ++ divider ++ key.toList

def setting? (vars : Table (List Char) String) (s : Section) (key : String) : Option Value :=
  (vars.get? (nameOf s key)).bind (keyValue? s [] key)

/-- A variable that is not about the settings, or that of a known key. -/
def Direct (name : List Char) : Prop :=
  stem <+: name → ∃ s ∈ Section.all, ∃ key ∈ s.keys, name = nameOf s key

/-! ## Names of variables -/

theorem nameOf_inj {s : Section} {key key' : String} (h : nameOf s key = nameOf s key') :
    key = key' :=
  String.toList_injective (List.append_cancel_left h)

theorem isPrefixOf?_nameOf : ∀ s ∈ Section.all, ∀ t ∈ Section.all, ∀ key ∈ t.keys,
    (stem ++ s.title.toList ++ divider).isPrefixOf? (nameOf t key) =
      if s = t then some key.toList else none := by
  decide +kernel

theorem title_ne_nameOf : ∀ s ∈ Section.all, ∀ t ∈ Section.all, ∀ key ∈ t.keys,
    stem ++ s.title.toList ≠ nameOf t key := by
  decide +kernel

theorem split_key : ∀ s ∈ Section.all, ∀ key ∈ s.keys, split key.toList = [key.toList] := by
  decide +kernel

theorem find?_lower_key : ∀ s ∈ Section.all, ∀ key ∈ s.keys,
    (s.keys.find? fun k => k.toList = lower key.toList) = some key := by
  decide +kernel

/-! ## The keys of a section -/

theorem keyValue?_distinct {s : Section} {chain : List String} {last text : String} {v : Value}
    (h : keyValue? s chain last text = some v) : v.Distinct := by
  unfold keyValue? at h
  split at h
  · exact Json.read_distinct h
  · cases h
    exact .scalar _

/-- The variable of a key sets the key; any other variable is passed over. -/
theorem addKey_cases {s : Section} (hs : s ∈ Section.all) {rows out : Rows}
    {row : List Char × String} (hdirect : Direct row.1) (h : addKey s rows row = some out) :
    (∃ key ∈ s.keys, row.1 = nameOf s key ∧
        ∃ v, keyValue? s [] key row.2 = some v ∧ out = rows.set key v) ∨
      (∀ key, row.1 ≠ nameOf s key) ∧ out = rows := by
  unfold addKey at h
  cases hrest : (stem ++ s.title.toList ++ divider).isPrefixOf? row.1 with
  | none =>
    rw [hrest] at h
    refine .inr ⟨fun key hkey => ?_, (Option.some.inj h).symm⟩
    rw [hkey, nameOf, List.isPrefixOf?_eq_some_iff_append_eq.2 rfl] at hrest
    cases hrest
  | some rest =>
    have hname : stem ++ s.title.toList ++ divider ++ rest = row.1 :=
      List.append_eq_of_isPrefixOf?_eq_some hrest
    have hstem : stem <+: row.1 :=
      ⟨s.title.toList ++ divider ++ rest, by simpa [List.append_assoc] using hname⟩
    obtain ⟨t, ht, key, hkey, hrow⟩ := hdirect hstem
    rw [hrow, isPrefixOf?_nameOf s hs t ht key hkey] at hrest
    split at hrest
    · next hst =>
      subst hst
      cases hrest
      rw [hrow, isPrefixOf?_nameOf s hs s hs key hkey, if_pos rfl] at h
      simp only [split_key s hs key hkey, List.map_cons, List.map_nil, String.ofList_toList,
        List.getLast?_singleton, Option.getD_some, List.dropLast_singleton, plant] at h
      obtain ⟨v, hv, hout⟩ := Option.map_eq_some_iff.1 h
      exact .inl ⟨key, hkey, hrow, v, hv, hout.symm⟩
    · cases hrest

structure Gathers (s : Section) (entries : List (List Char × String)) (rows : Rows) : Prop where
  distinct : (Value.map rows).Distinct
  known : ∀ row ∈ rows, ∃ key ∈ s.keys, row.1 = .text key
  value : ∀ key, key ∈ s.keys →
    rows.get? key = (Table.lookup (nameOf s key) entries).bind (keyValue? s [] key)

theorem Gathers.nil (s : Section) : Gathers s [] [] :=
  ⟨.nil, by simp, fun _ _ => rfl⟩

theorem lookup_concat {κ α : Type} [DecidableEq κ] (k : κ) (entries : List (κ × α)) (row : κ × α) :
    Table.lookup k (entries ++ [row]) =
      (Table.lookup k entries <|> if row.1 = k then some row.2 else none) := by
  induction entries with
  | nil => simp [Table.lookup]
  | cons head rest ih =>
    by_cases h : head.1 = k
    · simp [Table.lookup, h]
    · simpa [Table.lookup, h] using ih

theorem Gathers.addKey {s : Section} (hs : s ∈ Section.all) {entries : List (List Char × String)}
    {rows out : Rows} {row : List Char × String} (hrows : Gathers s entries rows)
    (hnew : row.1 ∉ entries.map Prod.fst) (hdirect : Direct row.1)
    (h : addKey s rows row = some out) : Gathers s (entries ++ [row]) out := by
  rcases addKey_cases hs hdirect h with ⟨key, hkey, hrow, v, hv, rfl⟩ | ⟨hother, rfl⟩
  · refine ⟨hrows.distinct.put _ (keyValue?_distinct hv), ?_, fun key' hkey' => ?_⟩
    · intro found hfound
      rcases Rows.mem_put hfound with hold | ⟨_, hname | ⟨old, hold, hname⟩⟩
      · exact hrows.known found hold
      · exact ⟨key, hkey, hname⟩
      · exact hname ▸ hrows.known old hold
    · have hvalue := hrows.value key' hkey'
      rw [Rows.get?] at hvalue
      rw [lookup_concat, Rows.get?, Rows.set, Rows.find?_put]
      by_cases hk : key = key'
      · subst hk
        have hnone : Table.lookup (nameOf s key) entries = none :=
          (Table.lookup_eq_none_iff ..).2 (hrow ▸ hnew)
        simp [Scalar.key, hnone, hrow, hv]
      · have hname : ¬ row.1 = nameOf s key' := fun e => hk (nameOf_inj (hrow.symm.trans e))
        simp [Scalar.key, hk, hname, hvalue]
  · refine ⟨hrows.distinct, hrows.known, fun key hkey => ?_⟩
    rw [lookup_concat, if_neg (hother key), hrows.value key hkey]
    simp

theorem gathers_foldl {s : Section} (hs : s ∈ Section.all) {entries : List (List Char × String)}
    (hnodup : (entries.map Prod.fst).Nodup) (hdirect : ∀ row ∈ entries, Direct row.1) {out : Rows}
    (h : entries.foldl (fun rows row => rows.bind fun rows => addKey s rows row) (some []) =
      some out) : Gathers s entries out := by
  induction entries using List.reverseRecOn generalizing out with
  | nil =>
    cases h
    exact .nil s
  | append_singleton entries row ih =>
    rw [List.foldl_append, List.foldl_cons, List.foldl_nil] at h
    obtain ⟨rows, hrows, hadd⟩ := Option.bind_eq_some_iff.1 h
    rw [List.map_append, List.nodup_append] at hnodup
    have hnew : row.1 ∉ entries.map Prod.fst :=
      fun hmem => hnodup.2.2 row.1 hmem row.1 (by simp) rfl
    have hbefore := ih hnodup.1 (fun row hrow => hdirect row (by simp [hrow])) hrows
    exact hbefore.addKey hs hnew (hdirect row (by simp)) hadd

theorem properRows_eq {s : Section} (hs : s ∈ Section.all) {entries : List (List Char × String)}
    {rows : Rows} (h : Gathers s entries rows) : properRows s rows = rows := by
  have hsame : rows.map (fun row => (properName s row.1, row.2)) = rows := by
    refine (List.map_congr_left fun row hrow => ?_).trans (List.map_id rows)
    obtain ⟨key, hkey, hname⟩ := h.known row hrow
    rw [hname, properName, find?_lower_key s hs key hkey]
    exact Prod.ext hname.symm rfl
  rw [properRows, hsame, Rows.ofList_eq h.distinct.nodup]

/-! ## Sections -/

variable {vars : Table (List Char) String}

theorem sectionValue_cases (hdirect : ∀ name ∈ vars.keys, Direct name) {s : Section}
    (hs : s ∈ Section.all) {value : Option Value} (h : sectionValue vars s = some value) :
    ∃ rows, Gathers s vars.entries rows ∧
      (value = some (.map rows) ∨ value = none ∧ rows = []) := by
  have hwhole : vars.get? (stem ++ s.title.toList) = none := by
    rw [Table.get?_eq_none_iff]
    intro hmem
    obtain ⟨t, ht, key, hkey, hname⟩ :=
      hdirect _ hmem (List.prefix_append stem s.title.toList)
    exact title_ne_nameOf s hs t ht key hkey hname
  rw [sectionValue, hwhole] at h
  obtain ⟨rows, hrows, rfl⟩ := Option.map_eq_some_iff.1 h
  have hgathers : Gathers s vars.entries rows :=
    gathers_foldl hs vars.nodup (fun row hrow => hdirect _ (List.mem_map_of_mem hrow)) hrows
  refine ⟨rows, hgathers, ?_⟩
  cases rows with
  | nil => exact .inr ⟨rfl, rfl⟩
  | cons row rest => exact .inl (by simp [properRows_eq hs hgathers])

/-- What the environment says about some sections: those it names are mappings of their keys. -/
structure Speaks (vars : Table (List Char) String) (sections : List Section) (rows : Rows) :
    Prop where
  distinct : (Value.map rows).Distinct
  titles : ∀ row ∈ rows, ∃ s ∈ sections, row.1 = .text s.title
  opens : ∀ s ∈ sections, ∀ key, (Value.map rows).Opens (s.path key)
  value : ∀ s ∈ sections, ∀ key ∈ s.keys, (Value.map rows).at? (s.path key) = setting? vars s key

theorem Speaks.silent {sections : List Section} {rows : Rows} (h : Speaks vars sections rows)
    {s : Section} (hs : s.title ∉ sections.map Section.title) :
    Rows.find? (.text s.title) rows = none := by
  rw [Rows.find?_eq_none_iff]
  intro hmem
  obtain ⟨row, hrow, hkey⟩ := List.mem_map.1 hmem
  obtain ⟨t, ht, hname⟩ := h.titles row hrow
  rw [hname] at hkey
  exact hs (Key.text.inj hkey ▸ List.mem_map_of_mem ht)

theorem Speaks.skip {sections : List Section} {rows : Rows} (h : Speaks vars sections rows)
    {s : Section} (hs : s.title ∉ sections.map Section.title) (hnone : Gathers s vars.entries []) :
    Speaks vars (s :: sections) rows := by
  have hfind := h.silent hs
  refine ⟨h.distinct, fun row hrow => ?_, ?_, ?_⟩
  · obtain ⟨t, ht, hname⟩ := h.titles row hrow
    exact ⟨t, List.mem_cons_of_mem s ht, hname⟩
  · refine List.forall_mem_cons.2 ⟨fun key v hv => ?_, h.opens⟩
    rw [hfind] at hv
    cases hv
  · refine List.forall_mem_cons.2 ⟨fun key hkey => ?_, h.value⟩
    have hvalue : none = setting? vars s key := hnone.value key hkey
    simpa [Section.path, Value.at?, hfind] using hvalue

theorem Speaks.cons {sections : List Section} {rows : Rows} (h : Speaks vars sections rows)
    {s : Section} (hs : s.title ∉ sections.map Section.title) {inner : Rows}
    (hinner : Gathers s vars.entries inner) :
    Speaks vars (s :: sections) ((.text s.title, .map inner) :: rows) := by
  have hother : ∀ t ∈ sections,
      Rows.find? (.text t.title) ((.text s.title, .map inner) :: rows) =
        Rows.find? (.text t.title) rows := by
    intro t ht
    have hne : ¬ s.title = t.title := fun e => hs (e ▸ List.mem_map_of_mem ht)
    simp [Rows.find?, Scalar.key, hne]
  refine ⟨?_, ?_, ?_, ?_⟩
  · cases h.distinct with
    | map keys values =>
      refine .map (List.nodup_cons.2 ⟨?_, keys⟩) (List.forall_mem_cons.2 ⟨hinner.distinct, values⟩)
      exact (Rows.find?_eq_none_iff ..).1 (h.silent hs)
  · refine List.forall_mem_cons.2 ⟨⟨s, List.mem_cons_self, rfl⟩, fun row hrow => ?_⟩
    obtain ⟨t, ht, hname⟩ := h.titles row hrow
    exact ⟨t, List.mem_cons_of_mem s ht, hname⟩
  · refine List.forall_mem_cons.2 ⟨fun key v hv => ?_, fun t ht key v hv => ?_⟩
    · simp only [Rows.find?, Scalar.key, if_true, Option.some.injEq] at hv
      subst hv
      exact fun _ _ => trivial
    · exact h.opens t ht key v (hother t ht ▸ hv)
  · refine List.forall_mem_cons.2 ⟨fun key hkey => ?_, fun t ht key hkey => ?_⟩
    · have hvalue : Rows.find? (.text key) inner = setting? vars s key := hinner.value key hkey
      simpa [Section.path, Value.at?, Rows.find?, Scalar.key] using hvalue
    · rw [← h.value t ht key hkey]
      simp only [Section.path, Value.at?, hother t ht]

theorem speaks_sections (hdirect : ∀ name ∈ vars.keys, Direct name) {sections : List Section}
    (hall : ∀ s ∈ sections, s ∈ Section.all) (htitles : (sections.map Section.title).Nodup)
    {rows : Rows} (h : Environment.sections vars sections = .ok rows) :
    Speaks vars sections rows := by
  induction sections generalizing rows with
  | nil =>
    cases h
    exact ⟨.nil, by simp, by simp, by simp⟩
  | cons s rest ih =>
    obtain ⟨hs, hrest⟩ := List.forall_mem_cons.1 hall
    rw [List.map_cons, List.nodup_cons] at htitles
    rw [Environment.sections] at h
    cases hvalue : sectionValue vars s with
    | none => simp [hvalue] at h
    | some value =>
      rw [hvalue] at h
      obtain ⟨tail, htail, rfl⟩ := exceptMap_eq_ok h
      have hspeaks := ih hrest htitles.2 htail
      obtain ⟨inner, hinner, rfl | ⟨rfl, rfl⟩⟩ := sectionValue_cases hdirect hs hvalue
      · exact hspeaks.cons htitles.1 hinner
      · exact hspeaks.skip htitles.1 hinner

end Environment

end SymbolAtlas
