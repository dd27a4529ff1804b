import Mathlib.Data.List.Sort
import Mathlib.Data.Prod.Lex
import Mathlib.Data.String.Basic
import SymbolAtlas.Capture
import SymbolAtlas.Proofs.Tables

/-!
The symbols among captured nodes. Of the nodes of one kind at one octet the one under the least tag
is kept, and under that tag the first; the rest of the order in which names and nodes are given
leaves no trace.
-/

set_option autoImplicit false

namespace SymbolAtlas

/-- In rows sorted by distinct keys, the first answer is that of the least key with an answer. -/
theorem findSome?_eq_some_iff_least {κ α β : Type} [LinearOrder κ] {f : κ × α → Option β}
    {rows : List (κ × α)} (hsorted : rows.Pairwise fun a b => a.1 ≤ b.1)
    (hnodup : (rows.map Prod.fst).Nodup) {b : β} :
    rows.findSome? f = some b ↔
      ∃ row ∈ rows, f row = some b ∧ ∀ other ∈ rows, (f other).isSome → row.1 ≤ other.1 := by
  induction rows with
  | nil => simp
  | cons head rest ih =>
    rw [List.pairwise_cons] at hsorted
    rw [List.map_cons, List.nodup_cons] at hnodup
    cases hf : f head with
    | none => simp [hf, ih hsorted.2 hnodup.2]
    | some a =>
      rw [List.findSome?_cons, hf]
      constructor
      · intro h
        refine ⟨head, List.mem_cons_self, hf.trans h, fun other hother _ => ?_⟩
        rcases List.mem_cons.1 hother with rfl | hrest
        · exact le_rfl
        · exact hsorted.1 other hrest
      · rintro ⟨row, hrow, hb, hleast⟩
        rcases List.mem_cons.1 hrow with rfl | hrest
        · exact hf.symm.trans hb
        · have hle := hleast head List.mem_cons_self (by simp [hf])
          have heq := le_antisymm (hsorted.1 row hrest) hle
          exact absurd (List.mem_map.2 ⟨row, hrest, heq.symm⟩) hnodup.1

namespace Capture

variable {source : List UInt8}

/-! ## Names of captures -/

theorem tagOf?_eq_some_iff (kind : CaptureKind) (name tag : String) :
    tagOf? kind name = some tag ↔ name = kind.stem ++ tag := by
  rw [tagOf?, Option.ite_none_right_eq_some, List.isPrefixOf_iff_prefix, Option.some.injEq]
  constructor
  · rintro ⟨⟨rest, hrest⟩, rfl⟩
    rw [← String.toList_inj, String.toList_append, String.toList_ofList, ← hrest,
      ← String.length_toList, List.drop_left]
  · rintro rfl
    rw [String.toList_append]
    refine ⟨List.prefix_append _ _, ?_⟩
    rw [← String.length_toList, List.drop_left, String.ofList_toList]

theorem stem_append_ne (tag tag' : String) :
    CaptureKind.definition.stem ++ tag ≠ CaptureKind.reference.stem ++ tag' := by
  intro h
  have hchars := congrArg String.toList h
  simp [CaptureKind.stem, CaptureKind.text, String.toList_append] at hchars

theorem classify_eq_some_iff (name : String) (kind : CaptureKind) (tag : String) :
    classify name = some (kind, tag) ↔ name = kind.stem ++ tag := by
  cases hdef : tagOf? .definition name with
  | some other =>
    have hname := (tagOf?_eq_some_iff _ _ _).1 hdef
    cases kind with
    | definition => simp [classify, hdef, ← tagOf?_eq_some_iff]
    | reference =>
      have hne : name ≠ CaptureKind.reference.stem ++ tag := hname ▸ stem_append_ne other tag
      simp [classify, hdef, hne]
  | none =>
    cases kind with
    | definition => simp [classify, hdef, ← tagOf?_eq_some_iff]
    | reference => simp [classify, hdef, ← tagOf?_eq_some_iff]

theorem stem_append_le_iff (kind : CaptureKind) (tag tag' : String) :
    kind.stem ++ tag ≤ kind.stem ++ tag' ↔ tag ≤ tag' := by
  have hmono : StrictMono fun tag => kind.stem ++ tag := by
    intro a b h
    rw [String.lt_iff_toList_lt, String.toList_append, String.toList_append]
    exact List.append_left_lt (String.lt_iff_toList_lt.1 h)
  exact hmono.le_iff_le

/-! ## The first node of a kind at an octet -/

def ofNode (source : List UInt8) (kind : CaptureKind) (tag : String) (label : Label) : Capture :=
  ⟨nodeText source label, kind, tag, Text.lineAt source label.start,
    Text.columnAt source label.start, label.start⟩

def speaksAt (source : List UInt8) (start : Nat) (label : Label) : Bool :=
  label.start == start && !(nodeText source label).isEmpty

def standsAt (kind : CaptureKind) (start : Nat) (c : Capture) : Bool :=
  c.start == start && c.kind == kind

def place (c : Capture) : Nat × CaptureKind := (c.start, c.kind)

theorem standsAt_iff (kind : CaptureKind) (start : Nat) (c : Capture) :
    standsAt kind start c = true ↔ c.start = start ∧ c.kind = kind := by
  simp [standsAt]

theorem addNode_eq (source : List UInt8) (kind : CaptureKind) (tag : String) (acc : List Capture)
    (label : Label) : addNode source kind tag acc label =
      if acc.any (standsAt kind label.start) then acc
      else if (nodeText source label).isEmpty then acc
      else acc ++ [ofNode source kind tag label] :=
  rfl

/-- A node changes what is found at its own place only, and only where nothing was found. -/
theorem find?_addNode (kind : CaptureKind) (tag : String) (acc : List Capture) (label : Label)
    (k : CaptureKind) (start : Nat) :
    (addNode source kind tag acc label).find? (standsAt k start) =
      (acc.find? (standsAt k start)).or
        (if kind = k ∧ speaksAt source start label then some (ofNode source kind tag label)
          else none) := by
  rw [addNode_eq]
  by_cases hplace : kind = k ∧ label.start = start
  · obtain ⟨rfl, rfl⟩ := hplace
    have hany : acc.any (standsAt kind label.start) =
        (acc.find? (standsAt kind label.start)).isSome := by
      rw [Bool.eq_iff_iff, List.any_eq_true, List.find?_isSome]
    cases hfind : acc.find? (standsAt kind label.start) with
    | some c => simp [hany, hfind]
    | none =>
      by_cases htext : (nodeText source label).isEmpty = true
      · simp [htext, hfind, speaksAt]
      · simp [hany, htext, hfind, speaksAt, standsAt, ofNode]
  · have hnot : ¬ (kind = k ∧ speaksAt source start label = true) := by
      simp only [speaksAt, Bool.and_eq_true, beq_iff_eq]
      exact fun h => hplace ⟨h.1, h.2.1⟩
    have hstands : standsAt k start (ofNode source kind tag label) = false := by
      rw [Bool.eq_false_iff, ne_eq, standsAt_iff]
      exact fun h => hplace ⟨h.2, h.1⟩
    rw [if_neg hnot, Option.or_none]
    split
    · rfl
    · split
      · rfl
      · simp [List.find?_append, hstands]

theorem find?_foldl_addNode (kind : CaptureKind) (tag : String) (labels : List Label)
    (acc : List Capture) (k : CaptureKind) (start : Nat) :
    (labels.foldl (addNode source kind tag) acc).find? (standsAt k start) =
      (acc.find? (standsAt k start)).or
        (if kind = k then (labels.find? (speaksAt source start)).map (ofNode source kind tag)
          else none) := by
  -- On the nodes still to come; what is found already stays.
  induction labels generalizing acc with
  | nil => simp
  | cons label rest ih =>
    rw [List.foldl_cons, ih, find?_addNode, Option.or_assoc]
    by_cases hk : kind = k
    · by_cases hspeaks : speaksAt source start label = true
      · simp [hk, hspeaks]
      · simp [hk, hspeaks]
    · simp [hk]

def offer (source : List UInt8) (kind : CaptureKind) (start : Nat) (row : String × List Label) :
    Option Capture :=
  match classify row.1 with
  | none => none
  | some (k, tag) =>
    if k = kind then (row.2.find? (speaksAt source start)).map (ofNode source k tag) else none

theorem find?_foldl_addNamed (rows : List (String × List Label)) (acc : List Capture)
    (kind : CaptureKind) (start : Nat) :
    (rows.foldl (addNamed source) acc).find? (standsAt kind start) =
      (acc.find? (standsAt kind start)).or (rows.findSome? (offer source kind start)) := by
  induction rows generalizing acc with
  | nil => simp
  | cons row rest ih =>
    have hrow : (addNamed source acc row).find? (standsAt kind start) =
        (acc.find? (standsAt kind start)).or (offer source kind start row) := by
      cases hname : classify row.1 with
      | none => simp [addNamed, offer, hname]
      | some named => simp [addNamed, offer, hname, find?_foldl_addNode]
    rw [List.foldl_cons, ih, hrow, Option.or_assoc, List.findSome?_cons]
    cases offer source kind start row with
    | none => rfl
    | some c => rfl

theorem nodup_addNode (kind : CaptureKind) (tag : String) {acc : List Capture} (label : Label)
    (h : (acc.map place).Nodup) : ((addNode source kind tag acc label).map place).Nodup := by
  rw [addNode_eq]
  split
  · exact h
  · next hnew =>
    split
    · exact h
    · rw [List.map_append, List.map_singleton]
      refine List.Nodup.append h (List.nodup_singleton _)
        (List.disjoint_singleton.2 fun hmem => ?_)
      obtain ⟨c, hc, hplace⟩ := List.mem_map.1 hmem
      obtain ⟨hstart, hkind⟩ := Prod.mk.inj hplace
      exact hnew (List.any_eq_true.2 ⟨c, hc, (standsAt_iff ..).2 ⟨hstart, hkind⟩⟩)

theorem nodup_foldl_addNamed (rows : List (String × List Label)) {acc : List Capture}
    (h : (acc.map place).Nodup) : ((rows.foldl (addNamed source) acc).map place).Nodup := by
  induction rows generalizing acc with
  | nil => exact h
  | cons row rest ih =>
    refine ih ?_
    rw [addNamed]
    split
    · exact h
    · next kind tag _ =>
      generalize row.2 = labels
      induction labels generalizing acc with
      | nil => exact h
      | cons label rest ih => exact ih (nodup_addNode kind tag label h)

theorem mem_iff_find? {cs : List Capture} (h : (cs.map place).Nodup) (c : Capture) :
    c ∈ cs ↔ cs.find? (standsAt c.kind c.start) = some c := by
  refine ⟨fun hc => ?_, List.mem_of_find?_eq_some⟩
  cases hfind : cs.find? (standsAt c.kind c.start) with
  | none =>
    rw [List.find?_eq_none] at hfind
    exact absurd ((standsAt_iff ..).2 ⟨rfl, rfl⟩) (hfind c hc)
  | some d =>
    have hd := (standsAt_iff ..).1 (List.find?_some hfind)
    have hplace : place d = place c := Prod.ext hd.1 hd.2
    rw [List.inj_on_of_nodup_map h (List.mem_of_find?_eq_some hfind) hc hplace]

/-! ## Captures in the order of the source -/

theorem before_iff (a b : Capture) : before a b = true ↔
    toLex (a.start, toLex (a.kind.text, a.tag)) ≤ toLex (b.start, toLex (b.kind.text, b.tag)) := by
  have htext : a.kind.text = b.kind.text ↔ a.kind = b.kind := by
    cases a.kind <;> cases b.kind <;> decide
  simp only [Prod.Lex.toLex_le_toLex, htext]
  by_cases hstart : a.start = b.start
  · by_cases hkind : a.kind = b.kind
    · simp [before, hstart, hkind]
    · simp [before, hstart, hkind]
  · simp [before, hstart]

theorem pairwise_before (cs : List Capture) :
    (cs.mergeSort before).Pairwise fun a b => before a b = true := by
  refine List.pairwise_mergeSort (fun a b c => ?_) (fun a b => ?_) cs
  · simp only [before_iff]
    exact le_trans
  · rw [Bool.or_eq_true, before_iff, before_iff]
    exact le_total _ _

/-- The order of the source, and at one octet definitions before references. -/
def Precedes (a b : Capture) : Prop :=
  a.start < b.start ∨ a.start = b.start ∧ a.kind = .definition ∧ b.kind = .reference

instance precedes_irrefl : Std.Irrefl Precedes := ⟨fun a h => by
  rcases h with hlt | ⟨_, hdef, href⟩
  · exact Nat.lt_irrefl _ hlt
  · exact absurd (hdef.symm.trans href) (by decide)⟩

instance precedes_antisymm : Std.Antisymm Precedes := ⟨fun a b hab hba => by
  rcases hab with hab | ⟨hab, hdef, _⟩
  · rcases hba with hba | ⟨hba, _⟩
    · omega
    · omega
  · rcases hba with hba | ⟨_, _, href⟩
    · omega
    · exact absurd (hdef.symm.trans href) (by decide)⟩

theorem precedes_of_before {a b : Capture} (h : before a b = true) (hne : place a ≠ place b) :
    Precedes a b := by
  by_cases hstart : a.start = b.start
  · have hkind : a.kind ≠ b.kind := fun e => hne (Prod.ext hstart e)
    have htext : a.kind.text < b.kind.text := by simpa [before, hstart, hkind] using h
    cases ha : a.kind with
    | definition =>
      cases hb : b.kind with
      | definition => exact absurd (ha.trans hb.symm) hkind
      | reference => exact .inr ⟨hstart, ha, hb⟩
    | reference =>
      cases hb : b.kind with
      | definition =>
        rw [ha, hb] at htext
        exact absurd htext (by decide)
      | reference => exact absurd (ha.trans hb.symm) hkind
  · exact .inl (by simpa [before, hstart] using h)

theorem pairwise_collect (source : List UInt8) (rows : List (String × List Label)) :
    (collect source rows).Pairwise Precedes := by
  have hnodup : ((collect source rows).map place).Nodup :=
    ((List.mergeSort_perm _ _).map place).nodup_iff.2 (nodup_foldl_addNamed _ List.nodup_nil)
  exact (pairwise_before _).imp₂ (fun a b => precedes_of_before) (List.pairwise_map.1 hnodup)

/-! ## Captures of a mapping -/

/-- Some node under a name of a kind with a tag starts at an octet and has a text. -/
def Holds (source : List UInt8) (captured : Table String (List Label)) (kind : CaptureKind)
    (start : Nat) (tag : String) : Prop :=
  ∃ labels, captured.get? (kind.stem ++ tag) = some labels ∧
    ∃ label ∈ labels, label.start = start ∧ nodeText source label ≠ ""

/-- A capture has the least tag of its kind at its octet, and the node is the first with a text
there under the name with that tag. -/
structure IsFirst (source : List UInt8) (captured : Table String (List Label)) (c : Capture) :
    Prop where
  node : ∃ labels label, captured.get? (c.kind.stem ++ c.tag) = some labels ∧
    labels.find? (speaksAt source c.start) = some label ∧ c = ofNode source c.kind c.tag label
  least : ∀ tag, Holds source captured c.kind c.start tag → c.tag ≤ tag

theorem offer_eq_some_iff (row : String × List Label) (c : Capture) :
    offer source c.kind c.start row = some c ↔ row.1 = c.kind.stem ++ c.tag ∧
      ∃ label, row.2.find? (speaksAt source c.start) = some label ∧
        c = ofNode source c.kind c.tag label := by
  rw [← classify_eq_some_iff]
  cases hname : classify row.1 with
  | none => simp [offer, hname]
  | some named =>
    obtain ⟨kind, tag⟩ := named
    by_cases hkind : kind = c.kind
    · subst hkind
      simp only [offer, hname, if_true, Option.map_eq_some_iff, Option.some.injEq, Prod.mk.injEq,
        true_and]
      constructor
      · rintro ⟨label, hlabel, hc⟩
        have htag : tag = c.tag := congrArg Capture.tag hc
        exact ⟨htag, label, hlabel, htag ▸ hc.symm⟩
      · rintro ⟨rfl, label, hlabel, hc⟩
        exact ⟨label, hlabel, hc.symm⟩
    · simp [offer, hname, hkind]

theorem isSome_offer_iff (kind : CaptureKind) (start : Nat) (row : String × List Label) :
    (offer source kind start row).isSome ↔
      ∃ tag, row.1 = kind.stem ++ tag ∧
        ∃ label ∈ row.2, label.start = start ∧ nodeText source label ≠ "" := by
  have hspeaks : (row.2.find? (speaksAt source start)).isSome ↔
      ∃ label ∈ row.2, label.start = start ∧ nodeText source label ≠ "" := by
    simp [List.find?_isSome, speaksAt]
  simp only [← classify_eq_some_iff, ← hspeaks]
  cases hname : classify row.1 with
  | none => simp [offer, hname]
  | some named =>
    obtain ⟨k, tag⟩ := named
    by_cases hk : k = kind
    · simp [offer, hname, hk]
    · simp [offer, hname, hk]

def byName (captured : Table String (List Label)) : List (String × List Label) :=
  captured.entries.mergeSort fun a b => a.1 ≤ b.1

theorem byName_perm (captured : Table String (List Label)) :
    (byName captured).Perm captured.entries :=
  List.mergeSort_perm _ _

theorem pairwise_byName (captured : Table String (List Label)) :
    (byName captured).Pairwise fun a b => a.1 ≤ b.1 := by
  refine (List.pairwise_mergeSort (fun a b c => ?_) (fun a b => ?_) _).imp (by simp)
  · simpa using le_trans
  · simpa using le_total a.1 b.1

theorem find?_collected (captured : Table String (List Label)) (kind : CaptureKind) (start : Nat) :
    ((byName captured).foldl (addNamed source) []).find? (standsAt kind start) =
      (byName captured).findSome? (offer source kind start) := by
  rw [find?_foldl_addNamed]
  rfl

theorem mem_collect (captured : Table String (List Label)) (c : Capture) :
    c ∈ collect source captured.entries ↔ c ∈ (byName captured).foldl (addNamed source) [] :=
  List.mem_mergeSort

theorem mem_collect_iff (captured : Table String (List Label)) (c : Capture) :
    c ∈ collect source captured.entries ↔ IsFirst source captured c := by
  have hperm := byName_perm captured
  have hnames : ((byName captured).map Prod.fst).Nodup :=
    (hperm.map Prod.fst).nodup_iff.2 captured.nodup
  have hplaces : (((byName captured).foldl (addNamed source) []).map place).Nodup :=
    nodup_foldl_addNamed _ List.nodup_nil
  rw [mem_collect, mem_iff_find? hplaces, find?_collected,
    findSome?_eq_some_iff_least (pairwise_byName captured) hnames]
  simp only [hperm.mem_iff, offer_eq_some_iff, isSome_offer_iff]
  constructor
  · rintro ⟨row, hrow, ⟨hname, label, hlabel, hc⟩, hleast⟩
    refine ⟨⟨row.2, label, ?_, hlabel, hc⟩, fun tag htag => ?_⟩
    · rw [← hname]
      exact (Table.get?_eq_some_iff ..).2 hrow
    · obtain ⟨labels, hget, hspeaks⟩ := htag
      have hle := hleast (c.kind.stem ++ tag, labels) ((Table.get?_eq_some_iff ..).1 hget)
        ⟨tag, rfl, hspeaks⟩
      rwa [hname, stem_append_le_iff] at hle
  · rintro ⟨⟨labels, label, hget, hlabel, hc⟩, hleast⟩
    refine ⟨(c.kind.stem ++ c.tag, labels), (Table.get?_eq_some_iff ..).1 hget,
      ⟨rfl, label, hlabel, hc⟩, ?_⟩
    rintro other hother ⟨tag, hname, hspeaks⟩
    rw [hname, stem_append_le_iff]
    refine hleast tag ⟨other.2, ?_, hspeaks⟩
    rw [← hname]
    exact (Table.get?_eq_some_iff ..).2 hother

theorem exists_collect_iff (captured : Table String (List Label)) (kind : CaptureKind)
    (start : Nat) : (∃ c ∈ collect source captured.entries, c.kind = kind ∧ c.start = start) ↔
      ∃ tag, Holds source captured kind start tag := by
  have hstands : (∃ c ∈ collect source captured.entries, c.kind = kind ∧ c.start = start) ↔
      (((byName captured).foldl (addNamed source) []).find? (standsAt kind start)).isSome := by
    simp only [mem_collect, List.find?_isSome, standsAt_iff, and_comm]
  rw [hstands, find?_collected, List.findSome?_isSome_iff]
  simp only [(byName_perm captured).mem_iff, isSome_offer_iff, Holds, Table.get?_eq_some_iff]
  constructor
  · rintro ⟨⟨name, labels⟩, hrow, tag, rfl, hspeaks⟩
    exact ⟨tag, labels, hrow, hspeaks⟩
  · rintro ⟨tag, labels, hrow, hspeaks⟩
    exact ⟨(kind.stem ++ tag, labels), hrow, tag, rfl, hspeaks⟩

def nodeAt? (source : List UInt8) (captured : Table String (List Label)) (kind : CaptureKind)
    (start : Nat) (tag : String) : Option Label :=
  (captured.get? (kind.stem ++ tag)).bind fun labels => labels.find? (speaksAt source start)

theorem holds_iff (captured : Table String (List Label)) (kind : CaptureKind) (start : Nat)
    (tag : String) :
    Holds source captured kind start tag ↔ (nodeAt? source captured kind start tag).isSome := by
  cases hget : captured.get? (kind.stem ++ tag) with
  | none => simp [Holds, nodeAt?, hget]
  | some labels => simp [Holds, nodeAt?, hget, List.find?_isSome, speaksAt]

theorem isFirst_iff (captured : Table String (List Label)) (c : Capture) :
    IsFirst source captured c ↔
      (∃ label, nodeAt? source captured c.kind c.start c.tag = some label ∧
        c = ofNode source c.kind c.tag label) ∧
      ∀ tag, (nodeAt? source captured c.kind c.start tag).isSome → c.tag ≤ tag := by
  simp only [← holds_iff]
  simp only [nodeAt?, Option.bind_eq_some_iff]
  constructor
  · intro h
    obtain ⟨labels, label, hget, hlabel, hc⟩ := h.node
    exact ⟨⟨label, ⟨labels, hget, hlabel⟩, hc⟩, h.least⟩
  · intro h
    obtain ⟨⟨label, ⟨labels, hget, hlabel⟩, hc⟩, hleast⟩ := h
    exact ⟨⟨labels, label, hget, hlabel, hc⟩, hleast⟩

/-- The captures hang on nothing but the first node with a text of each name at each octet. -/
theorem collect_congr {s t : Table String (List Label)}
    (h : ∀ kind start tag, nodeAt? source s kind start tag = nodeAt? source t kind start tag) :
    collect source s.entries = collect source t.entries := by
  refine (pairwise_collect _ _).eq_of_mem_iff (pairwise_collect _ _) fun c => ?_
  simp only [mem_collect_iff, isFirst_iff, h]

/-- The captured nodes less the names that are for the query's own use and less the nodes without
a text. -/
def telling (source : List UInt8) (captured : Table String (List Label)) :
    Table String (List Label) where
  entries := (captured.entries.filter fun row => (classify row.1).isSome).map fun row =>
    (row.1, row.2.filter fun label => !(nodeText source label).isEmpty)
  nodup := by
    rw [List.map_map]
    exact captured.nodup.sublist (List.filter_sublist.map _)

theorem get?_telling (captured : Table String (List Label)) (kind : CaptureKind) (tag : String) :
    (telling source captured).get? (kind.stem ++ tag) =
      (captured.get? (kind.stem ++ tag)).map fun labels =>
        labels.filter fun label => !(nodeText source label).isEmpty := by
  have hname := (classify_eq_some_iff _ kind tag).2 rfl
  refine Option.ext fun labels => ?_
  simp only [Option.map_eq_some_iff, Table.get?_eq_some_iff, telling, List.mem_map,
    List.mem_filter, Prod.mk.injEq]
  constructor
  · rintro ⟨row, ⟨hrow, _⟩, hfst, hlabels⟩
    exact ⟨row.2, hfst ▸ hrow, hlabels⟩
  · rintro ⟨all, hrow, hlabels⟩
    exact ⟨(kind.stem ++ tag, all), ⟨hrow, by simp [hname]⟩, rfl, hlabels⟩

theorem nodeAt?_telling (captured : Table String (List Label)) (kind : CaptureKind) (start : Nat)
    (tag : String) : nodeAt? source (telling source captured) kind start tag =
      nodeAt? source captured kind start tag := by
  -- A node without a text speaks nowhere, so the search passes over it in any case.
  have hspeaks : ∀ label : Label, decide ((!(nodeText source label).isEmpty) = true ∧
      speaksAt source start label = true) = speaksAt source start label := by
    intro label
    rw [Bool.eq_iff_iff]
    simp [speaksAt]
  rw [nodeAt?, nodeAt?, get?_telling]
  cases captured.get? (kind.stem ++ tag) with
  | none => rfl
  | some labels => simp only [Option.map_some, Option.bind_some, List.find?_filter, hspeaks]

end Capture

open Capture

/-- Captures stand in the order of the source, definitions before references and no two of a kind at
one octet. There is one of a kind at an octet exactly if a node with a text is held there under a
name of the kind; it has the least such tag and the first such node. Other names and nodes without
a text make no difference, and neither does the order of the names. -/
theorem captures_of_mapping (source : List UInt8) (captured : Table String (List Label)) :
    (collect source captured.entries).Pairwise Precedes ∧
    (∀ kind start, (∃ c ∈ collect source captured.entries, c.kind = kind ∧ c.start = start) ↔
      ∃ tag, Holds source captured kind start tag) ∧
    (∀ c ∈ collect source captured.entries, IsFirst source captured c) ∧
    collect source (telling source captured).entries = collect source captured.entries ∧
    ∀ other : Table String (List Label), captured.entries.Perm other.entries →
      collect source other.entries = collect source captured.entries := by
  refine ⟨pairwise_collect _ _, exists_collect_iff captured, fun c => (mem_collect_iff _ c).1,
    collect_congr (nodeAt?_telling captured), fun other h => collect_congr fun kind start tag => ?_⟩
  rw [nodeAt?, nodeAt?, Table.get?_perm h]

namespace Capture.Sample

def source : List UInt8 := [102, 40, 103, 41]

def node (start stop : Nat) : Label := ⟨"identifier", none, true, start == stop, start, stop⟩

def captured : Table String (List Label) :=
  ⟨[("callee", [node 0 1]), ("name.definition.function", [node 0 0, node 0 1]),
    ("name.definition.method", [node 0 4]), ("name.reference.call", [node 0 1, node 2 3])],
    by decide⟩

def turned : Table String (List Label) := ⟨captured.entries.reverse, by decide⟩

end Capture.Sample

open Capture.Sample in
/-- The function hides the method, and neither the missing node nor the reference hides it. -/
theorem captures_of_sample : captured.entries.Perm turned.entries ∧
    collect source turned.entries =
      [⟨"f", .definition, "function", 1, 0, 0⟩, ⟨"f", .reference, "call", 1, 0, 0⟩,
        ⟨"g", .reference, "call", 1, 2, 2⟩] := by
  have hperm : captured.entries.Perm turned.entries := (List.reverse_perm _).symm
  have hnames : byName captured = captured.entries :=
    List.mergeSort_of_pairwise (by decide +kernel)
  have hkept : captured.entries.foldl (addNamed source) [] =
      [⟨"f", .definition, "function", 1, 0, 0⟩, ⟨"f", .reference, "call", 1, 0, 0⟩,
        ⟨"g", .reference, "call", 1, 2, 2⟩] := by decide +kernel
  refine ⟨hperm, ?_⟩
  rw [(captures_of_mapping source captured).2.2.2.2 turned hperm]
  change ((byName captured).foldl (addNamed source) []).mergeSort before = _
  rw [hnames, hkept]
  exact List.mergeSort_of_pairwise (by decide +kernel)

end SymbolAtlas
