import Mathlib.Data.List.Infix
import SymbolAtlas.Capture
import SymbolAtlas.Language.Packs

/-!
Definitions and references are told apart by where a node stands. Every capture of a pattern has a
spine, the kinds from the top of the pattern down to the captured node, and wherever the pattern
matches, the spine ends the line of kinds that leads to the node. Two spines of which neither ends
the other never meet at a node, and for the shipped packs no spine of a definition ends one of a
reference or the other way round.
-/

set_option autoImplicit false

namespace SymbolAtlas

namespace SyntaxTree

/-! ## Addresses -/

def at? : SyntaxTree → List Nat → Option SyntaxTree
  | t, [] => some t
  | .node _ cs, i :: rest => cs[i]?.bind fun c => c.at? rest

mutual

theorem mem_located (base address : List Nat) (s : SyntaxTree) : (t : SyntaxTree) →
    ((address, s) ∈ t.located base ↔ ∃ below, address = base ++ below ∧ t.at? below = some s)
  | .node l cs => by
    rw [located, List.mem_cons, mem_locatedBelow base address s 0 cs]
    constructor
    · rintro (hroot | ⟨j, c, below, hc, rfl, hs⟩)
      · cases hroot
        exact ⟨[], by simp, rfl⟩
      · exact ⟨j :: below, by simp, by simp [at?, hc, hs]⟩
    · rintro ⟨below, rfl, hs⟩
      cases below with
      | nil =>
        cases hs
        exact .inl (by simp)
      | cons j rest =>
        obtain ⟨c, hc, hs⟩ := Option.bind_eq_some_iff.1 hs
        exact .inr ⟨j, c, rest, hc, by simp, hs⟩

theorem mem_locatedBelow (base address : List Nat) (s : SyntaxTree) (i : Nat) :
    (ts : List SyntaxTree) → ((address, s) ∈ locatedBelow base i ts ↔
      ∃ j c below, ts[j]? = some c ∧ address = base ++ (i + j) :: below ∧ c.at? below = some s)
  | [] => by simp [locatedBelow]
  | t :: ts => by
    have hnext : ∀ j, i + 1 + j = i + (j + 1) := fun j => by omega
    rw [locatedBelow, List.mem_append, mem_located _ address s t,
      mem_locatedBelow base address s (i + 1) ts]
    simp only [hnext]
    constructor
    · rintro (⟨below, rfl, hs⟩ | ⟨j, c, below, hc, rfl, hs⟩)
      · exact ⟨0, t, below, rfl, by simp, hs⟩
      · exact ⟨j + 1, c, below, hc, rfl, hs⟩
    · rintro ⟨j, c, below, hc, rfl, hs⟩
      cases j with
      | zero =>
        cases hc
        exact .inl ⟨below, by simp, hs⟩
      | succ j => exact .inr ⟨j, c, below, hc, rfl, hs⟩

end

def lineage : SyntaxTree → List Nat → List String
  | t, [] => [t.label.kind]
  | .node l cs, i :: rest => l.kind :: (cs[i]?.elim [] fun c => c.lineage rest)

theorem lineage_suffix {t s : SyntaxTree} {address : List Nat} (h : t.at? address = some s)
    (below : List Nat) : s.lineage below <:+ t.lineage (address ++ below) := by
  induction address generalizing t with
  | nil =>
    cases t
    cases h
    exact List.suffix_refl _
  | cons i rest ih =>
    obtain ⟨l, cs⟩ := t
    obtain ⟨c, hc, hs⟩ := Option.bind_eq_some_iff.1 h
    rw [List.cons_append, lineage, hc]
    exact (ih hs).trans (List.suffix_cons _ _)

end SyntaxTree

/-! ## Matches -/

namespace Pattern

mutual

/-- A pattern matches a named node of its kind if its parts match inside. The node is captured under
the pattern's own names. -/
inductive Matches : List Nat → Pattern → SyntaxTree → List Hit → Prop
  | node {address : List Nat} {kind : String} {parts : List (Option String × Pattern)}
      {captures : List String} {label : Label} {children : List SyntaxTree} {inner : List Hit}
      (named : label.named = true) (kind_eq : label.kind = kind)
      (inside : PartsMatch address 0 parts children inner) :
      Matches address (.node kind parts captures) (.node label children)
        (ownHits captures address label ++ inner)

/-- Parts match distinct children in order, not before a position. A part with a field asks for a
child in that field. -/
inductive PartsMatch : List Nat → Nat → List (Option String × Pattern) → List SyntaxTree →
    List Hit → Prop
  | nil {address : List Nat} {i : Nat} {children : List SyntaxTree} :
      PartsMatch address i [] children []
  | cons {address : List Nat} {i j : Nat} {field : Option String} {p : Pattern}
      {parts : List (Option String × Pattern)} {children : List SyntaxTree} {child : SyntaxTree}
      {first others : List Hit} (later : i ≤ j) (child_eq : children[j]? = some child)
      (field_eq : ∀ name, field = some name → child.label.field = some name)
      (first_match : Matches (address ++ [j]) p child first)
      (rest : PartsMatch address (j + 1) parts children others) :
      PartsMatch address i ((field, p) :: parts) children (first ++ others)

end

theorem fits_iff (field : Option String) (child : SyntaxTree) :
    fits field child = true ↔ ∀ name, field = some name → child.label.field = some name := by
  cases field with
  | none => simp [fits]
  | some name => simp [fits]

theorem partsMatch_cons_iff {address : List Nat} {i : Nat} {field : Option String} {p : Pattern}
    {parts : List (Option String × Pattern)} {children : List SyntaxTree} {child : SyntaxTree}
    (hchild : children[i]? = some child) (found : List Hit) :
    PartsMatch address i ((field, p) :: parts) children found ↔
      (fits field child = true ∧ ∃ first others, Matches (address ++ [i]) p child first ∧
        PartsMatch address (i + 1) parts children others ∧ found = first ++ others) ∨
      PartsMatch address (i + 1) ((field, p) :: parts) children found := by
  constructor
  · intro h
    cases h with
    | @cons _ _ j _ _ _ _ child' first others later child_eq field_eq first_match rest =>
      -- The first part takes the child at the position itself, or a later one.
      rcases Nat.eq_or_lt_of_le later with rfl | hlt
      · cases hchild.symm.trans child_eq
        exact .inl ⟨(fits_iff field child).2 field_eq, first, others, first_match, rest, rfl⟩
      · exact .inr (.cons hlt child_eq field_eq first_match rest)
  · rintro (⟨hfits, first, others, hfirst, hothers, rfl⟩ | h)
    · exact .cons (Nat.le_refl i) hchild ((fits_iff field child).1 hfits) hfirst hothers
    · cases h with
      | cons later child_eq field_eq first_match rest =>
        exact .cons (Nat.le_of_succ_le later) child_eq field_eq first_match rest

mutual

theorem mem_hits_iff : (t : SyntaxTree) → ∀ (p : Pattern) (address : List Nat) (found : List Hit),
    found ∈ p.hits address t ↔ p.Matches address t found
  | .node label children, .node kind parts captures, address, found => by
    have hinside := mem_partHits_iff children parts address 0 children
    rw [hits]
    constructor
    · intro h
      split at h
      · next hnode =>
        rw [Bool.and_eq_true, beq_iff_eq] at hnode
        obtain ⟨inner, hinner, rfl⟩ := List.mem_map.1 h
        exact .node hnode.1 hnode.2 ((hinside inner rfl).1 hinner)
      · simp at h
    · intro h
      cases h with
      | @node _ _ _ _ _ _ inner named kind_eq inside =>
        rw [if_pos (by simp [named, kind_eq])]
        exact List.mem_map.2 ⟨inner, (hinside inner rfl).2 inside, rfl⟩

-- The finder drops the children before a position, so its rest is compared with all of them.
theorem mem_partHits_iff : (rest : List SyntaxTree) →
    ∀ (parts : List (Option String × Pattern)) (address : List Nat) (i : Nat)
      (children : List SyntaxTree) (found : List Hit), children.drop i = rest →
      (found ∈ partHits address i parts rest ↔ PartsMatch address i parts children found)
  | rest, [], address, i, children, found, _ => by
    rw [partHits, List.mem_singleton]
    constructor
    · rintro rfl
      exact .nil
    · intro h
      cases h
      rfl
  | [], (field, p) :: parts, address, i, children, found, hrest => by
    rw [partHits]
    constructor
    · simp
    · intro h
      cases h with
      | cons later child_eq field_eq first_match rest =>
        have hlength := List.drop_eq_nil_iff.1 hrest
        have hlt := (List.getElem?_eq_some_iff.1 child_eq).1
        omega
  | child :: rest, (field, p) :: parts, address, i, children, found, hrest => by
    have hchild : children[i]? = some child := by
      rw [← List.head?_drop, hrest, List.head?_cons]
    have hnext : children.drop (i + 1) = rest := by
      rw [← List.tail_drop, hrest, List.tail_cons]
    have hfirst := mem_hits_iff child p (address ++ [i])
    have hothers := mem_partHits_iff rest parts address (i + 1) children
    have hlater := mem_partHits_iff rest ((field, p) :: parts) address (i + 1) children found hnext
    rw [partsMatch_cons_iff hchild, partHits, List.mem_append, hlater]
    refine or_congr_left ?_
    by_cases hfits : fits field child = true
    · simp only [hfits, if_true, true_and, List.mem_flatMap, List.mem_map]
      constructor
      · rintro ⟨first, hf, others, ho, rfl⟩
        exact ⟨first, others, (hfirst first).1 hf, (hothers others hnext).1 ho, rfl⟩
      · rintro ⟨first, others, hf, ho, rfl⟩
        exact ⟨first, (hfirst first).2 hf, others, (hothers others hnext).2 ho, rfl⟩
    · simp [hfits]

end

/-! ## Spines -/

mutual

/-- The names a pattern captures under, each with the kinds from the top of the pattern down to the
node captured. -/
def spines : Pattern → List (String × List String)
  | .node kind parts captures =>
    (captures.map fun name => (name, [kind])) ++
      (partSpines parts).map fun spine => (spine.1, kind :: spine.2)

def partSpines : List (Option String × Pattern) → List (String × List String)
  | [] => []
  | (_, p) :: parts => p.spines ++ partSpines parts

end

mutual

/-- What a match captures lies at the end of one of the pattern's spines. -/
theorem Matches.mem_spines {address : List Nat} {p : Pattern} {t : SyntaxTree} {found : List Hit} :
    p.Matches address t found → ∀ hit ∈ found,
      ∃ below, hit.address = address ++ below ∧ (hit.name, t.lineage below) ∈ p.spines
  | @Matches.node _ kind parts captures label children inner _ kind_eq inside => by
    intro hit hhit
    rw [spines]
    rcases List.mem_append.1 hhit with hown | hinner
    · obtain ⟨name, hname, rfl⟩ := List.mem_map.1 hown
      refine ⟨[], (List.append_nil _).symm, List.mem_append_left _ ?_⟩
      exact List.mem_map.2 ⟨name, hname, by simp [SyntaxTree.lineage, SyntaxTree.label, kind_eq]⟩
    · obtain ⟨j, child, below, hchild, haddress, hspine⟩ := inside.mem_spines hit hinner
      refine ⟨j :: below, haddress, List.mem_append_right _ ?_⟩
      exact List.mem_map.2 ⟨_, hspine, by simp [SyntaxTree.lineage, hchild, kind_eq]⟩

theorem PartsMatch.mem_spines {address : List Nat} {i : Nat}
    {parts : List (Option String × Pattern)} {children : List SyntaxTree} {found : List Hit} :
    PartsMatch address i parts children found → ∀ hit ∈ found, ∃ j child below,
      children[j]? = some child ∧ hit.address = address ++ j :: below ∧
        (hit.name, child.lineage below) ∈ partSpines parts
  | .nil => by simp
  | @PartsMatch.cons _ _ j _ _ _ _ child _ _ _ child_eq _ first_match rest => by
    intro hit hhit
    rw [partSpines]
    rcases List.mem_append.1 hhit with hfirst | hothers
    · obtain ⟨below, haddress, hspine⟩ := first_match.mem_spines hit hfirst
      exact ⟨j, child, below, child_eq, by simpa using haddress, List.mem_append_left _ hspine⟩
    · obtain ⟨k, other, below, hother, haddress, hspine⟩ := rest.mem_spines hit hothers
      exact ⟨k, other, below, hother, haddress, List.mem_append_right _ hspine⟩

end

end Pattern

def roleOf? (name : String) : Option CaptureKind := (Capture.classify name).map Prod.fst

namespace TagQuery

def Captures (query : TagQuery) (t : SyntaxTree) (hit : Hit) : Prop :=
  ∃ p ∈ query, ∃ address subtree found,
    t.at? address = some subtree ∧ p.Matches address subtree found ∧ hit ∈ found

theorem mem_hits_iff_captures (query : TagQuery) (t : SyntaxTree) (hit : Hit) :
    hit ∈ query.hits t ↔ query.Captures t hit := by
  simp only [hits, List.mem_flatMap, List.mem_flatten, Prod.exists, SyntaxTree.mem_located,
    Pattern.mem_hits_iff, List.nil_append, Captures]
  constructor
  · rintro ⟨address, subtree, ⟨_, rfl, hs⟩, p, hp, found, hfound, hhit⟩
    exact ⟨p, hp, address, subtree, found, hs, hfound, hhit⟩
  · rintro ⟨p, hp, address, subtree, found, hs, hfound, hhit⟩
    exact ⟨address, subtree, ⟨address, rfl, hs⟩, p, hp, found, hfound, hhit⟩

def spines (query : TagQuery) : List (String × List String) := query.flatMap Pattern.spines

theorem Captures.exists_spine {query : TagQuery} {t : SyntaxTree} {hit : Hit}
    (h : query.Captures t hit) :
    ∃ spine, (hit.name, spine) ∈ query.spines ∧ spine <:+ t.lineage hit.address := by
  obtain ⟨p, hp, address, subtree, found, hs, hfound, hhit⟩ := h
  obtain ⟨below, haddress, hspine⟩ := hfound.mem_spines hit hhit
  refine ⟨subtree.lineage below, List.mem_flatMap.2 ⟨p, hp, hspine⟩, ?_⟩
  rw [haddress]
  exact SyntaxTree.lineage_suffix hs below

def spinesOf (query : TagQuery) (kind : CaptureKind) : List (List String) :=
  (query.spines.filter fun spine => roleOf? spine.1 = some kind).map Prod.snd

theorem mem_spinesOf {query : TagQuery} {name : String} {spine : List String} {kind : CaptureKind}
    (h : (name, spine) ∈ query.spines) (hrole : roleOf? name = some kind) :
    spine ∈ query.spinesOf kind :=
  List.mem_map.2 ⟨(name, spine), List.mem_filter.2 ⟨h, by simpa using hrole⟩, rfl⟩

/-- No spine of a definition ends one of a reference, and the other way round. -/
def Apart (query : TagQuery) : Prop :=
  ∀ d ∈ query.spinesOf .definition, ∀ r ∈ query.spinesOf .reference, ¬ d <:+ r ∧ ¬ r <:+ d

instance decidableApart (query : TagQuery) : Decidable query.Apart :=
  inferInstanceAs (Decidable (∀ d ∈ query.spinesOf .definition, _))

/-- Both spines at one node end the way to it, so one of them ends the other. -/
theorem Apart.address_ne {query : TagQuery} (h : query.Apart) {t : SyntaxTree} {d r : Hit}
    (hd : query.Captures t d) (hr : query.Captures t r)
    (hdef : roleOf? d.name = some .definition)
    (href : roleOf? r.name = some .reference) : d.address ≠ r.address := by
  intro haddress
  obtain ⟨dspine, hdspine, hdends⟩ := hd.exists_spine
  obtain ⟨rspine, hrspine, hrends⟩ := hr.exists_spine
  rw [haddress] at hdends
  have hapart := h dspine (mem_spinesOf hdspine hdef) rspine (mem_spinesOf hrspine href)
  rcases List.suffix_or_suffix_of_suffix hdends hrends with hsuffix | hsuffix
  · exact hapart.1 hsuffix
  · exact hapart.2 hsuffix

end TagQuery

theorem Packs.apart_of_mem {pack : Pack} (h : pack ∈ Packs.shipped) :
    ∃ query : TagQuery, pack.tags = .patterns query ∧ query.Apart := by
  have hapart : ∀ query ∈ [typescriptTags, javascriptTags, pythonTags, javaTags, csharpTags,
      cppTags, rustTags, rubyTags, goTags], query.Apart := by decide +kernel
  simp only [shipped, List.mem_cons, List.not_mem_nil, or_false] at h
  rcases h with rfl | rfl | rfl | rfl | rfl | rfl | rfl | rfl | rfl | rfl <;>
    exact ⟨_, rfl, hapart _ (by simp)⟩

/-- Every language has a shipped pack. In whatever tree, the query of a shipped pack captures what
its patterns match, and no node both as a definition and as a reference. -/
theorem roles_never_meet : Packs.shipped.map Pack.language = Language.all ∧
    ∀ pack ∈ Packs.shipped, ∃ query : TagQuery, pack.tags = .patterns query ∧
      ∀ t : SyntaxTree, (∀ hit, hit ∈ query.hits t ↔ query.Captures t hit) ∧
        ∀ d ∈ query.hits t, ∀ r ∈ query.hits t, roleOf? d.name = some .definition →
          roleOf? r.name = some .reference → d.address ≠ r.address := by
  refine ⟨rfl, fun pack hpack => ?_⟩
  obtain ⟨query, htags, hapart⟩ := Packs.apart_of_mem hpack
  refine ⟨query, htags, fun t => ⟨query.mem_hits_iff_captures t, fun d hd r hr => ?_⟩⟩
  rw [TagQuery.mem_hits_iff_captures] at hd hr
  exact hapart.address_ne hd hr

namespace TagQuery.Sample

def node (kind : String) (field : Option String) (children : List SyntaxTree) : SyntaxTree :=
  .node ⟨kind, field, true, false, 0, 1⟩ children

def qualified (field : String) : SyntaxTree :=
  node "qualified_identifier" (some field)
    [node "namespace_identifier" (some "scope") [], node "identifier" (some "name") []]

def tree : SyntaxTree :=
  node "translation_unit" none
    [node "function_definition" none
      [node "function_declarator" (some "declarator") [qualified "declarator"],
        node "ERROR" (some "body") [node "call_expression" none [qualified "function"]]]]

def defined : Hit :=
  ⟨"name.definition.method", [0, 0, 0, 1], ⟨"identifier", some "name", true, false, 0, 1⟩⟩

def called : Hit :=
  ⟨"name.reference.call", [0, 1, 0, 0, 1], ⟨"identifier", some "name", true, false, 0, 1⟩⟩

end TagQuery.Sample

open TagQuery.Sample in
/-- Both names have a parent of one kind, and only what stands above it tells them apart. -/
theorem roles_of_sample : Packs.cppTags.hits tree = [defined, called] ∧
    roleOf? defined.name = some .definition ∧ roleOf? called.name = some .reference ∧
    defined.address ≠ called.address := by
  have hhits : Packs.cppTags.hits tree = [defined, called] := by decide +kernel
  have hdef : roleOf? defined.name = some .definition := by decide +kernel
  have href : roleOf? called.name = some .reference := by decide +kernel
  obtain ⟨query, htags, hroles⟩ := roles_never_meet.2
    ⟨.cpp, "tree-sitter-cpp", "tree_sitter_cpp", none, [".cpp", ".hpp"], .patterns Packs.cppTags⟩
    (by simp [Packs.shipped])
  cases htags
  exact ⟨hhits, hdef, href, (hroles tree).2 defined (by simp [hhits]) called (by simp [hhits])
    hdef href⟩

end SymbolAtlas
