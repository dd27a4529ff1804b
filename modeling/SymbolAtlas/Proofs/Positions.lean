import SymbolAtlas.Proofs.Captures
import SymbolAtlas.Proofs.Extracts

/-!
Where captures stand in the source. Lines and columns are counted by line ends before an octet, and
the lines of a file by all its line ends and an unfinished last line; the two counts meet because a
capture has a text and so begins before the end of the source.
-/

set_option autoImplicit false

namespace SymbolAtlas

/-! ## Lines and columns -/

namespace Text

/-- Octets up to some place, cut where the last line begins. -/
theorem exists_last_line (octets : List UInt8) :
    ∃ earlier line, octets = earlier ++ line ∧ newline ∉ line ∧
      line.length = (octets.reverse.takeWhile (· ≠ newline)).length ∧
      (earlier = [] ∨ earlier.getLast? = some newline) := by
  refine ⟨(octets.reverse.dropWhile (· ≠ newline)).reverse,
    (octets.reverse.takeWhile (· ≠ newline)).reverse, ?_, ?_, by simp, ?_⟩
  · rw [← List.reverse_append, List.takeWhile_append_dropWhile, List.reverse_reverse]
  · intro h
    have hne := List.mem_takeWhile_imp (List.mem_reverse.1 h)
    simp at hne
  · cases hd : octets.reverse.dropWhile (· ≠ newline) with
    | nil => exact .inl rfl
    | cons b rest =>
      have hhead := List.head?_dropWhile_not (fun b => decide (b ≠ newline)) octets.reverse
      rw [hd] at hhead
      right
      simpa using hhead

variable (octets : List UInt8)

def Unbroken (i j : Nat) : Prop := ∀ k, i ≤ k → k < j → octets[k]? ≠ some newline

/-- The column of an octet leads back to the start of the source or to a line end, with no line end
on the way. -/
theorem line_start {i : Nat} (h : i ≤ octets.length) :
    columnAt octets i ≤ i ∧
      (i - columnAt octets i = 0 ∨ octets[i - columnAt octets i - 1]? = some newline) ∧
      Unbroken octets (i - columnAt octets i) i := by
  obtain ⟨earlier, line, htake, hline, hcolumn, hearlier⟩ := exists_last_line (octets.take i)
  rw [← columnAt] at hcolumn
  have hlength : i = earlier.length + line.length := by
    have hlen := congrArg List.length htake
    rwa [List.length_take_of_le h, List.length_append] at hlen
  have hget : ∀ k, k < i → octets[k]? = (earlier ++ line)[k]? := by
    intro k hk
    rw [← htake, List.getElem?_take_of_lt hk]
  have hstart : i - columnAt octets i = earlier.length := by omega
  rw [hstart]
  refine ⟨by omega, ?_, fun k hk hki => ?_⟩
  · rcases hearlier with rfl | hlast
    · exact .inl rfl
    · have hpos : 0 < earlier.length := List.length_pos_iff.2 fun e => by simp [e] at hlast
      right
      rw [hget _ (by omega), List.getElem?_append_left (by omega), ← List.getLast?_eq_getElem?]
      exact hlast
  · rw [hget k hki, List.getElem?_append_right hk]
    exact fun hn => hline (List.mem_of_getElem? hn)

theorem lineAt_le_lineCount {i : Nat} (h : i < octets.length) :
    lineAt octets i ≤ lineCount octets := by
  have hcount : octets.count newline =
      (octets.take i).count newline + (octets.drop i).count newline := by
    rw [← List.count_append, List.take_append_drop]
  have hrest : octets.drop i ≠ [] := fun e => by simp at e; omega
  rw [lineAt, lineCount, hcount]
  by_cases hlast : octets.getLast? = some newline
  · -- The last line end comes after the octet or is the octet itself.
    have hmem : newline ∈ octets.drop i := by
      rw [← List.take_append_drop i octets, List.getLast?_append_of_ne_nil _ hrest] at hlast
      exact List.mem_of_getLast? hlast
    have hpos := List.count_pos_iff.2 hmem
    omega
  · have hne : octets ≠ [] := fun e => by simp [e] at h
    rw [if_pos ⟨hne, hlast⟩]
    omega

theorem position_mono {i j : Nat} (h : i ≤ j) :
    lineAt octets i < lineAt octets j ∨
      lineAt octets i = lineAt octets j ∧ columnAt octets i ≤ columnAt octets j := by
  have htake : octets.take j = octets.take i ++ (octets.drop i).take (j - i) := by
    rw [← List.take_add, Nat.add_sub_cancel' h]
  have hcount : lineAt octets j =
      lineAt octets i + ((octets.drop i).take (j - i)).count newline := by
    rw [lineAt, lineAt, htake, List.count_append, Nat.add_assoc]
  by_cases hmem : newline ∈ (octets.drop i).take (j - i)
  · have hpos := List.count_pos_iff.2 hmem
    exact .inl (by omega)
  · right
    refine ⟨by rw [hcount, List.count_eq_zero.2 hmem]; rfl, ?_⟩
    -- Without a line end between them, the later column goes back to the same line end.
    have hall : ∀ b ∈ ((octets.drop i).take (j - i)).reverse, decide (b ≠ newline) = true := by
      intro b hb
      exact decide_eq_true fun e => hmem (e ▸ List.mem_reverse.1 hb)
    rw [columnAt, columnAt, htake, List.reverse_append, List.takeWhile_append_of_pos hall,
      List.length_append]
    omega

end Text

/-! ## Captured nodes -/

def SyntaxTree.Within (t : SyntaxTree) (size : Nat) : Prop :=
  ∀ place ∈ t.located [], place.2.label.start ≤ place.2.label.stop ∧ place.2.label.stop ≤ size

instance SyntaxTree.decidableWithin (t : SyntaxTree) (size : Nat) : Decidable (t.Within size) :=
  inferInstanceAs (Decidable (∀ place ∈ t.located [], _))

namespace TagQuery

variable (query : TagQuery) (t : SyntaxTree)

def capturedTable : Table String (List Label) where
  entries := query.captured t
  nodup := by simpa [captured, List.map_map, Function.comp_def] using nodup_firstSeen _

theorem exists_hit_of_captured {name : String} {labels : List Label} {label : Label}
    (h : (query.capturedTable t).get? name = some labels) (hl : label ∈ labels) :
    ∃ hit ∈ query.hits t, hit.name = name ∧
      ∃ node, (hit.address, node) ∈ t.located [] ∧ node.label = label := by
  obtain ⟨_, _, hrow⟩ := List.mem_map.1 ((Table.get?_eq_some_iff ..).1 h)
  obtain ⟨rfl, rfl⟩ := Prod.mk.inj hrow
  obtain ⟨⟨address, node⟩, hplace, rfl⟩ := List.mem_map.1 hl
  obtain ⟨hlocated, haddress⟩ := List.mem_filter.1 hplace
  obtain ⟨hit, hhit, rfl⟩ := List.mem_map.1 (List.contains_iff_mem.1 haddress)
  obtain ⟨hm, hname⟩ := List.mem_filter.1 hhit
  exact ⟨hit, hm, by simpa using hname, node, hlocated, rfl⟩

theorem exists_captured_of_hit {hit : Hit} (h : hit ∈ query.hits t) {node : SyntaxTree}
    (hn : (hit.address, node) ∈ t.located []) :
    ∃ labels, (query.capturedTable t).get? hit.name = some labels ∧ node.label ∈ labels := by
  refine ⟨_, (Table.get?_eq_some_iff ..).2 (List.mem_map.2 ⟨hit.name, ?_, rfl⟩), ?_⟩
  · rw [mem_firstSeen]
    exact List.mem_map_of_mem h
  · refine List.mem_map.2 ⟨(hit.address, node), List.mem_filter.2 ⟨hn, ?_⟩, rfl⟩
    rw [List.contains_iff_mem]
    exact List.mem_map.2 ⟨hit, List.mem_filter.2 ⟨h, beq_self_eq_true _⟩, rfl⟩

end TagQuery

namespace Capture

/-- Line and column of a capture lead to its octet: the line is one of the source, and the column
goes back to the start of the source or to a line end, with no line end on the way. -/
structure Placed (source : List UInt8) (lines : Nat) (c : Capture) : Prop where
  line : 1 ≤ c.line ∧ c.line ≤ lines
  column : c.column ≤ c.start
  begins : c.start - c.column = 0 ∨ source[c.start - c.column - 1]? = some Text.newline
  unbroken : Text.Unbroken source (c.start - c.column) c.start

/-- The name of a capture is the text of the octets that a node spans, and the query captured the
node under the name of the capture's kind and tag. -/
structure Names (source : List UInt8) (query : TagQuery) (t : SyntaxTree) (c : Capture)
    (label : Label) (octets : List UInt8) : Prop where
  captured : ∃ hit ∈ query.hits t, hit.name = c.kind.stem ++ c.tag ∧
    ∃ node, (hit.address, node) ∈ t.located [] ∧ node.label = label
  spans : ∃ before after, source = before ++ octets ++ after ∧ before.length = label.start ∧
    before.length + octets.length = label.stop
  start : c.start = label.start
  name : c.name = Utf8.decodeLossy octets

theorem decodeLossy_eq_empty_iff (octets : List UInt8) :
    Utf8.decodeLossy octets = "" ↔ octets = [] := by
  cases octets with
  | nil => simp [Utf8.decodeLossy, Utf8.pieces]
  | cons b rest => simp [Utf8.decodeLossy, Utf8.pieces]

theorem nodeText_ne_empty_iff (source : List UInt8) (label : Label) :
    nodeText source label ≠ "" ↔ label.start < source.length ∧ label.start < label.stop := by
  rw [nodeText, ne_eq, decodeLossy_eq_empty_iff, List.take_eq_nil_iff, List.drop_eq_nil_iff]
  omega

theorem placed_ofNode {source : List UInt8} {label : Label} (h : nodeText source label ≠ "")
    (kind : CaptureKind) (tag : String) :
    Placed source (Text.lineCount source) (ofNode source kind tag label) := by
  have hstart := ((nodeText_ne_empty_iff source label).1 h).1
  obtain ⟨hcolumn, hbegins, hunbroken⟩ := Text.line_start source hstart.le
  exact ⟨⟨Nat.le_add_right 1 _, Text.lineAt_le_lineCount source hstart⟩, hcolumn, hbegins,
    hunbroken⟩

end Capture

namespace Parsed

open Capture

variable (p : Parsed)

theorem exists_node_of_captures {c : Capture} (hc : c ∈ p.captures) :
    ∃ label, (∃ hit ∈ p.profile.query.hits p.tree, hit.name = c.kind.stem ++ c.tag ∧
        ∃ node, (hit.address, node) ∈ p.tree.located [] ∧ node.label = label) ∧
      nodeText p.source label ≠ "" ∧ c = ofNode p.source c.kind c.tag label := by
  have hfirst := (mem_collect_iff (p.profile.query.capturedTable p.tree) c).1 hc
  obtain ⟨labels, label, hget, hlabel, hnode⟩ := hfirst.node
  have hspeaks := List.find?_some hlabel
  rw [speaksAt, Bool.and_eq_true, Bool.not_eq_true', String.isEmpty_eq_false_iff] at hspeaks
  exact ⟨label, p.profile.query.exists_hit_of_captured p.tree hget
    (List.mem_of_find?_eq_some hlabel), hspeaks.2, hnode⟩

theorem names_of_captures (hw : p.tree.Within p.source.length) {c : Capture}
    (hc : c ∈ p.captures) :
    ∃ label octets, Names p.source p.profile.query p.tree c label octets := by
  obtain ⟨label, hhit, _, hnode⟩ := p.exists_node_of_captures hc
  have hspan : label.start ≤ label.stop ∧ label.stop ≤ p.source.length := by
    obtain ⟨_, _, _, node, hplace, rfl⟩ := hhit
    exact hw _ hplace
  refine ⟨label, (p.source.drop label.start).take (label.stop - label.start), hhit, ?_,
    by rw [hnode]; rfl, by rw [hnode]; rfl⟩
  refine ⟨p.source.take label.start, (p.source.drop label.start).drop (label.stop - label.start),
    ?_, ?_, ?_⟩
  · rw [List.append_assoc, List.take_append_drop, List.take_append_drop]
  · simp only [List.length_take]
    omega
  · simp only [List.length_take, List.length_drop]
    omega

theorem exists_capture_of_hit (hw : p.tree.Within p.source.length) {hit : Hit}
    (h : hit ∈ p.profile.query.hits p.tree) {kind : CaptureKind} {tag : String}
    (hname : hit.name = kind.stem ++ tag) {node : SyntaxTree}
    (hn : (hit.address, node) ∈ p.tree.located []) (hspan : node.label.start < node.label.stop) :
    ∃ c ∈ p.captures, c.kind = kind ∧ c.start = node.label.start := by
  have hstop : node.label.stop ≤ p.source.length := (hw _ hn).2
  have htext := (nodeText_ne_empty_iff p.source node.label).2 ⟨by omega, hspan⟩
  obtain ⟨labels, hget, hlabel⟩ := p.profile.query.exists_captured_of_hit p.tree h hn
  rw [hname] at hget
  exact (exists_collect_iff (p.profile.query.capturedTable p.tree) kind node.label.start).2
    ⟨tag, labels, hget, node.label, hlabel, rfl, htext⟩

theorem pairwise_positions : p.captures.Pairwise fun a b =>
    a.line < b.line ∨ a.line = b.line ∧ a.column ≤ b.column := by
  have hposition : ∀ c ∈ p.captures,
      c.line = Text.lineAt p.source c.start ∧ c.column = Text.columnAt p.source c.start := by
    intro c hc
    obtain ⟨label, _, _, hnode⟩ := p.exists_node_of_captures hc
    rw [hnode]
    exact ⟨rfl, rfl⟩
  refine (pairwise_collect _ _).imp_of_mem fun {a b} ha hb hab => ?_
  have hle : a.start ≤ b.start := by
    rcases hab with hlt | ⟨heq, _⟩
    · exact hlt.le
    · exact heq.le
  rw [(hposition a ha).1, (hposition a ha).2, (hposition b hb).1, (hposition b hb).2]
  exact Text.position_mono p.source hle

end Parsed

open Capture

/-- Whatever source is parsed into whatever tree of it, every capture has a line of the source and a
column that leads to its octet, and its name is the text, never empty, of a captured node. Captures
stand in the order of their lines and columns, and no captured node that spans any octet goes
without one. -/
theorem captures_in_source {installed : Installation} {parser : Parser} {r : Registry}
    {path : String} {source : List UInt8} {p : Parsed}
    (hp : (parseSource installed parser r path source).outcome = .parsed p)
    (hw : p.tree.Within source.length) :
    (∀ c ∈ p.captures, Placed source p.lineCount c ∧ c.name ≠ "" ∧
      ∃ label octets, Names source p.profile.query p.tree c label octets) ∧
    (p.captures.Pairwise fun a b => a.line < b.line ∨ a.line = b.line ∧ a.column ≤ b.column) ∧
    ∀ hit ∈ p.profile.query.hits p.tree, ∀ kind tag, hit.name = CaptureKind.stem kind ++ tag →
      ∀ node, (hit.address, node) ∈ p.tree.located [] → node.label.start < node.label.stop →
        ∃ c ∈ p.captures, c.kind = kind ∧ c.start = node.label.start := by
  obtain ⟨rfl, hlines⟩ := parsed_of_parseSource hp
  refine ⟨fun c hc => ?_, p.pairwise_positions, fun hit hhit kind tag hname node hnode hspan =>
    p.exists_capture_of_hit hw hhit hname hnode hspan⟩
  obtain ⟨label, _, htext, hnode⟩ := p.exists_node_of_captures hc
  refine ⟨?_, ?_, p.names_of_captures hw hc⟩
  · rw [hlines, hnode]
    exact placed_ofNode htext c.kind c.tag
  · rw [hnode]
    exact htext

namespace Parsed.Sample

open Workspace.Sample

def source : List UInt8 := [10, 32, 102, 40, 255, 10]

def node (kind : String) (missing : Bool) (start stop : Nat) (children : List SyntaxTree) :
    SyntaxTree :=
  .node ⟨kind, none, true, missing, start, stop⟩ children

/-- The last node stands for a name that the source lacks. -/
def tree : SyntaxTree :=
  node "module" false 0 6 [node "identifier" false 2 3 [], node "call" false 4 5 [],
    node "identifier" true 6 6 []]

def workspace : Workspace :=
  { Workspace.Sample.workspace with parser := ⟨fun _ _ _ => .tree tree, fun _ => none⟩ }

def parsed : Parsed :=
  ⟨"a.py", source, ⟨pack, Grammar.permissive, query⟩, tree, tree.countNodes, 2⟩

theorem outcome_sample :
    (parseSource workspace.installed workspace.parser registry "a.py" source).outcome =
      .parsed parsed := by
  have hlanguage : registry.languageFor "a.py" = some .python := by decide +kernel
  have hanswer : registry.answer workspace.installed .python =
      .ok (some ⟨pack, Grammar.permissive, query⟩) := rfl
  rw [(Extraction.parseSource_eq workspace registry hlanguage source).2, hanswer]
  rfl

theorem captures_sample : parsed.captures =
    [⟨"f", .definition, "function", 2, 1, 2⟩, ⟨"\ufffd", .reference, "call", 2, 3, 4⟩] := by
  have hcaptured : query.captured tree =
      [("name.definition.function", [⟨"identifier", none, true, false, 2, 3⟩,
        ⟨"identifier", none, true, true, 6, 6⟩]),
        ("name.reference.call", [⟨"call", none, true, false, 4, 5⟩])] := by decide +kernel
  have hnames : (query.captured tree).mergeSort (fun a b => a.1 ≤ b.1) = query.captured tree := by
    rw [hcaptured]
    exact List.mergeSort_of_pairwise (by decide +kernel)
  have hkept : (query.captured tree).foldl (addNamed source) [] =
      [⟨"f", .definition, "function", 2, 1, 2⟩,
        ⟨"\ufffd", .reference, "call", 2, 3, 4⟩] := by
    rw [hcaptured]
    decide +kernel
  change (((query.captured tree).mergeSort fun a b => a.1 ≤ b.1).foldl (addNamed source)
    []).mergeSort before = _
  rw [hnames, hkept]
  exact List.mergeSort_of_pairwise (by decide +kernel)

end Parsed.Sample

open Parsed.Sample in
/-- Both captures stand on the second line, which is the last one; the missing name would stand on a
line after it. -/
theorem captures_in_sample :
    (parseSource workspace.installed workspace.parser Workspace.Sample.registry "a.py"
      source).outcome = .parsed parsed ∧
    parsed.tree.Within source.length ∧ Text.lineAt source 6 = 3 ∧
    Placed source 2 ⟨"\ufffd", .reference, "call", 2, 3, 4⟩ ∧
    (∃ label octets, Names source Workspace.Sample.query tree
      ⟨"f", .definition, "function", 2, 1, 2⟩ label octets) ∧
    parsed.captures.Pairwise fun a b =>
      a.line < b.line ∨ a.line = b.line ∧ a.column ≤ b.column := by
  have hw : parsed.tree.Within source.length := by decide +kernel
  obtain ⟨hplaced, hordered, _⟩ := captures_in_source outcome_sample hw
  refine ⟨outcome_sample, hw, by decide, (hplaced _ ?_).1, (hplaced _ ?_).2.2, hordered⟩
  · simp [captures_sample]
  · simp [captures_sample]

end SymbolAtlas
