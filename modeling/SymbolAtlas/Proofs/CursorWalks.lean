import Mathlib.Data.List.Forall2
import SymbolAtlas.Proofs.Roles
import SymbolAtlas.SyntaxTree.Cursor

/-!
Counting the nodes of a tree by moving a cursor through it. The loop keeps no stack: it enters a
node, goes down where it can, and otherwise leaves, sideways where it can and else upwards. Every
node is entered once and left once, so the walk ends after two steps for each node, whatever the
shape of the tree.
-/

set_option autoImplicit false

namespace SymbolAtlas

namespace SyntaxTree

mutual

def faults : SyntaxTree → Nat
  | .node l cs => (if l.isFault then 1 else 0) + forestFaults cs

def forestFaults : List SyntaxTree → Nat
  | [] => 0
  | t :: ts => t.faults + forestFaults ts

end

theorem at?_append (a b : List Nat) (t : SyntaxTree) :
    t.at? (a ++ b) = (t.at? a).bind fun u => u.at? b := by
  induction a generalizing t with
  | nil => cases t; rfl
  | cons i rest ih =>
    obtain ⟨l, cs⟩ := t
    cases hc : cs[i]? with
    | none => simp [at?, hc]
    | some c => simp [at?, hc, ih]

theorem at?_child {t : SyntaxTree} {a : List Nat} {l : Label} {cs : List SyntaxTree}
    (h : t.at? a = some (.node l cs)) (i : Nat) : t.at? (a ++ [i]) = cs[i]? := by
  rw [at?_append, h]
  cases hc : cs[i]? with
  | none => simp [at?, hc]
  | some c => simp [at?, hc]

theorem of_drop_eq_cons {cs rest : List SyntaxTree} {i : Nat} {u : SyntaxTree}
    (h : cs.drop i = u :: rest) : cs[i]? = some u ∧ cs.drop (i + 1) = rest := by
  constructor
  · rw [← List.head?_drop, h, List.head?_cons]
  · rw [← List.tail_drop, h, List.tail_cons]

/-! ## Addresses next to each other -/

def childOf? (t : SyntaxTree) (a : List Nat) : Option (List Nat) :=
  if (t.at? (a ++ [0])).isSome then some (a ++ [0]) else none

def siblingOf? (t : SyntaxTree) (a : List Nat) : Option (List Nat) :=
  match a.getLast? with
  | none => none
  | some i => if (t.at? (a.dropLast ++ [i + 1])).isSome then some (a.dropLast ++ [i + 1]) else none

def parentOf? (a : List Nat) : Option (List Nat) := if a = [] then none else some a.dropLast

variable {t : SyntaxTree} {a : List Nat} {l : Label} {cs : List SyntaxTree}

theorem childOf?_node (h : t.at? a = some (.node l cs)) :
    t.childOf? a = if cs = [] then none else some (a ++ [0]) := by
  rw [childOf?, at?_child h]
  cases cs <;> simp

theorem siblingOf?_concat (h : t.at? a = some (.node l cs)) (i : Nat) :
    t.siblingOf? (a ++ [i]) = if cs.drop (i + 1) = [] then none else some (a ++ [i + 1]) := by
  rw [siblingOf?, List.getLast?_concat]
  simp only [List.dropLast_concat, at?_child h]
  by_cases hi : i + 1 < cs.length
  · simp [hi]
  · simp [hi]

theorem parentOf?_concat (i : Nat) : parentOf? (a ++ [i]) = some a := by
  simp [parentOf?]

end SyntaxTree

def NodeCount.plus (n : NodeCount) (total faults : Nat) : NodeCount :=
  ⟨n.total + total, n.faults + faults⟩

theorem NodeCount.plus_plus (n : NodeCount) (i j k m : Nat) :
    (n.plus i j).plus k m = n.plus (i + k) (j + m) := by
  simp [plus, Nat.add_assoc]

theorem NodeCount.add_eq_plus (n : NodeCount) (l : Label) :
    n.add l = n.plus 1 (if l.isFault then 1 else 0) := by
  cases hl : l.isFault <;> simp [add, plus, hl]

/-! ## The loop -/

/-- A cursor: where it starts, the node it stands on, and its moves. A move says whether it was
made. -/
structure TreeCursor (σ : Type) where
  start : σ
  label : σ → Label
  firstChild : σ → Bool × σ
  nextSibling : σ → Bool × σ
  parent : σ → Bool × σ

/-- Where the loop is: before the node it counts next, behind a node with all that is below it, or
at its end. -/
inductive TreeWalk (σ : Type)
  | entering (s : σ) (n : NodeCount)
  | leaving (s : σ) (n : NodeCount)
  | finished (n : NodeCount)

namespace TreeCursor

variable {σ : Type} (cursor : TreeCursor σ)

def step : TreeWalk σ → TreeWalk σ
  | .entering s n =>
    match cursor.firstChild s with
    | (true, s') => .entering s' (n.add (cursor.label s))
    | (false, s') => .leaving s' (n.add (cursor.label s))
  | .leaving s n =>
    match cursor.nextSibling s with
    | (true, s') => .entering s' n
    | (false, s') =>
      match cursor.parent s' with
      | (true, s'') => .leaving s'' n
      | (false, _) => .finished n
  | .finished n => .finished n

def entered : TreeWalk σ → List σ
  | .entering s _ => [s]
  | .leaving _ _ => []
  | .finished _ => []

def run : Nat → TreeWalk σ → List σ × TreeWalk σ
  | 0, w => ([], w)
  | k + 1, w => (entered w ++ (run k (cursor.step w)).1, (run k (cursor.step w)).2)

theorem run_add (j k : Nat) (w : TreeWalk σ) :
    cursor.run (j + k) w =
      ((cursor.run j w).1 ++ (cursor.run k (cursor.run j w).2).1,
        (cursor.run k (cursor.run j w).2).2) := by
  induction j generalizing w with
  | zero => simp [run]
  | succ j ih => simp [Nat.succ_add, run, ih]

theorem run_finished (k : Nat) (n : NodeCount) :
    (cursor.run k (.finished n)).2 = .finished n := by
  induction k with
  | zero => rfl
  | succ k ih => exact ih

/-- What a move does: it leads to an address, or it is not made and the cursor stays as it is. -/
def Goes (stands : σ → List Nat → Prop) (s : σ) (move : Bool × σ) : Option (List Nat) → Prop
  | some a => ∃ s', move = (true, s') ∧ stands s' a
  | none => move = (false, s)

/-- A cursor whose positions stand for addresses in a tree and whose moves stay inside it. -/
structure Follows (t : SyntaxTree) (stands : σ → List Nat → Prop) : Prop where
  start : stands cursor.start []
  label : ∀ s a u, stands s a → t.at? a = some u → cursor.label s = u.label
  child : ∀ s a, stands s a → Goes stands s (cursor.firstChild s) (t.childOf? a)
  sibling : ∀ s a, stands s a → Goes stands s (cursor.nextSibling s) (t.siblingOf? a)
  parent : ∀ s a, stands s a → Goes stands s (cursor.parent s) (SyntaxTree.parentOf? a)

def Visits (stands : σ → List Nat → Prop) : List σ → List (List Nat × SyntaxTree) → Prop :=
  List.Forall₂ fun s place => stands s place.1

/-- Within so many steps the nodes at some places are counted, and the walk is about to leave the
node at an address. -/
def Crosses (stands : σ → List Nat → Prop) (k : Nat) (w : TreeWalk σ)
    (places : List (List Nat × SyntaxTree)) (a : List Nat) (n : NodeCount) : Prop :=
  ∃ seen s, cursor.run k w = (seen, .leaving s n) ∧ stands s a ∧ Visits stands seen places

namespace Follows

variable {cursor} {t : SyntaxTree} {stands : σ → List Nat → Prop} (h : cursor.Follows t stands)

include h

variable {s : σ} {a : List Nat} {l : Label} {cs : List SyntaxTree}

theorem step_entering (hs : stands s a) (ha : t.at? a = some (.node l cs)) (n : NodeCount) :
    (cs = [] ∧ cursor.step (.entering s n) = .leaving s (n.add l)) ∨
      (cs ≠ [] ∧ ∃ s', stands s' (a ++ [0]) ∧
        cursor.step (.entering s n) = .entering s' (n.add l)) := by
  have hlabel := h.label s a _ hs ha
  have hmove := h.child s a hs
  rw [SyntaxTree.childOf?_node ha] at hmove
  by_cases hcs : cs = []
  · rw [if_pos hcs] at hmove
    have hmove' : cursor.firstChild s = (false, s) := hmove
    exact .inl ⟨hcs, by simp only [step, hmove', hlabel]; rfl⟩
  · rw [if_neg hcs] at hmove
    obtain ⟨s', hmove, hs'⟩ := hmove
    exact .inr ⟨hcs, s', hs', by simp only [step, hmove, hlabel]; rfl⟩

theorem step_leaving {i : Nat} (hs : stands s (a ++ [i])) (ha : t.at? a = some (.node l cs))
    (n : NodeCount) :
    (cs.drop (i + 1) = [] ∧ ∃ s', stands s' a ∧ cursor.step (.leaving s n) = .leaving s' n) ∨
      (cs.drop (i + 1) ≠ [] ∧ ∃ s', stands s' (a ++ [i + 1]) ∧
        cursor.step (.leaving s n) = .entering s' n) := by
  have hside := h.sibling s _ hs
  rw [SyntaxTree.siblingOf?_concat ha] at hside
  by_cases hlast : cs.drop (i + 1) = []
  · rw [if_pos hlast] at hside
    have hup := h.parent s _ hs
    rw [SyntaxTree.parentOf?_concat] at hup
    obtain ⟨s', hup, hs'⟩ := hup
    have hside' : cursor.nextSibling s = (false, s) := hside
    exact .inl ⟨hlast, s', hs', by simp only [step, hside', hup]⟩
  · rw [if_neg hlast] at hside
    obtain ⟨s', hside, hs'⟩ := hside
    exact .inr ⟨hlast, s', hs', by simp only [step, hside]⟩

theorem step_leaving_root (hs : stands s []) (n : NodeCount) :
    cursor.step (.leaving s n) = .finished n := by
  have hside : cursor.nextSibling s = (false, s) := h.sibling s _ hs
  have hup : cursor.parent s = (false, s) := h.parent s _ hs
  simp only [step, hside, hup]

omit h

mutual

/-- From entering a node to leaving it there are two steps for every node, less the one that
leaves. -/
theorem crosses_tree (h : cursor.Follows t stands) : (u : SyntaxTree) → ∀ (a : List Nat) (s : σ),
    t.at? a = some u → stands s a → ∀ (n : NodeCount) (k : Nat), k + 1 = 2 * u.size →
    cursor.Crosses stands k (.entering s n) (u.located a) a (n.plus u.size u.faults)
  | .node l cs => by
    intro a s ha hs n k hk
    rw [SyntaxTree.size] at hk ⊢
    rw [SyntaxTree.located, SyntaxTree.faults, ← NodeCount.plus_plus, ← NodeCount.add_eq_plus]
    rcases h.step_entering hs ha n with ⟨hcs, hstep⟩ | ⟨hcs, s', hs', hstep⟩
    · subst hcs
      obtain rfl : k = 1 := by
        simp only [SyntaxTree.forestSize] at hk
        omega
      refine ⟨[s], s, ?_, hs, .cons hs .nil⟩
      simp only [run, hstep]
      rfl
    · obtain ⟨seen, s'', hrun, hs'', hvisits⟩ :=
        crosses_forest h cs hcs a l cs 0 s' ha rfl hs' (n.add l)
      obtain rfl : k = 2 * SyntaxTree.forestSize cs + 1 := by omega
      refine ⟨s :: seen, s'', ?_, hs'', .cons hs hvisits⟩
      simp only [run, hstep, hrun]
      rfl

/-- From entering the first of some siblings to leaving their parent there are two steps for every
node. -/
theorem crosses_forest (h : cursor.Follows t stands) : (ts : List SyntaxTree) → ts ≠ [] →
    ∀ (a : List Nat) (l : Label) (cs : List SyntaxTree) (i : Nat) (s : σ),
    t.at? a = some (.node l cs) → cs.drop i = ts → stands s (a ++ [i]) → ∀ (n : NodeCount),
    cursor.Crosses stands (2 * SyntaxTree.forestSize ts) (.entering s n)
      (SyntaxTree.locatedBelow a i ts) a
      (n.plus (SyntaxTree.forestSize ts) (SyntaxTree.forestFaults ts))
  | [], hne => absurd rfl hne
  | u :: rest, _ => by
    intro a l cs i s ha hdrop hs n
    obtain ⟨hchild, hrest⟩ := SyntaxTree.of_drop_eq_cons hdrop
    have hu : t.at? (a ++ [i]) = some u := (SyntaxTree.at?_child ha i).trans hchild
    have hpos := u.size_pos
    obtain ⟨k, hk⟩ : ∃ k, k + 1 = 2 * u.size := ⟨2 * u.size - 1, by omega⟩
    obtain ⟨seen, s', hrun, hs', hvisits⟩ := crosses_tree h u (a ++ [i]) s hu hs n k hk
    rw [SyntaxTree.forestSize, SyntaxTree.forestFaults, SyntaxTree.locatedBelow,
      ← NodeCount.plus_plus]
    rw [show 2 * (u.size + SyntaxTree.forestSize rest) =
      k + (1 + 2 * SyntaxTree.forestSize rest) by omega]
    rcases h.step_leaving hs' ha (n.plus u.size u.faults) with
      ⟨hlast, s'', hs'', hstep⟩ | ⟨hlast, s'', hs'', hstep⟩
    · rw [hrest] at hlast
      subst hlast
      refine ⟨seen, s'', ?_, hs'', by simpa [SyntaxTree.locatedBelow] using hvisits⟩
      simp only [run_add, hrun, run, hstep, SyntaxTree.forestSize]
      simp [entered, SyntaxTree.forestFaults, NodeCount.plus]
    · rw [hrest] at hlast
      obtain ⟨more, s₃, hrun', hs₃, hvisits'⟩ :=
        crosses_forest h rest hlast a l cs (i + 1) s'' ha hrest hs'' (n.plus u.size u.faults)
      refine ⟨seen ++ more, s₃, ?_, hs₃, List.rel_append hvisits hvisits'⟩
      simp only [run_add, hrun, run, hstep, hrun']
      simp [entered]

end

theorem run_eq (h : cursor.Follows t stands) :
    ∃ seen, cursor.run (2 * t.size) (.entering cursor.start .zero) =
        (seen, .finished ⟨t.size, t.faults⟩) ∧ Visits stands seen (t.located []) := by
  have hpos := t.size_pos
  obtain ⟨k, hk⟩ : ∃ k, k + 1 = 2 * t.size := ⟨2 * t.size - 1, by omega⟩
  have hroot : t.at? [] = some t := by cases t; rfl
  obtain ⟨seen, s, hrun, hs, hvisits⟩ :=
    h.crosses_tree t [] cursor.start hroot h.start .zero k hk
  refine ⟨seen, ?_, hvisits⟩
  rw [← hk, run_add, hrun]
  simp [run, entered, h.step_leaving_root hs, NodeCount.plus, NodeCount.zero]

end Follows

end TreeCursor

/-! ## Positions that know what lies around them -/

namespace Cursor

def moved (c : Cursor) : Option Cursor → Bool × Cursor
  | some d => (true, d)
  | none => (false, c)

def walker (t : SyntaxTree) : TreeCursor Cursor where
  start := .start t
  label c := c.focus.label
  firstChild c := c.moved c.firstChild?
  nextSibling c := c.moved c.nextSibling?
  parent c := c.moved c.parent?

inductive Stands (t : SyntaxTree) : Cursor → List Nat → Prop
  | start : Stands t (.start t) []
  | inside {l : Label} {cs rest right : List SyntaxTree} {u : SyntaxTree}
      {above : List (SyntaxTree × List SyntaxTree)} {a : List Nat} {i : Nat} :
      Stands t ⟨.node l cs, right, above⟩ a → cs.drop i = u :: rest →
      Stands t ⟨u, rest, (.node l cs, right) :: above⟩ (a ++ [i])

variable {t : SyntaxTree}

theorem Stands.at?_eq {c : Cursor} {a : List Nat} (h : Stands t c a) : t.at? a = some c.focus := by
  induction h with
  | start => cases t; rfl
  | inside _ hdrop ih => rw [SyntaxTree.at?_child ih, (SyntaxTree.of_drop_eq_cons hdrop).1]

theorem follows_walker (t : SyntaxTree) : (walker t).Follows t (Stands t) := by
  refine ⟨.start, ?_, ?_, ?_, ?_⟩
  · intro c a u hc ha
    cases hc.at?_eq.symm.trans ha
    rfl
  · intro c a hc
    obtain ⟨⟨l, cs⟩, right, above⟩ := c
    rw [SyntaxTree.childOf?_node hc.at?_eq]
    cases cs with
    | nil => rfl
    | cons u rest => exact ⟨_, rfl, by simpa using Stands.inside (i := 0) hc rfl⟩
  · intro c a hc
    cases hc with
    | start => rfl
    | @inside l cs rest right u above a i hup hdrop =>
      have hrest := (SyntaxTree.of_drop_eq_cons hdrop).2
      rw [SyntaxTree.siblingOf?_concat hup.at?_eq, hrest]
      cases rest with
      | nil => rfl
      | cons v more => exact ⟨_, rfl, .inside hup hrest⟩
  · intro c a hc
    cases hc with
    | start => rfl
    | @inside l cs rest right u above a i hup hdrop =>
      rw [SyntaxTree.parentOf?_concat]
      exact ⟨_, rfl, hup⟩

def resume (n : NodeCount) : Option Cursor → NodeCount
  | none => n
  | some d => d.countFrom n

theorem countFrom_eq (c : Cursor) (n : NodeCount) :
    c.countFrom n = resume (n.add c.focus.label) c.next? := by
  rw [countFrom]
  split
  · next hnext => rw [hnext, resume]
  · next hnext => rw [hnext, resume]

/-- A walk that ends has counted what is counted from its position on. -/
theorem resume_of_run {k : Nat} {r : NodeCount} (c : Cursor) (n : NodeCount) :
    (((walker t).run k (.entering c n)).2 = .finished r → c.countFrom n = r) ∧
      (((walker t).run k (.leaving c n)).2 = .finished r → resume n c.nextOutside? = r) := by
  -- Steps of the loop are finer than those of the count: going up is a step of its own, so what is
  -- left to count while leaving has to be said as well.
  induction k generalizing c n with
  | zero => simp [TreeCursor.run]
  | succ k ih =>
    constructor
    · intro hrun
      rw [countFrom_eq, next?]
      cases hchild : c.firstChild? with
      | some d =>
        simp only [TreeCursor.run, TreeCursor.step, walker, moved, hchild] at hrun
        exact (ih d _).1 hrun
      | none =>
        simp only [TreeCursor.run, TreeCursor.step, walker, moved, hchild] at hrun
        exact (ih c _).2 hrun
    · intro hrun
      rw [nextOutside?]
      cases hside : c.nextSibling? with
      | some d =>
        simp only [TreeCursor.run, TreeCursor.step, walker, moved, hside] at hrun
        exact (ih d n).1 hrun
      | none =>
        cases hup : c.parent? with
        | some p =>
          simp only [TreeCursor.run, TreeCursor.step, walker, moved, hside, hup] at hrun
          exact (ih p n).2 hrun
        | none =>
          simp only [TreeCursor.run, TreeCursor.step, walker, moved, hside, hup] at hrun
          have hend := (TreeCursor.run_finished (walker t) k n).symm.trans hrun
          cases hend
          rfl

end Cursor

namespace SyntaxTree

theorem countNodes_eq (t : SyntaxTree) : t.countNodes = ⟨t.size, t.faults⟩ := by
  obtain ⟨seen, hrun, -⟩ := (Cursor.follows_walker t).run_eq
  exact (Cursor.resume_of_run (t := t) (.start t) .zero).1 (congrArg Prod.snd hrun)

/-! ## Places -/

mutual

theorem counts_located (a : List Nat) : (t : SyntaxTree) →
    (t.located a).length = t.size ∧
      (t.located a).countP (fun place => place.2.label.isFault) = t.faults
  | .node l cs => by
    obtain ⟨hlength, hfaults⟩ := counts_locatedBelow a 0 cs
    rw [located, size, faults, List.length_cons, List.countP_cons, hlength, hfaults]
    exact ⟨Nat.add_comm .., Nat.add_comm ..⟩

theorem counts_locatedBelow (a : List Nat) (i : Nat) : (ts : List SyntaxTree) →
    (locatedBelow a i ts).length = forestSize ts ∧
      (locatedBelow a i ts).countP (fun place => place.2.label.isFault) = forestFaults ts
  | [] => ⟨rfl, rfl⟩
  | t :: ts => by
    obtain ⟨hlength, hfaults⟩ := counts_located (a ++ [i]) t
    obtain ⟨hlength', hfaults'⟩ := counts_locatedBelow a (i + 1) ts
    rw [locatedBelow, forestSize, forestFaults, List.length_append, List.countP_append, hlength,
      hfaults, hlength', hfaults']
    exact ⟨rfl, rfl⟩

end

mutual

theorem nodup_located (a : List Nat) : (t : SyntaxTree) → ((t.located a).map Prod.fst).Nodup
  | .node l cs => by
    rw [located, List.map_cons, List.nodup_cons]
    refine ⟨fun hm => ?_, nodup_locatedBelow a 0 cs⟩
    obtain ⟨⟨address, s⟩, hplace, heq⟩ := List.mem_map.1 hm
    obtain ⟨j, c, below, -, hbelow, -⟩ := (mem_locatedBelow a address s 0 cs).1 hplace
    rw [hbelow] at heq
    simp at heq

theorem nodup_locatedBelow (a : List Nat) (i : Nat) : (ts : List SyntaxTree) →
    ((locatedBelow a i ts).map Prod.fst).Nodup
  | [] => List.nodup_nil
  | t :: ts => by
    rw [locatedBelow, List.map_append, List.nodup_append]
    refine ⟨nodup_located (a ++ [i]) t, nodup_locatedBelow a (i + 1) ts, ?_⟩
    intro x hx y hy hxy
    obtain ⟨⟨address, s⟩, hplace, rfl⟩ := List.mem_map.1 hx
    obtain ⟨⟨address', s'⟩, hplace', rfl⟩ := List.mem_map.1 hy
    obtain ⟨below, hbelow, -⟩ := (mem_located (a ++ [i]) address s t).1 hplace
    obtain ⟨j, c, below', -, hbelow', -⟩ := (mem_locatedBelow a address' s' (i + 1) ts).1 hplace'
    simp only [hbelow, hbelow', List.append_assoc, List.append_cancel_left_eq,
      List.cons_append, List.nil_append, List.cons.injEq] at hxy
    omega

end

end SyntaxTree

/-- A cursor whose moves stay inside a tree is walked through it in two steps for each node. The
walk enters every node once, parents before children and left before right, and comes to the number
of nodes and of those that mark faults, as counting by recursion does. Positions that know what lies
around them are such a cursor. -/
theorem walk_counts_every_node {σ : Type} (t : SyntaxTree) (cursor : TreeCursor σ)
    (stands : σ → List Nat → Prop) (h : cursor.Follows t stands) :
    (∃ seen, cursor.run (2 * t.size) (.entering cursor.start .zero) =
        (seen, .finished t.countNodes) ∧ TreeCursor.Visits stands seen (t.located [])) ∧
    ((t.located []).map Prod.fst).Nodup ∧
    (∀ a u, (a, u) ∈ t.located [] ↔ t.at? a = some u) ∧
    t.countNodes = ⟨t.size, t.faults⟩ ∧
    t.size = (t.located []).length ∧
    t.faults = (t.located []).countP (fun place => place.2.label.isFault) ∧
    (Cursor.walker t).Follows t (Cursor.Stands t) := by
  obtain ⟨hlength, hfaults⟩ := SyntaxTree.counts_located [] t
  refine ⟨?_, SyntaxTree.nodup_located [] t, fun a u => ?_, t.countNodes_eq, hlength.symm,
    hfaults.symm, Cursor.follows_walker t⟩
  · rw [t.countNodes_eq]
    exact h.run_eq
  · rw [SyntaxTree.mem_located]
    simp

def SyntaxTree.faulty : SyntaxTree :=
  .node ⟨"module", none, true, false, 0, 3⟩
    [.node ⟨errorKind, none, true, false, 0, 1⟩
      [.node ⟨"identifier", some "name", true, true, 1, 1⟩ []],
     .node ⟨"identifier", none, true, false, 2, 3⟩ []]

theorem walk_of_faulty :
    (Cursor.walker SyntaxTree.faulty).Follows SyntaxTree.faulty (Cursor.Stands SyntaxTree.faulty) ∧
    (∃ seen, (Cursor.walker SyntaxTree.faulty).run 8 (.entering (.start SyntaxTree.faulty) .zero) =
        (seen, .finished ⟨4, 2⟩) ∧ seen.length = 4) ∧
    (SyntaxTree.faulty.located []).map Prod.fst = [[], [0], [0, 0], [1]] := by
  have hfollows := Cursor.follows_walker SyntaxTree.faulty
  obtain ⟨⟨seen, hrun, hvisits⟩, -, -, hcount, hsize, -⟩ :=
    walk_counts_every_node SyntaxTree.faulty _ _ hfollows
  have hcounted : SyntaxTree.faulty.countNodes = ⟨4, 2⟩ := hcount.trans (by decide +kernel)
  rw [hcounted] at hrun
  refine ⟨hfollows, ⟨seen, hrun, ?_⟩, by decide +kernel⟩
  exact (List.Forall₂.length_eq hvisits).trans (hsize.symm.trans (by decide +kernel))

end SymbolAtlas
