import SymbolAtlas.SyntaxTree

/-!
A position in a syntax tree that moves to the first child, the next sibling and the parent, and
the count of nodes made by walking it through the whole tree.
-/

set_option autoImplicit false

namespace SymbolAtlas

/-- A node with its later siblings, and the same for every node above it. -/
structure Cursor where
  focus : SyntaxTree
  right : List SyntaxTree
  above : List (SyntaxTree × List SyntaxTree)

namespace Cursor

def start (t : SyntaxTree) : Cursor := ⟨t, [], []⟩

def firstChild? (c : Cursor) : Option Cursor :=
  match c.focus.children with
  | [] => none
  | t :: ts => some ⟨t, ts, (c.focus, c.right) :: c.above⟩

def nextSibling? (c : Cursor) : Option Cursor :=
  match c.right with
  | [] => none
  | t :: ts => some ⟨t, ts, c.above⟩

def parent? (c : Cursor) : Option Cursor :=
  match c.above with
  | [] => none
  | (t, ts) :: above => some ⟨t, ts, above⟩

theorem length_above_parent? {c p : Cursor} (h : c.parent? = some p) :
    p.above.length < c.above.length := by
  unfold parent? at h
  split at h
  · cases h
  · next e => cases h; simp [e]

/-- The next sibling of the node or of the nearest node above it that has one. -/
def nextOutside? (c : Cursor) : Option Cursor :=
  match c.nextSibling? with
  | some next => some next
  | none =>
    match _h : c.parent? with
    | none => none
    | some p => p.nextOutside?
termination_by c.above.length
decreasing_by exact length_above_parent? _h

def next? (c : Cursor) : Option Cursor :=
  match c.firstChild? with
  | some child => some child
  | none => c.nextOutside?

/-- How many nodes lie below or after the position, its own node included. -/
def ahead (c : Cursor) : Nat :=
  c.focus.size + SyntaxTree.forestSize c.right +
    c.above.foldr (fun level nodes => SyntaxTree.forestSize level.2 + nodes) 0

theorem ahead_nextSibling? {c d : Cursor} (h : c.nextSibling? = some d) :
    d.ahead + c.focus.size = c.ahead := by
  unfold nextSibling? at h
  split at h
  · cases h
  · next e =>
    cases h
    simp only [ahead, e, SyntaxTree.forestSize]
    omega

theorem ahead_nextOutside? (c d : Cursor) (h : c.nextOutside? = some d) :
    d.ahead + c.focus.size = c.ahead := by
  rw [nextOutside?] at h
  split at h
  · next e => cases h; exact ahead_nextSibling? e
  · next hs =>
    split at h
    · cases h
    · next p hp =>
      have ih := ahead_nextOutside? p d h
      have hr : c.right = [] := by
        unfold nextSibling? at hs
        split at hs
        · assumption
        · cases hs
      unfold parent? at hp
      split at hp
      · cases hp
      · next t ts above e =>
        cases hp
        simp only [ahead, hr, e, SyntaxTree.forestSize, List.foldr_cons] at ih ⊢
        omega
termination_by c.above.length
decreasing_by exact length_above_parent? (by assumption)

theorem ahead_next? {c d : Cursor} (h : c.next? = some d) : d.ahead < c.ahead := by
  unfold next? at h
  split at h
  · next e =>
    cases h
    unfold firstChild? at e
    split at e
    · cases e
    · next t ts ht =>
      cases e
      have hf : c.focus.size = 1 + SyntaxTree.forestSize (t :: ts) := by
        rw [← ht]; cases c.focus; rfl
      simp only [ahead, hf, SyntaxTree.forestSize, List.foldr_cons]
      omega
  · have := ahead_nextOutside? c d h
    have := c.focus.size_pos
    omega

end Cursor

structure NodeCount where
  total : Nat
  faults : Nat
  deriving DecidableEq, Repr

namespace NodeCount

def zero : NodeCount := ⟨0, 0⟩

def add (n : NodeCount) (l : Label) : NodeCount :=
  ⟨n.total + 1, if l.isFault then n.faults + 1 else n.faults⟩

end NodeCount

/-- Count from a position on. Every step leaves fewer nodes ahead. -/
def Cursor.countFrom (c : Cursor) (n : NodeCount) : NodeCount :=
  match _h : c.next? with
  | none => n.add c.focus.label
  | some d => d.countFrom (n.add c.focus.label)
termination_by c.ahead
decreasing_by exact Cursor.ahead_next? _h

def SyntaxTree.countNodes (t : SyntaxTree) : NodeCount := (Cursor.start t).countFrom .zero

end SymbolAtlas
