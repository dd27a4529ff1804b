import Mathlib.Data.List.Basic
import SymbolAtlas.Proofs.Segments

/-!
The depth of a path, read off its spelling. Of a path there are left some steps up and, below them,
ordinary segments: whatever is followed, no step up ever comes to stand after an ordinary segment.
So a spelling counts only through the segments it names and through whether it starts at the root.
-/

set_option autoImplicit false

namespace SymbolAtlas.Path

/-! ## What is left of a path -/

def up : List Char := ['.', '.']

theorem isUp_eq_false {segment : List Char} (h : segment ≠ up) : isUp segment = false :=
  decide_eq_false h

/-- What is left of a path: the steps up it begins with, and the ordinary segments after them, the
last one first. -/
structure Trail where
  ups : Nat
  down : List (List Char)
  ordinary : up ∉ down

namespace Trail

def start : Trail := ⟨0, [], by simp⟩

def depth (t : Trail) : Nat := t.ups + t.down.length

/-- One more segment. A step up takes the last ordinary segment away. Where there is none, it is
lost at the root of an absolute path and kept in a relative one. -/
def follow (absolute : Bool) (t : Trail) (segment : List Char) : Trail :=
  if h : segment = up then
    if t.down = [] then if absolute then t else ⟨t.ups + 1, [], by simp⟩
    else ⟨t.ups, t.down.tail, fun hm => t.ordinary (List.mem_of_mem_tail hm)⟩
  else ⟨t.ups, segment :: t.down, by simp [Ne.symm h, t.ordinary]⟩

def stack (t : Trail) : List (List Char) := t.down ++ List.replicate t.ups up

theorem length_stack (t : Trail) : t.stack.length = t.depth := by
  simp [stack, depth, Nat.add_comm]

variable {absolute : Bool}

variable (absolute) in
theorem follow_of_ne (t : Trail) {segment : List Char} (h : segment ≠ up) :
    (t.follow absolute segment).ups = t.ups ∧
      (t.follow absolute segment).down = segment :: t.down := by
  simp [follow, h]

theorem rooted_follow {t : Trail} (h : absolute = true → t.ups = 0) (segment : List Char) :
    absolute = true → (t.follow absolute segment).ups = 0 := by
  rintro rfl
  have ht := h rfl
  unfold follow
  split
  · split
    · exact ht
    · exact ht
  · exact ht

/-- The stack of segments takes every segment as the trail does. -/
theorem push_stack {t : Trail} (h : absolute = true → t.ups = 0) {segment : List Char}
    (hidle : isIdle segment = false) :
    push absolute t.stack segment = (t.follow absolute segment).stack := by
  by_cases hup : segment = up
  · subst hup
    have hu : isUp up = true := rfl
    cases hdown : t.down with
    | nil =>
      -- No ordinary segment: the stack holds steps up alone, and none of them at a root.
      cases absolute with
      | true => simp [push, hidle, hu, stack, follow, hdown, h rfl]
      | false =>
        cases hups : t.ups with
        | zero => simp [push, hidle, hu, stack, follow, hdown, hups]
        | succ n => simp [push, hidle, hu, stack, follow, hdown, hups, List.replicate_succ]
    | cons last rest =>
      have hlast : isUp last = false := isUp_eq_false fun e => t.ordinary (by simp [hdown, e])
      simp [push, hidle, hu, stack, follow, hdown, hlast]
  · simp [push, hidle, isUp_eq_false hup, stack, follow, hup]

theorem foldl_push_stack {segments : List (List Char)}
    (hspoken : ∀ segment ∈ segments, isIdle segment = false) {t : Trail}
    (h : absolute = true → t.ups = 0) :
    segments.foldl (push absolute) t.stack = (segments.foldl (follow absolute) t).stack := by
  induction segments generalizing t with
  | nil => rfl
  | cons segment rest ih =>
    rw [List.foldl_cons, List.foldl_cons, push_stack h (hspoken segment List.mem_cons_self)]
    exact ih (fun s hs => hspoken s (List.mem_cons_of_mem segment hs)) (rooted_follow h segment)

theorem follow_up (t : Trail) {segment : List Char} (h : segment ≠ up) :
    (t.follow absolute segment).follow absolute up = t := by
  simp [follow, h]

theorem depth_foldl_of_not_mem {segments : List (List Char)} (h : up ∉ segments) (t : Trail) :
    (segments.foldl (follow absolute) t).depth = t.depth + segments.length := by
  induction segments generalizing t with
  | nil => rfl
  | cons segment rest ih =>
    rw [List.mem_cons, not_or] at h
    obtain ⟨hups, hdown⟩ := t.follow_of_ne absolute (Ne.symm h.1)
    rw [List.foldl_cons, ih h.2, depth, depth, hups, hdown, List.length_cons, List.length_cons]
    omega

end Trail

/-! ## Segments as they are spelled -/

theorem split_eq_splitOn (cs : List Char) : split cs = cs.splitOn '/' := by
  induction cs with
  | nil => rfl
  | cons c rest ih =>
    rw [List.splitOn, List.splitOnP_cons_eq_if_modifyHead, ← List.splitOn, ← ih]
    by_cases hc : c = '/'
    · simp [split, hc]
    · obtain ⟨piece, pieces, hrest, hcons⟩ := split_cons hc rest
      rw [hcons, hrest]
      simp [hc]

/-- The segments that a path text names: what stands between slashes, with backslashes read as
slashes, less what is empty or a point. -/
def named (s : String) : List (List Char) :=
  ((slashed s.toList).splitOn '/').filter fun segment => segment ≠ [] ∧ segment ≠ ['.']

def startsAtRoot (s : String) : Bool := s.toList.head?.any fun c => c = '/' || c = '\\'

def trail (s : String) : Trail := (named s).foldl (Trail.follow (startsAtRoot s)) .start

theorem named_eq_spoken (s : String) : named s = spoken (slashed s.toList) := by
  rw [named, spoken, split_eq_splitOn]
  refine List.filter_congr fun segment _ => ?_
  simp [isIdle]

theorem foldl_push_spoken (absolute : Bool) (segments stack : List (List Char)) :
    (segments.filter fun s => !isIdle s).foldl (push absolute) stack =
      segments.foldl (push absolute) stack := by
  induction segments generalizing stack with
  | nil => rfl
  | cons segment rest ih =>
    by_cases hi : isIdle segment = true
    · simp [hi, push, ih]
    · simp [hi, ih]

theorem isAbsolute_slashed (cs : List Char) :
    decide (anchorOf (slashed cs) ≠ .relative) = cs.head?.any fun c => c = '/' || c = '\\' := by
  cases cs with
  | nil => rfl
  | cons c rest =>
    have hroot : ∀ ds : List Char, anchorOf ('/' :: ds) ≠ .relative := by
      intro ds
      unfold anchorOf
      split <;> simp_all
    have hrelative : ∀ (d : Char) (ds : List Char), d ≠ '/' → anchorOf (d :: ds) = .relative := by
      intro d ds hd
      unfold anchorOf
      split <;> simp_all
    by_cases hb : c = '\\'
    · simp [slashed, hb, hroot]
    · by_cases hs : c = '/'
      · simp [slashed, hs, hroot]
      · simp [slashed, hb, hs, hrelative]

theorem depth_eq_trail (s : String) : depth s = (trail s).depth := by
  have hspoken : ∀ segment ∈ named s, isIdle segment = false := by simp [named_eq_spoken, spoken]
  have hstack : (named s).foldl (push (startsAtRoot s)) [] = (trail s).stack :=
    Trail.foldl_push_stack (t := .start) hspoken fun _ => rfl
  rw [depth_eq, isAbsolute_slashed, collapse, List.length_reverse, ← foldl_push_spoken, ← spoken,
    ← named_eq_spoken, ← Trail.length_stack, ← hstack]
  rfl

theorem depth_congr {s t : String} (hn : named s = named t) (hr : startsAtRoot s = startsAtRoot t) :
    depth s = depth t := by
  rw [depth_eq_trail, depth_eq_trail, trail, trail, hn, hr]

/-! ## Spellings -/

/-- What may stand between two segments: slashes and backslashes, any number of them, and points
between these. -/
inductive Separator : String → Prop
  | slash : Separator "/"
  | backslash : Separator "\\"
  | run {s t : String} : Separator s → Separator t → Separator (s ++ t)
  | point {s t : String} : Separator s → Separator t → Separator (s ++ "." ++ t)

theorem named_empty : named "" = [] := by decide

theorem named_point : named "." = [] := by decide

theorem slashed_append (xs ys : List Char) : slashed (xs ++ ys) = slashed xs ++ slashed ys :=
  List.map_append

theorem Separator.named_append {sep : String} (h : Separator sep) (a b : String) :
    named (a ++ sep ++ b) = named a ++ named b := by
  induction h generalizing a b with
  | slash | backslash =>
    simp only [named_eq_spoken, String.toList_append, slashed_append, List.append_assoc]
    exact spoken_append _ _
  | @run s t _ _ ihs iht =>
    have hinner := iht "" b
    rw [String.empty_append, named_empty, List.nil_append] at hinner
    have hassoc : a ++ (s ++ t) ++ b = a ++ s ++ (t ++ b) := by
      simp only [String.append_assoc]
    rw [hassoc, ihs, hinner]
  | @point s t _ _ ihs iht =>
    have hinner := iht "." b
    rw [named_point, List.nil_append] at hinner
    have hassoc : a ++ (s ++ "." ++ t) ++ b = a ++ s ++ ("." ++ t ++ b) := by
      simp only [String.append_assoc]
    rw [hassoc, ihs, hinner]

theorem startsAtRoot_append {s : String} (h : s ≠ "") (t : String) :
    startsAtRoot (s ++ t) = startsAtRoot s := by
  have hs : s.toList ≠ [] := fun e => h (String.toList_eq_nil_iff.1 e)
  rw [startsAtRoot, startsAtRoot, String.toList_append, List.head?_append_of_ne_nil _ hs]

theorem Separator.starts {sep : String} (h : Separator sep) (b : String) :
    startsAtRoot (sep ++ b) = true := by
  induction h generalizing b with
  | slash => simp [startsAtRoot]
  | backslash => simp [startsAtRoot]
  | run _ _ ihs _ => rw [String.append_assoc, ihs]
  | point _ _ ihs _ => rw [String.append_assoc, String.append_assoc, ihs]

theorem Separator.depth_eq {sep sep' : String} (h : Separator sep) (h' : Separator sep')
    (a b : String) : depth (a ++ sep ++ b) = depth (a ++ sep' ++ b) := by
  refine depth_congr (by rw [h.named_append, h'.named_append]) ?_
  by_cases ha : a = ""
  · rw [ha, String.empty_append, String.empty_append, h.starts, h'.starts]
  · rw [String.append_assoc, String.append_assoc, startsAtRoot_append ha, startsAtRoot_append ha]

structure IsName (x : String) : Prop where
  unbroken : x.toList.any (fun c => c = '/' || c = '\\') = false
  spoken : x ≠ "" ∧ x ≠ "."
  ordinary : x ≠ ".."

namespace IsName

variable {x : String} (h : IsName x)

include h

theorem toList_ne_up : x.toList ≠ up := fun e =>
  h.ordinary (String.toList_inj.1 e)

theorem startsAtRoot_eq : startsAtRoot x = false := by
  have hx := h.unbroken
  rw [startsAtRoot]
  cases hs : x.toList with
  | nil => rfl
  | cons c rest =>
    rw [hs, List.any_cons, Bool.or_eq_false_iff] at hx
    exact hx.1

theorem named_eq : named x = [x.toList] := by
  have hchars : ∀ c ∈ x.toList, c ≠ '/' ∧ c ≠ '\\' := by
    simpa [List.any_eq_false] using h.unbroken
  have hslashed : slashed x.toList = x.toList := by
    rw [slashed, List.map_congr_left (g := id), List.map_id]
    intro c hc
    simp [(hchars c hc).2]
  have hidle : isIdle x.toList = false := by
    have hempty : x.toList ≠ [] := fun e => h.spoken.1 (String.toList_inj.1 e)
    have hpoint : x.toList ≠ ['.'] := fun e => h.spoken.2 (String.toList_inj.1 e)
    simp [isIdle, hempty, hpoint]
  rw [named_eq_spoken, hslashed]
  exact spoken_plain (fun hc => (hchars _ hc).1 rfl) hidle

end IsName

def Begins (before : String) : Prop :=
  before = "" ∨ ∃ a sep, Separator sep ∧ before = a ++ sep

theorem Begins.named_append {before : String} (h : Begins before) (after : String) :
    named (before ++ after) = named before ++ named after := by
  rcases h with rfl | ⟨a, sep, hsep, rfl⟩
  · rw [String.empty_append, named_empty, List.nil_append]
  · have hbefore := hsep.named_append a ""
    rw [String.append_empty, named_empty, List.append_nil] at hbefore
    rw [hsep.named_append, hbefore]

theorem depth_detour {before after x : String} (hr : startsAtRoot (before ++ after) = false)
    (hb : Begins before) (hx : IsName x) :
    depth (before ++ x ++ "/../" ++ after) = depth (before ++ after) := by
  have hnamed : named (before ++ x ++ "/../" ++ after) =
      named before ++ x.toList :: up :: named after := by
    have hassoc : before ++ x ++ "/../" ++ after =
        before ++ (x ++ "/" ++ (".." ++ "/" ++ after)) := by
      rw [← String.toList_inj]
      simp
    have hup : named ".." = [up] := by decide
    rw [hassoc, hb.named_append, Separator.slash.named_append, Separator.slash.named_append,
      hx.named_eq, hup]
    rfl
  have hroot : startsAtRoot (before ++ x ++ "/../" ++ after) = false := by
    rw [String.append_assoc, String.append_assoc]
    by_cases hempty : before = ""
    · rw [hempty, String.empty_append, startsAtRoot_append hx.spoken.1, hx.startsAtRoot_eq]
    · rw [startsAtRoot_append hempty] at hr ⊢
      exact hr
  rw [depth_eq_trail, depth_eq_trail, trail, trail, hroot, hr, hnamed, hb.named_append,
    List.foldl_append, List.foldl_append, List.foldl_cons, List.foldl_cons,
    Trail.follow_up _ hx.toList_ne_up]

theorem depth_below {b : String} (h : up ∉ named b) (a : String) :
    depth (a ++ "/" ++ b) = depth a + depth b := by
  have hb : depth b = (named b).length := by
    rw [depth_eq_trail, trail, Trail.depth_foldl_of_not_mem h]
    exact Nat.zero_add _
  have hstart : trail a = (named a).foldl (Trail.follow (startsAtRoot (a ++ "/" ++ b))) .start := by
    by_cases ha : a = ""
    · -- Nothing stands before the slash, so nothing is followed from the root.
      subst ha
      rw [trail, named_empty]
      rfl
    · rw [trail, String.append_assoc, startsAtRoot_append ha]
  rw [depth_eq_trail, trail, Separator.slash.named_append, List.foldl_append,
    Trail.depth_foldl_of_not_mem h, ← hstart, ← depth_eq_trail, hb]

/-- The depth of a path is the number of segments that are left of it. It is the same however
separators are written, with or without one at the end, and whatever detours a relative path makes;
segments below a path add to its depth, unless they lead up. -/
theorem depth_of_spellings :
    (∀ s, depth s = (trail s).depth) ∧
    (∀ before after sep, Separator sep →
      depth (before ++ sep ++ after) = depth (before ++ "/" ++ after)) ∧
    (∀ s, depth (s ++ "/") = depth s) ∧
    (∀ before after x, startsAtRoot (before ++ after) = false → Begins before → IsName x →
      depth (before ++ x ++ "/../" ++ after) = depth (before ++ after)) ∧
    ∀ a b, up ∉ named b → depth (a ++ "/" ++ b) = depth a + depth b := by
  refine ⟨depth_eq_trail, fun a b sep h => h.depth_eq .slash a b, fun s => ?_,
    fun _ _ _ => depth_detour, fun a b h => depth_below h a⟩
  have h := depth_below (b := "") (by decide) s
  rwa [String.append_empty] at h

theorem depth_of_sample : Separator "//.\\" ∧ startsAtRoot "../../a" = false ∧ Begins "../../" ∧
    IsName "x" ∧ up ∉ named "b\\./c" ∧ depth "..//.\\../a" = 3 ∧ depth "../../a/" = 3 ∧
    depth "../../x/../a" = 3 ∧ depth "../../a/b\\./c" = 5 := by
  obtain ⟨_, hsep, hend, hdetour, hbelow⟩ := depth_of_spellings
  have hs : Separator "//.\\" := .point (.run .slash .slash) .backslash
  have hroot : startsAtRoot "../../a" = false := by decide
  have hbegins : Begins "../../" := .inr ⟨"../..", "/", .slash, rfl⟩
  have hx : IsName "x" := ⟨by decide, by decide, by decide⟩
  have hdown : up ∉ named "b\\./c" := by decide
  have hdepth : depth "../../a" = 3 := by decide
  have hb : depth "b\\./c" = 2 := by decide
  refine ⟨hs, hroot, hbegins, hx, hdown, (hsep ".." "../a" _ hs).trans hdepth,
    (hend "../../a").trans hdepth, (hdetour "../../" "a" "x" hroot hbegins hx).trans hdepth, ?_⟩
  exact (hbelow "../../a" "b\\./c" hdown).trans (by rw [hdepth, hb])

end SymbolAtlas.Path
