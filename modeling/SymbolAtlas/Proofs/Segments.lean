import Mathlib.Algebra.Ring.Nat
import SymbolAtlas.FileTree
import SymbolAtlas.Path.Depth

/-!
Segments of path texts. A path is no deeper than the text it is looked up under is long.
-/

set_option autoImplicit false

namespace SymbolAtlas.Path

theorem split_ne_nil (cs : List Char) : split cs ≠ [] := by
  cases cs with
  | nil => simp [split]
  | cons c rest =>
    by_cases hc : c = '/'
    · simp [split, hc]
    · cases h : split rest with
      | nil => simp [split, hc, h]
      | cons piece pieces => simp [split, hc, h]

theorem split_cons {c : Char} (hc : c ≠ '/') (rest : List Char) :
    ∃ piece pieces, split rest = piece :: pieces ∧ split (c :: rest) = (c :: piece) :: pieces := by
  cases h : split rest with
  | nil => exact absurd h (split_ne_nil rest)
  | cons piece pieces => exact ⟨piece, pieces, rfl, by simp [split, hc, h]⟩

theorem split_append (xs ys : List Char) : split (xs ++ '/' :: ys) = split xs ++ split ys := by
  induction xs with
  | nil => simp [split]
  | cons c rest ih =>
    by_cases hc : c = '/'
    · simp [split, hc, ih]
    · obtain ⟨piece, pieces, hrest, _⟩ := split_cons hc rest
      simp [split, hc, ih, hrest]

theorem join_split (cs : List Char) : join (split cs) = cs := by
  induction cs with
  | nil => rfl
  | cons c rest ih =>
    by_cases hc : c = '/'
    · cases h : split rest with
      | nil => exact absurd h (split_ne_nil rest)
      | cons piece pieces =>
        rw [h] at ih
        simp [split, hc, h, join, ih]
    · obtain ⟨piece, pieces, hrest, hcons⟩ := split_cons hc rest
      rw [hrest] at ih
      rw [hcons]
      cases pieces with
      | nil => simpa [join] using ih
      | cons next more => simpa [join] using ih

def spoken (cs : List Char) : List (List Char) := (split cs).filter fun piece => !isIdle piece

theorem spoken_append (xs ys : List Char) : spoken (xs ++ '/' :: ys) = spoken xs ++ spoken ys := by
  simp [spoken, split_append]

theorem spoken_slash (cs : List Char) : spoken ('/' :: cs) = spoken cs := by
  simp [spoken, split, isIdle]

theorem spoken_dropWhile (cs : List Char) : spoken (cs.dropWhile (· = '/')) = spoken cs := by
  induction cs with
  | nil => rfl
  | cons c rest ih =>
    by_cases hc : c = '/'
    · subst hc
      simpa [spoken_slash] using ih
    · simp [hc]

theorem length_spoken_le (cs : List Char) : (spoken cs).length ≤ cs.length := by
  induction cs with
  | nil => decide
  | cons c rest ih =>
    by_cases hc : c = '/'
    · subst hc
      rw [spoken_slash, List.length_cons]
      omega
    · obtain ⟨piece, pieces, hrest, hcons⟩ := split_cons hc rest
      have htail : (pieces.filter fun piece => !isIdle piece).length ≤ (spoken rest).length := by
        rw [spoken, hrest]
        exact ((List.sublist_cons_self ..).filter _).length_le
      have hhead : (spoken (c :: rest)).length ≤
          1 + (pieces.filter fun piece => !isIdle piece).length := by
        rw [spoken, hcons, List.filter_cons]
        split
        · rw [List.length_cons]
          omega
        · omega
      rw [List.length_cons]
      omega

theorem spoken_join (pieces : List (List Char)) : spoken (join pieces) = pieces.flatMap spoken := by
  induction pieces with
  | nil => rfl
  | cons piece rest ih =>
    cases rest with
    | nil => simp [join]
    | cons next more => simp [join, spoken_append, ih]

theorem slash_not_mem_split {cs piece : List Char} (h : piece ∈ split cs) : '/' ∉ piece := by
  induction cs generalizing piece with
  | nil =>
    simp only [split, List.mem_singleton] at h
    simp [h]
  | cons c rest ih =>
    by_cases hc : c = '/'
    · simp only [split, hc, if_true, List.mem_cons] at h
      rcases h with rfl | h
      · simp
      · exact ih h
    · obtain ⟨first, more, hrest, hcons⟩ := split_cons hc rest
      rw [hcons, List.mem_cons] at h
      rcases h with rfl | h
      · have hfirst : '/' ∉ first := ih (by simp [hrest])
        simp [hfirst, Ne.symm hc]
      · exact ih (by simp [hrest, h])

theorem spoken_plain {piece : List Char} (h : '/' ∉ piece) (hi : isIdle piece = false) :
    spoken piece = [piece] := by
  have hsplit : ∀ cs : List Char, '/' ∉ cs → split cs = [cs] := by
    intro cs hcs
    induction cs with
    | nil => rfl
    | cons c rest ih =>
      have hc : ¬ c = '/' := fun e => hcs (by simp [e])
      have hrest := ih fun hm => hcs (List.mem_cons_of_mem c hm)
      simp [split, hc, hrest]
  simp [spoken, hsplit piece h, hi]

theorem mem_push {absolute : Bool} {stack : List (List Char)} {segment piece : List Char}
    (h : piece ∈ push absolute stack segment) :
    piece ∈ stack ∨ (piece = segment ∧ isIdle segment = false) := by
  by_cases hi : isIdle segment = true
  · left
    simpa [push, hi] using h
  · have hidle : isIdle segment = false := by simpa using hi
    by_cases hu : isUp segment = true
    · cases stack with
      | nil =>
        cases absolute with
        | true => simp [push, hi, hu] at h
        | false => exact .inr ⟨by simpa [push, hi, hu] using h, hidle⟩
      | cons last rest =>
        by_cases hl : isUp last = true
        · have hm : piece = segment ∨ piece ∈ last :: rest := by simpa [push, hi, hu, hl] using h
          exact hm.symm.imp id fun e => ⟨e, hidle⟩
        · have hm : piece ∈ rest := by simpa [push, hi, hu, hl] using h
          exact .inl (List.mem_cons_of_mem last hm)
    · have hm : piece = segment ∨ piece ∈ stack := by simpa [push, hi, hu] using h
      exact hm.symm.imp id fun e => ⟨e, hidle⟩

theorem mem_collapse {absolute : Bool} {segments : List (List Char)} {piece : List Char}
    (h : piece ∈ collapse absolute segments) : piece ∈ segments ∧ isIdle piece = false := by
  have hrun : ∀ stack : List (List Char), piece ∈ segments.foldl (push absolute) stack →
      piece ∈ stack ∨ (piece ∈ segments ∧ isIdle piece = false) := by
    clear h
    induction segments with
    | nil => exact fun stack h => .inl h
    | cons segment rest ih =>
      intro stack h
      rcases ih _ h with hp | ⟨hm, hi⟩
      · rcases mem_push hp with hs | ⟨rfl, hi⟩
        · exact .inl hs
        · exact .inr ⟨List.mem_cons_self, hi⟩
      · exact .inr ⟨List.mem_cons_of_mem segment hm, hi⟩
  rcases hrun [] (by simpa [collapse] using h) with hnil | hm
  · simp at hnil
  · exact hm

theorem length_push_le (absolute : Bool) (stack : List (List Char)) (segment : List Char) :
    (push absolute stack segment).length ≤ stack.length + if isIdle segment then 0 else 1 := by
  by_cases hi : isIdle segment = true
  · simp [push, hi]
  · by_cases hu : isUp segment = true
    · cases stack with
      | nil => cases absolute <;> simp [push, hi, hu]
      | cons last rest =>
        by_cases hl : isUp last = true
        · simp [push, hi, hu, hl]
        · simp only [push, hi, hu, hl, List.length_cons]
          simp
          omega
    · simp [push, hi, hu]

theorem length_collapse_le (absolute : Bool) (segments : List (List Char)) :
    (collapse absolute segments).length ≤ (segments.filter fun s => !isIdle s).length := by
  have hrun : ∀ stack : List (List Char), (segments.foldl (push absolute) stack).length ≤
      stack.length + (segments.filter fun s => !isIdle s).length := by
    induction segments with
    | nil => simp
    | cons segment rest ih =>
      intro stack
      have hstep := length_push_le absolute stack segment
      have hrest := ih (push absolute stack segment)
      rw [List.foldl_cons]
      by_cases hi : isIdle segment = true
      · simp only [hi, if_true] at hstep
        simp only [List.filter_cons, hi, Bool.not_true, Bool.false_eq_true, if_false]
        omega
      · simp only [hi, Bool.false_eq_true, if_false] at hstep
        simp only [List.filter_cons, hi, Bool.not_false, if_true, List.length_cons]
        omega
  simpa [collapse] using hrun []

theorem spoken_anchor (anchor : Anchor) (cs : List Char) :
    spoken (Anchor.text anchor ++ cs) = spoken cs := by
  cases anchor with
  | relative => rfl
  | root => exact spoken_slash cs
  | doubleRoot => exact (spoken_slash ('/' :: cs)).trans (spoken_slash cs)

theorem flatMap_spoken (pieces : List (List Char)) (h : ∀ piece ∈ pieces, spoken piece = [piece]) :
    pieces.flatMap spoken = pieces := by
  induction pieces with
  | nil => rfl
  | cons piece rest ih =>
    rw [List.flatMap_cons, h piece List.mem_cons_self,
      ih fun p hp => h p (List.mem_cons_of_mem piece hp)]
    rfl

theorem spoken_normalize (cs : List Char) :
    spoken (normalize cs) = collapse (anchorOf cs ≠ .relative) (split cs) := by
  have hkept := flatMap_spoken (collapse (anchorOf cs ≠ .relative) (split cs)) fun piece hp =>
    spoken_plain (slash_not_mem_split (mem_collapse hp).1) (mem_collapse hp).2
  have hwritten :=
    spoken_anchor (anchorOf cs) (join (collapse (anchorOf cs ≠ .relative) (split cs)))
  rw [spoken_join, hkept] at hwritten
  by_cases hw : Anchor.text (anchorOf cs) ++
      join (collapse (anchorOf cs ≠ .relative) (split cs)) = []
  · rw [hw] at hwritten
    simp only [normalize, hw, if_true]
    exact hwritten
  · simp only [normalize, hw, if_false]
    exact hwritten

theorem depth_eq (s : String) :
    depth s = (collapse (anchorOf (slashed s.toList) ≠ .relative)
      (split (slashed s.toList))).length := by
  rw [← spoken_normalize, ← spoken_dropWhile]
  rfl

theorem slashed_join (pieces : List (List Char)) :
    slashed (join pieces) = join (pieces.map slashed) := by
  induction pieces with
  | nil => rfl
  | cons piece rest ih =>
    cases rest with
    | nil => rfl
    | cons next more =>
      simp only [join, List.map_cons] at ih ⊢
      rw [← ih]
      simp [slashed]

theorem length_spoken_slashed_le (cs : List Char) :
    (spoken (slashed cs)).length ≤ ((spoken cs).map List.length).sum := by
  -- A backslash only splits pieces that say something, and into no more pieces than characters.
  have hpieces : ∀ pieces : List (List Char),
      ((pieces.map slashed).flatMap spoken).length ≤
        ((pieces.filter fun piece => !isIdle piece).map List.length).sum := by
    intro pieces
    induction pieces with
    | nil => simp
    | cons piece rest ih =>
      have hpiece := length_spoken_le (slashed piece)
      rw [show (slashed piece).length = piece.length by simp [slashed]] at hpiece
      rw [List.map_cons, List.flatMap_cons, List.length_append]
      by_cases hi : isIdle piece = true
      · have hnone : spoken (slashed piece) = [] := by
          simp only [isIdle, Bool.or_eq_true, decide_eq_true_eq] at hi
          rcases hi with rfl | rfl <;> rfl
        simpa [hi, hnone] using ih
      · simp only [List.filter_cons, hi, Bool.not_false, if_true, List.map_cons, List.sum_cons]
        omega
  have hjoin := join_split cs
  rw [← hjoin, slashed_join, spoken_join, hjoin]
  exact hpieces (split cs)

theorem depth_le (s : String) :
    depth s ≤ ((ofText s).segments.map String.length).sum := by
  have hcollapse := length_collapse_le (anchorOf (slashed s.toList) ≠ .relative)
    (split (slashed s.toList))
  have hspoken := length_spoken_slashed_le s.toList
  have hsegments : (ofText s).segments.map String.length =
      (spoken s.toList).map List.length := by
    simp [ofText, spoken, List.map_map, Function.comp_def]
  rw [depth_eq, hsegments]
  exact Nat.le_trans hcollapse hspoken

theorem length_join_ge (pieces : List (List Char)) :
    (pieces.map List.length).sum ≤ (join pieces).length := by
  induction pieces with
  | nil => simp
  | cons piece rest ih =>
    cases rest with
    | nil => simp [join]
    | cons next more =>
      simp only [join, List.map_cons, List.sum_cons, List.length_append, List.length_cons] at ih ⊢
      omega

theorem segments_le_text (p : Path) : (p.segments.map String.length).sum ≤ p.text.length := by
  have hjoin : (p.segments.map String.length).sum ≤
      (join (p.segments.map String.toList)).length := by
    have h := length_join_ge (p.segments.map String.toList)
    rwa [List.map_map, show List.length ∘ String.toList = String.length from
      funext fun _ => String.length_toList] at h
  simp only [text]
  split
  · next h =>
    have hnil : join (p.segments.map String.toList) = [] := (List.append_eq_nil_iff.1 h).2
    rw [hnil] at hjoin
    exact Nat.le_trans hjoin (Nat.zero_le _)
  · simp only [String.length_ofList, List.length_append]
    omega

theorem segments_below_ge (base p : Path) :
    (p.segments.map String.length).sum ≤ ((base.below p).segments.map String.length).sum := by
  by_cases h : p.isAbsolute = true
  · simp [below, h]
  · simp [below, h]

end SymbolAtlas.Path

namespace SymbolAtlas

theorem length_le_utf8ByteSize (s : String) : s.length ≤ s.utf8ByteSize := by
  have hlist : ∀ cs : List Char, cs.length ≤ (String.ofList cs).utf8ByteSize := by
    intro cs
    induction cs with
    | nil => simp
    | cons c rest ih =>
      have hpos := c.utf8Size_pos
      rw [String.ofList_cons, String.utf8ByteSize_append, String.utf8ByteSize_singleton,
        List.length_cons]
      omega
  have h := hlist s.toList
  rwa [String.ofList_toList, String.length_toList] at h

/-- A path that is looked up successfully is at most as deep as paths may be long. -/
theorem FileTree.depth_le_of_find {t : FileTree} {entry : Entry} (current root : Path)
    (path : String) (h : t.find (current.below (root.below (Path.ofText path))) = .ok entry) :
    Path.depth path ≤ maxPath := by
  let full := current.below (root.below (Path.ofText path))
  have hsize : full.text.utf8ByteSize ≤ maxPath := by
    by_cases hlong : maxPath < full.text.utf8ByteSize
    · simp [find, locate, full, hlong] at h
    · exact Nat.le_of_not_lt hlong
  calc Path.depth path
      ≤ ((Path.ofText path).segments.map String.length).sum := Path.depth_le path
    _ ≤ ((root.below (Path.ofText path)).segments.map String.length).sum :=
        Path.segments_below_ge ..
    _ ≤ (full.segments.map String.length).sum := Path.segments_below_ge ..
    _ ≤ full.text.length := Path.segments_le_text full
    _ ≤ full.text.utf8ByteSize := length_le_utf8ByteSize _
    _ ≤ maxPath := hsize

end SymbolAtlas
