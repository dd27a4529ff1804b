import SymbolAtlas.Json.Write
import SymbolAtlas.Proofs.Numerals
import SymbolAtlas.Proofs.Overlays

/-!
JSON texts are read back. Main statement: a value made of text, finite doubles, lists and mappings
with distinct names is read from its text, in every layout and whatever follows it.
-/

set_option autoImplicit false

namespace SymbolAtlas

/-- Values that a text says all about. -/
inductive Value.Portable : Value → Prop
  | text (s : String) : Portable (.text s)
  | float {x : Float} (hx : x.isFinite = true) : Portable (.float x)
  | list {items : List Value} (hitems : ∀ v ∈ items, Portable v) : Portable (.list items)
  | map {rows : Rows} (hkeys : (Rows.keys rows).Nodup)
      (hnames : ∀ row ∈ rows, ∃ name, row.1 = .text name)
      (hvalues : ∀ row ∈ rows, Portable row.2) : Portable (.map rows)

theorem stops_nil : Stops [] := by
  intro c hc
  cases hc

theorem stops_cons {c : Char} {rest : List Char} (hdigit : c.isDigit = false) (he : c ≠ 'e')
    (hE : c ≠ 'E') : Stops (c :: rest) := by
  intro d hd
  cases hd
  exact ⟨hdigit, he, hE⟩

namespace Json

/-! ## Numbers among the atoms -/

theorem head_of_readMagnitude {negative : Bool} {cs rest : List Char} {v : Value}
    (h : readMagnitude negative cs = some (v, rest)) :
    ∃ c more, cs = c :: more ∧ c.isDigit = true := by
  have hwhole : readWhole cs ≠ none := by
    intro hnone
    simp [readMagnitude, hnone] at h
  cases cs with
  | nil => simp [readWhole] at hwhole
  | cons c more =>
    refine ⟨c, more, rfl, ?_⟩
    by_contra hdigit
    have hzero : c ≠ '0' := by
      rintro rfl
      exact hdigit (by decide)
    simp [readWhole, hzero, hdigit] at hwhole

def sign (negative : Bool) : List Char := if negative then ['-'] else []

/-- No word goes on like a number: after its sign, if it has one, it has a letter. -/
theorem stripWord_number {row : String × Value} (hrow : row ∈ words) (negative : Bool) {c : Char}
    (hc : c.isDigit = true) (more : List Char) :
    stripWord row.1 (sign negative ++ c :: more) = none := by
  have hletter : ∀ l : Char, l.isDigit = false → (l == c) = false := by
    intro l hl
    rw [beq_eq_false_iff_ne]
    rintro rfl
    simp [hl] at hc
  have hn := hletter 'n' rfl
  have ht := hletter 't' rfl
  have hf := hletter 'f' rfl
  have hN := hletter 'N' rfl
  have hI := hletter 'I' rfl
  have hminus := hletter '-' rfl
  simp only [words, List.mem_cons, List.not_mem_nil, or_false] at hrow
  cases negative <;> rcases hrow with rfl | rfl | rfl | rfl | rfl | rfl <;>
    simp [sign, stripWord, List.isPrefixOf, hn, ht, hf, hN, hI, hminus]

theorem readAtom_number (negative : Bool) {c : Char} (hc : c.isDigit = true) (more : List Char) :
    readAtom (sign negative ++ c :: more) = readMagnitude negative (c :: more) := by
  unfold readAtom
  split
  · next found hfound =>
    obtain ⟨row, hrow, hstrip⟩ := List.exists_of_findSome?_eq_some hfound
    simp [stripWord_number hrow negative hc more] at hstrip
  · cases negative with
    | true => rfl
    | false =>
      have hminus : c ≠ '-' := by
        rintro rfl
        cases hc
      simp [sign, hminus]

theorem write_signed {x : Float} (hx : x.isFinite = true) :
    ∃ negative c more, (NumberStyle.json.write x).toList = sign negative ++ c :: more ∧
      c.isDigit = true ∧ ∀ rest, Stops rest →
        readMagnitude negative (c :: more ++ rest) = some (.float x, rest) := by
  obtain ⟨negative, body, htext, hread⟩ := NumberStyle.json.write_finite hx
  obtain ⟨c, more, hbody, hc⟩ := head_of_readMagnitude (hread [] stops_nil)
  rw [List.append_nil] at hbody
  subst hbody
  refine ⟨negative, c, more, ?_, hc, hread⟩
  rw [htext]
  cases negative <;> rfl

theorem readAtom_write {x : Float} (hx : x.isFinite = true) {rest : List Char}
    (hrest : Stops rest) :
    readAtom ((NumberStyle.json.write x).toList ++ rest) = some (.float x, rest) := by
  obtain ⟨negative, c, more, htext, hc, hread⟩ := write_signed hx
  rw [htext, List.append_assoc, List.cons_append, readAtom_number negative hc]
  exact hread rest hrest

/-! ## Blanks -/

theorem skip_of_head {c : Char} {cs : List Char} (hc : isBlank c = false) :
    skip (c :: cs) = c :: cs := by
  simp [skip, hc]

theorem skip_margin (layout : Layout) (level : Nat) (cs : List Char) :
    skip (layout.margin level ++ cs) = skip cs := by
  cases layout with
  | oneLine => rfl
  | lines step =>
    have hblank : ∀ c ∈ Layout.margin (.lines step) level, isBlank c = true := by
      intro c hc
      rcases List.mem_cons.1 hc with rfl | hc
      · decide
      · rw [List.eq_of_mem_replicate hc]
        decide
    exact List.dropWhile_append_of_pos hblank

theorem between_eq (layout : Layout) (level : Nat) :
    ∃ blanks, layout.between level = ',' :: blanks ∧ blanks ≠ [] ∧
      ∀ cs, skip (blanks ++ cs) = skip cs := by
  cases layout with
  | oneLine => exact ⟨[' '], rfl, by simp, fun cs => rfl⟩
  | lines step => exact ⟨_, rfl, by simp [Layout.margin], skip_margin (.lines step) level⟩

/-! ## Values -/

def Begins (cs : List Char) : Prop :=
  ∃ c more, cs = c :: more ∧ isBlank c = false ∧ c ≠ ']' ∧ c ≠ '\x7d'

theorem begins_writeAt {v : Value} (hv : v.Portable) (layout : Layout) (level : Nat) :
    Begins (writeAt layout level v) := by
  cases hv with
  | text s => exact ⟨'"', _, rfl, by decide, by decide, by decide⟩
  | float hx =>
    obtain ⟨negative, c, more, htext, hc, _⟩ := write_signed hx
    have hdigit : isBlank c = false ∧ c ≠ ']' ∧ c ≠ '\x7d' := by
      refine ⟨?_, ?_, ?_⟩
      · rw [← Bool.not_eq_true]
        intro hblank
        simp only [isBlank, Bool.or_eq_true, decide_eq_true_eq] at hblank
        rcases hblank with ((rfl | rfl) | rfl) | rfl <;> cases hc
      · rintro rfl
        cases hc
      · rintro rfl
        cases hc
    have hwritten : writeAt layout level (.float _) = sign negative ++ c :: more := htext
    rw [hwritten]
    cases negative with
    | false => exact ⟨c, more, rfl, hdigit⟩
    | true => exact ⟨'-', c :: more, rfl, by decide, by decide, by decide⟩
  | list hitems =>
    rename_i items
    cases items <;> exact ⟨'[', _, rfl, by decide, by decide, by decide⟩
  | map hkeys hnames hvalues =>
    rename_i rows
    cases rows <;> exact ⟨'\x7b', _, rfl, by decide, by decide, by decide⟩

theorem skip_begins {cs : List Char} (h : Begins cs) (rest : List Char) :
    skip (cs ++ rest) = cs ++ rest := by
  obtain ⟨c, more, rfl, hc, _⟩ := h
  exact skip_of_head hc

theorem stops_between (layout : Layout) (level : Nat) (cs : List Char) :
    Stops (layout.between level ++ cs) := by
  obtain ⟨blanks, hbetween, _⟩ := between_eq layout level
  rw [hbetween]
  exact stops_cons rfl (by decide) (by decide)

theorem stops_margin (layout : Layout) (level : Nat) {cs : List Char} (h : Stops cs) :
    Stops (layout.margin level ++ cs) := by
  cases layout with
  | oneLine => exact h
  | lines step => exact stops_cons rfl (by decide) (by decide)

theorem writeKey_text (name : String) :
    writeKey (.text name) = '"' :: (name.toList.flatMap Text.jsonChar ++ ['"']) := by
  simp [writeKey, bare, Text.jsonQuoted]

/-- What the readers do with texts that a layout gives, if they have fuel for them. -/
structure ReadsBack (layout : Layout) (fuel : Nat) : Prop where
  value : ∀ {v : Value} (level : Nat) {rest : List Char}, v.Portable → Stops rest →
    (writeAt layout level v).length ≤ fuel →
    readValue fuel (writeAt layout level v ++ rest) = some (v, rest)
  items : ∀ {v : Value} {items : List Value} (level : Nat) (rest : List Char), v.Portable →
    (∀ w ∈ items, w.Portable) →
    (writeAt layout (level + 1) v).length + (writeItems layout (level + 1) items).length < fuel →
    readItems fuel (writeAt layout (level + 1) v ++ (writeItems layout (level + 1) items ++
      (layout.margin level ++ ']' :: rest))) = some (v :: items, rest)
  rows : ∀ {name : String} {v : Value} {rows : Rows} (level : Nat) (rest : List Char), v.Portable →
    (∀ row ∈ rows, ∃ name, row.1 = .text name) → (∀ row ∈ rows, row.2.Portable) →
    (writeAt layout (level + 1) v).length + (writeRows layout (level + 1) rows).length < fuel →
    readRows fuel (writeKey (.text name) ++ (':' :: ' ' :: (writeAt layout (level + 1) v ++
      (writeRows layout (level + 1) rows ++ (layout.margin level ++ '\x7d' :: rest))))) =
        some ((.text name, v) :: rows, rest)

section Step

variable {layout : Layout} {fuel : Nat} (h : ReadsBack layout fuel)

include h

theorem readItems_step {v : Value} {items : List Value} (level : Nat) (rest : List Char)
    (hv : v.Portable) (hitems : ∀ w ∈ items, w.Portable)
    (hfuel : (writeAt layout (level + 1) v).length +
      (writeItems layout (level + 1) items).length < fuel + 1) :
    readItems (fuel + 1) (writeAt layout (level + 1) v ++ (writeItems layout (level + 1) items ++
      (layout.margin level ++ ']' :: rest))) = some (v :: items, rest) := by
  cases items with
  | nil =>
    have hstops : Stops (layout.margin level ++ ']' :: rest) :=
      stops_margin layout level (stops_cons rfl (by decide) (by decide))
    have hclose : skip (layout.margin level ++ ']' :: rest) = ']' :: rest := by
      rw [skip_margin, skip_of_head (by decide)]
    rw [readItems, writeItems, List.nil_append, h.value _ hv hstops (by omega)]
    simp only [hclose]
  | cons w items =>
    obtain ⟨hw, hitems⟩ := List.forall_mem_cons.1 hitems
    obtain ⟨blanks, hbetween, hblanks, hskip⟩ := between_eq layout (level + 1)
    have hstops := stops_between layout (level + 1) (writeAt layout (level + 1) w ++
      (writeItems layout (level + 1) items ++ (layout.margin level ++ ']' :: rest)))
    have hlength : 0 < blanks.length := List.length_pos_iff.2 hblanks
    simp only [writeItems, List.length_append, hbetween, List.length_cons] at hfuel
    have hmore := h.items level rest hw hitems (by omega)
    rw [readItems, writeItems, List.append_assoc, List.append_assoc,
      h.value _ hv hstops (by omega), hbetween, List.cons_append]
    simp only [skip_of_head (show isBlank ',' = false by decide), hskip,
      skip_begins (begins_writeAt hw layout (level + 1)), hmore, Option.map_some]

theorem readRows_step {name : String} {v : Value} {rows : Rows} (level : Nat) (rest : List Char)
    (hv : v.Portable) (hnames : ∀ row ∈ rows, ∃ name, row.1 = .text name)
    (hvalues : ∀ row ∈ rows, row.2.Portable)
    (hfuel : (writeAt layout (level + 1) v).length +
      (writeRows layout (level + 1) rows).length < fuel + 1) :
    readRows (fuel + 1) (writeKey (.text name) ++ (':' :: ' ' :: (writeAt layout (level + 1) v ++
      (writeRows layout (level + 1) rows ++ (layout.margin level ++ '\x7d' :: rest))))) =
        some ((.text name, v) :: rows, rest) := by
  have hblank : ∀ cs, skip (' ' :: cs) = skip cs := fun cs => rfl
  have hcolon : ∀ cs, skip (':' :: cs) = ':' :: cs := fun cs => rfl
  cases rows with
  | nil =>
    have hstops : Stops (layout.margin level ++ '\x7d' :: rest) :=
      stops_margin layout level (stops_cons rfl (by decide) (by decide))
    have hclose : skip (layout.margin level ++ '\x7d' :: rest) = '\x7d' :: rest := by
      rw [skip_margin, skip_of_head (by decide)]
    have hvalue := h.value (level + 1) hv hstops (by omega)
    rw [writeRows, List.nil_append, writeKey_text, List.cons_append, List.append_assoc,
      List.singleton_append, readRows]
    simp only [readText_quoted, hcolon, hblank, skip_begins (begins_writeAt hv layout (level + 1)),
      hvalue, hclose]
  | cons row rows =>
    obtain ⟨key, w⟩ := row
    obtain ⟨⟨next, hnext⟩, hothers⟩ := List.forall_mem_cons.1 hnames
    obtain ⟨hw, hrest⟩ := List.forall_mem_cons.1 hvalues
    obtain rfl : key = .text next := hnext
    replace hw : w.Portable := hw
    obtain ⟨blanks, hbetween, hblanks, hskip⟩ := between_eq layout (level + 1)
    have hlength : 0 < blanks.length := List.length_pos_iff.2 hblanks
    simp only [writeRows, List.length_append, hbetween, List.length_cons] at hfuel
    have hmore := @h.rows next _ _ level rest hw hothers hrest (by omega)
    have hquote : ∀ cs, skip (writeKey (.text next) ++ cs) = writeKey (.text next) ++ cs := by
      intro cs
      rw [writeKey_text]
      exact skip_of_head (by decide)
    have hvalue := h.value (level + 1) hv (stops_between layout (level + 1)
      (writeKey (.text next) ++ (':' :: ' ' :: (writeAt layout (level + 1) w ++
        (writeRows layout (level + 1) rows ++ (layout.margin level ++ '\x7d' :: rest))))))
      (by omega)
    rw [hbetween, List.cons_append] at hvalue
    rw [writeKey_text name, List.cons_append, List.append_assoc, List.singleton_append, readRows]
    simp only [writeRows, hbetween, List.append_assoc, List.cons_append, List.nil_append,
      readText_quoted, hcolon, hblank, skip_begins (begins_writeAt hv layout (level + 1)), hvalue,
      skip_of_head (show isBlank ',' = false by decide), hskip, hquote, hmore, Option.map_some]

theorem readValue_step {v : Value} (level : Nat) {rest : List Char} (hv : v.Portable)
    (hrest : Stops rest) (hfuel : (writeAt layout level v).length ≤ fuel + 1) :
    readValue (fuel + 1) (writeAt layout level v ++ rest) = some (v, rest) := by
  cases hv with
  | text s =>
    show readValue (fuel + 1) ('"' :: (s.toList.flatMap Text.jsonChar ++ ['"'] ++ rest)) = _
    rw [readValue, List.append_assoc, List.singleton_append, readText_quoted]
    rfl
  | float hx =>
    rename_i x
    obtain ⟨negative, c, more, htext, hc, _⟩ := write_signed hx
    have hatom := readAtom_write hx hrest
    have hwritten : writeAt layout level (.float x) = (NumberStyle.json.write x).toList := rfl
    have hother : ∀ d ds, d ≠ '"' → d ≠ '[' → d ≠ '\x7b' →
        readValue (fuel + 1) (d :: ds) = readAtom (d :: ds) := by
      intro d ds hquote hbracket hbrace
      simp [readValue, hquote, hbracket, hbrace]
    rw [hwritten, ← hatom, htext]
    cases negative with
    | true => exact hother '-' _ (by decide) (by decide) (by decide)
    | false =>
      refine hother c _ ?_ ?_ ?_ <;>
      · rintro rfl
        cases hc
  | list hitems =>
    rename_i items
    cases items with
    | nil => rfl
    | cons v items =>
      obtain ⟨hv, hothers⟩ := List.forall_mem_cons.1 hitems
      simp only [writeAt, List.length_cons, List.length_append] at hfuel
      have hread := h.items level rest hv hothers (by omega)
      have hbegins := begins_writeAt hv layout (level + 1)
      have hskip : ∀ cs, skip (layout.margin (level + 1) ++ (writeAt layout (level + 1) v ++ cs)) =
          writeAt layout (level + 1) v ++ cs := by
        intro cs
        rw [skip_margin, skip_begins hbegins]
      obtain ⟨c, more, htext, _, hc, _⟩ := hbegins
      simp only [writeAt, List.cons_append, List.append_assoc, List.nil_append, readValue, hskip]
      rw [htext] at hread ⊢
      simp only [List.cons_append] at hread ⊢
      simp [hc, hread]
  | map hkeys hnames hvalues =>
    rename_i rows
    cases rows with
    | nil => rfl
    | cons row rows =>
      obtain ⟨key, v⟩ := row
      obtain ⟨⟨name, hname⟩, hothers⟩ := List.forall_mem_cons.1 hnames
      obtain ⟨hv, hrows⟩ := List.forall_mem_cons.1 hvalues
      obtain rfl : key = .text name := hname
      replace hv : v.Portable := hv
      simp only [writeAt, List.length_cons, List.length_append] at hfuel
      have hread := @h.rows name _ _ level rest hv hothers hrows (by omega)
      have hskip : ∀ cs, skip (layout.margin (level + 1) ++ (writeKey (.text name) ++ cs)) =
          writeKey (.text name) ++ cs := by
        intro cs
        rw [skip_margin, writeKey_text]
        exact skip_of_head (by decide)
      have hlist := Rows.ofList_eq hkeys
      simp only [writeAt, List.cons_append, List.append_assoc, List.nil_append, readValue, hskip]
      rw [writeKey_text] at hread ⊢
      simp only [List.cons_append, List.append_assoc, List.nil_append] at hread ⊢
      simp [hread, hlist]

end Step

theorem readsBack (layout : Layout) (fuel : Nat) : ReadsBack layout fuel := by
  induction fuel with
  | zero =>
    refine ⟨fun level _ hv _ hfuel => ?_, fun _ _ _ _ hfuel => ?_, fun _ _ _ _ _ hfuel => ?_⟩
    · obtain ⟨c, more, htext, _⟩ := begins_writeAt hv layout level
      simp [htext] at hfuel
    · omega
    · omega
  | succ fuel ih =>
    exact ⟨readValue_step ih, readItems_step ih, readRows_step ih⟩

/-- A portable value is read from its text, also when blanks follow. -/
theorem read_write {v : Value} (hv : v.Portable) (layout : Layout) {blanks : List Char}
    (hblanks : ∀ c ∈ blanks, isBlank c = true) :
    read (write layout v ++ String.ofList blanks) = some v := by
  have hskip : skip blanks = [] := by
    simpa [skip, List.dropWhile_eq_nil_iff] using hblanks
  have hstops : Stops blanks := by
    cases blanks with
    | nil => exact stops_nil
    | cons c rest =>
      have hc : isBlank c = true := hblanks c List.mem_cons_self
      simp only [isBlank, Bool.or_eq_true, decide_eq_true_eq] at hc
      rcases hc with ((rfl | rfl) | rfl) | rfl <;> exact stops_cons rfl (by decide) (by decide)
  have htext : (write layout v ++ String.ofList blanks).toList = writeAt layout 0 v ++ blanks := by
    simp [write]
  have hread := (readsBack layout (2 * (writeAt layout 0 v ++ blanks).length + 2)).value 0 hv hstops
    (by simp only [List.length_append]; omega)
  simp only [read, htext, skip_begins (begins_writeAt hv layout 0), hread, hskip, if_true]

/-! ## Plain characters only -/

section Ascii

open Text

theorem ascii_natDigits (n : Nat) : Ascii (natDigits n) :=
  ascii_toDigits (by decide) (by decide) n

theorem ascii_padded {width : Nat} {ds : List Char} (h : Ascii ds) :
    Ascii (padLeft width '0' ds) ∧ Ascii (padRight width '0' ds) :=
  ⟨ascii_append.2 ⟨ascii_replicate _ (by decide), h⟩,
    ascii_append.2 ⟨h, ascii_replicate _ (by decide)⟩⟩

theorem ascii_take {k : Nat} {cs : List Char} (h : Ascii cs) : Ascii (cs.take k) :=
  fun c hc => h c (List.mem_of_mem_take hc)

theorem ascii_drop {k : Nat} {cs : List Char} (h : Ascii cs) : Ascii (cs.drop k) :=
  fun c hc => h c (List.mem_of_mem_drop hc)

theorem ascii_pointAfter (whole : Nat) {ds : List Char} (h : Ascii ds) :
    Ascii (pointAfter whole ds) := by
  have hpadded : Ascii (padRight whole '0' ds) := (ascii_padded h).2
  refine ascii_append.2 ⟨ascii_take hpadded, ascii_cons.2 ⟨by decide, ?_⟩⟩
  split
  · simp [Ascii]
  · exact ascii_drop hpadded

theorem ascii_writeDecimal (style : NumberStyle) (x : Decimal) : Ascii (style.writeDecimal x) := by
  have hdigits := ascii_natDigits x.coefficient
  unfold NumberStyle.writeDecimal
  dsimp only
  split
  · split
    · exact ascii_pointAfter _ hdigits
    · exact ascii_append.2 ⟨ascii_cons.2 ⟨by decide, ascii_cons.2 ⟨by decide,
        ascii_replicate _ (by decide)⟩⟩, hdigits⟩
  · refine ascii_append.2 ⟨ascii_append.2 ⟨ascii_take hdigits, ?_⟩, ascii_cons.2 ⟨by decide,
      ascii_cons.2 ⟨?_, (ascii_padded (ascii_natDigits _)).1⟩⟩⟩
    · split
      · simp [Ascii]
      · exact ascii_cons.2 ⟨by decide, ascii_drop hdigits⟩
    · split <;> decide

theorem ascii_write (x : Float) : Ascii (NumberStyle.json.write x).toList := by
  unfold NumberStyle.write
  split
  · decide
  · split <;> decide
  · next negative m e _ =>
    have hbody : Ascii (if m = 0 then "0.0".toList
        else NumberStyle.json.writeDecimal ((Binary64.shortest m e).strip 400)) := by
      split
      · decide
      · exact ascii_writeDecimal _ _
    rw [String.toList_ofList]
    split
    · exact ascii_cons.2 ⟨by decide, hbody⟩
    · exact hbody

theorem ascii_writeScalar (s : Scalar) : Ascii (writeScalar s) := by
  cases s with
  | null => decide
  | bool b => cases b <;> decide
  | int n =>
    show Ascii (intDigits n)
    unfold intDigits
    split
    · exact ascii_cons.2 ⟨by decide, ascii_natDigits _⟩
    · exact ascii_natDigits _
  | float x => exact ascii_write x
  | text s => exact ascii_jsonQuoted s

theorem ascii_margin (layout : Layout) (level : Nat) : Ascii (layout.margin level) := by
  cases layout with
  | oneLine => simp [Layout.margin, Ascii]
  | lines step => exact ascii_cons.2 ⟨by decide, ascii_replicate _ (by decide)⟩

theorem ascii_between (layout : Layout) (level : Nat) : Ascii (layout.between level) := by
  cases layout with
  | oneLine => simp [Layout.between, Ascii]
  | lines step => exact ascii_cons.2 ⟨by decide, ascii_margin (.lines step) level⟩

mutual

theorem ascii_writeAt (layout : Layout) (level : Nat) : ∀ v, Ascii (writeAt layout level v)
  | .scalar s => ascii_writeScalar s
  | .list [] => by simp [writeAt, Ascii]
  | .list (v :: rest) => by
    simp only [writeAt, ascii_cons, ascii_append]
    exact ⟨by decide, ⟨⟨⟨ascii_margin layout _, ascii_writeAt layout _ v⟩,
      ascii_writeItems layout _ rest⟩, ascii_margin layout _⟩, by decide, by simp [Ascii]⟩
  | .map [] => by simp [writeAt, Ascii]
  | .map ((k, v) :: rest) => by
    simp only [writeAt, ascii_cons, ascii_append]
    exact ⟨by decide, ⟨⟨⟨⟨⟨ascii_margin layout _, ascii_jsonQuoted _⟩, by decide, by decide,
      by simp [Ascii]⟩, ascii_writeAt layout _ v⟩, ascii_writeRows layout _ rest⟩,
      ascii_margin layout _⟩, by decide, by simp [Ascii]⟩

theorem ascii_writeItems (layout : Layout) (level : Nat) :
    ∀ items, Ascii (writeItems layout level items)
  | [] => by simp [writeItems, Ascii]
  | v :: rest => by
    simp only [writeItems, ascii_append]
    exact ⟨⟨ascii_between layout level, ascii_writeAt layout level v⟩,
      ascii_writeItems layout level rest⟩

theorem ascii_writeRows (layout : Layout) (level : Nat) :
    ∀ rows, Ascii (writeRows layout level rows)
  | [] => by simp [writeRows, Ascii]
  | (k, v) :: rest => by
    simp only [writeRows, ascii_cons, ascii_append]
    exact ⟨⟨⟨⟨ascii_between layout level, ascii_jsonQuoted _⟩, by decide, by decide,
      by simp [Ascii]⟩, ascii_writeAt layout level v⟩, ascii_writeRows layout level rest⟩

end

end Ascii

end Json

end SymbolAtlas
