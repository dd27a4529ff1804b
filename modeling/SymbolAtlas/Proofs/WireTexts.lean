import SymbolAtlas.CommandLine
import SymbolAtlas.Wire
import SymbolAtlas.Proofs.JsonTexts

/-!
What a reader of the printed text learns of an atlas: both tables, row for row and in their order.
The text has plain characters only, whatever the paths and the names, and its layout does not
matter.
-/

set_option autoImplicit false

namespace SymbolAtlas

namespace Value

def number? : Value → Option Float
  | .float x => some x
  | _ => none

def text? : Value → Option String
  | .text s => some s
  | _ => none

def texts? : Value → Option (List String)
  | .list items => items.mapM text?
  | _ => none

def row? {α : Type} (f : Value → Option α) (row : Scalar × Value) : Option (String × α) :=
  match row.1 with
  | .text name => (f row.2).map (name, ·)
  | _ => none

def table? {α : Type} (f : Value → Option α) : Value → Option (Table String α)
  | .map rows =>
    (rows.mapM (row? f)).bind fun entries =>
      if h : (entries.map Prod.fst).Nodup then some ⟨entries, h⟩ else none
  | _ => none

end Value

theorem mapM_map_some {α β : Type} {f : α → β} {g : β → Option α} {xs : List α}
    (h : ∀ x ∈ xs, g (f x) = some x) : (xs.map f).mapM g = some xs := by
  induction xs with
  | nil => rfl
  | cons x xs ih =>
    have htail := ih fun y hy => h y (List.mem_cons_of_mem x hy)
    simp [htail, h x List.mem_cons_self]

namespace Atlas

/-! ## Tables and mappings -/

section Tables

variable {α : Type} {f : α → Value} {t : Table String α}

theorem table?_tableValue {g : Value → Option α} (h : ∀ row ∈ t.entries, g (f row.2) = some row.2) :
    (tableValue f t).table? g = some t := by
  have hrows : (t.entries.map fun row => (Scalar.text row.1, f row.2)).mapM (Value.row? g) =
      some t.entries := by
    refine mapM_map_some fun row hrow => ?_
    simp [Value.row?, h row hrow]
  simp [tableValue, Value.table?, hrows, t.nodup]

theorem portable_tableValue (h : ∀ row ∈ t.entries, (f row.2).Portable) :
    (tableValue f t).Portable := by
  have hkeys : Rows.keys (t.entries.map fun row => (Scalar.text row.1, f row.2)) =
      (t.entries.map Prod.fst).map Key.text := by
    simp [Rows.keys, Scalar.key, Function.comp_def]
  refine .map ?_ ?_ ?_
  · rw [hkeys]
    exact t.nodup.map fun _ _ => Key.text.inj
  · intro row hrow
    obtain ⟨entry, _, rfl⟩ := List.mem_map.1 hrow
    exact ⟨entry.1, rfl⟩
  · intro row hrow
    obtain ⟨entry, hentry, rfl⟩ := List.mem_map.1 hrow
    exact h entry hentry

end Tables

/-! ## Both tables of an atlas -/

def tables? : Value → Option (ScoreTable Float × CallerTable)
  | .map rows => do
    let scores ← Rows.get? rows "tokenScores"
    let callers ← Rows.get? rows "tokenCallers"
    return (← scores.table? (·.table? Value.number?), ← callers.table? (·.table? Value.texts?))
  | _ => none

theorem tables?_wireRows (a : Atlas Float) :
    tables? (.map a.wireRows) = some (a.scores, a.callers) := by
  have hscores : (tableValue (tableValue Value.float) a.scores).table? (·.table? Value.number?) =
      some a.scores :=
    table?_tableValue fun _ _ => table?_tableValue fun _ _ => rfl
  have hcallers : (tableValue (tableValue fun callers => .list (callers.map Value.text))
      a.callers).table? (·.table? Value.texts?) = some a.callers :=
    table?_tableValue fun _ _ => table?_tableValue fun _ _ => mapM_map_some fun _ _ => rfl
  simp [tables?, wireRows, Rows.get?, Rows.find?, Scalar.key, hscores, hcallers]

def FiniteScores (a : Atlas Float) : Prop :=
  ∀ file ∈ a.scores.entries, ∀ row ∈ file.2.entries, row.2.isFinite = true

theorem portable_wireRows {a : Atlas Float} (h : a.FiniteScores) :
    (Value.map a.wireRows).Portable := by
  have hscores : (tableValue (tableValue Value.float) a.scores).Portable :=
    portable_tableValue fun file hfile => portable_tableValue fun row hrow =>
      .float (h file hfile row hrow)
  have hcallers : (tableValue (tableValue fun callers => .list (callers.map Value.text))
      a.callers).Portable := by
    refine portable_tableValue fun file _ => portable_tableValue fun row _ => .list fun v hv => ?_
    obtain ⟨caller, _, rfl⟩ := List.mem_map.1 hv
    exact .text caller
  refine .map ?_ ?_ ?_
  · simp [wireRows, Rows.keys, Scalar.key]
  · simp [wireRows]
  · simp [wireRows, hscores, hcallers]

/-! ## The printed texts -/

/-- The texts that stand for an atlas: on its own in some layout, or as the command prints it. -/
inductive Prints (a : Atlas Float) : String → Prop
  | wire (layout : Json.Layout) : Prints a (a.wire layout)
  | command (indent : Int) : Prints a (CommandLine.atlasText indent false a)

theorem Prints.exists_blanks {a : Atlas Float} {s : String} (h : a.Prints s) :
    ∃ layout blanks, s = a.wire layout ++ String.ofList blanks ∧
      (∀ c ∈ blanks, Json.isBlank c = true) ∧ Text.Ascii blanks := by
  cases h with
  | wire layout => exact ⟨layout, [], by simp, by simp, by decide⟩
  | command indent =>
    refine ⟨CommandLine.layoutOf indent, ['\n'], ?_, ?_, by decide⟩
    · simp [CommandLine.atlasText, Atlas.wire]
    · simp [Json.isBlank]

theorem Prints.ascii {a : Atlas Float} {s : String} (h : a.Prints s) : Text.Ascii s.toList := by
  obtain ⟨layout, blanks, rfl, _, hblanks⟩ := h.exists_blanks
  have htext : (a.wire layout ++ String.ofList blanks).toList =
      Json.writeAt layout 0 (.map a.wireRows) ++ blanks := by
    simp [Atlas.wire, Json.write]
  rw [htext, Text.ascii_append]
  exact ⟨Json.ascii_writeAt layout 0 _, hblanks⟩

theorem Prints.read {a : Atlas Float} {s : String} (h : a.Prints s) (ha : a.FiniteScores) :
    Json.read s = some (.map a.wireRows) := by
  obtain ⟨layout, blanks, rfl, hblanks, _⟩ := h.exists_blanks
  exact Json.read_write (portable_wireRows ha) layout hblanks

theorem wireRows_eq_iff {a b : Atlas Float} :
    a.wireRows = b.wireRows ↔ a.scores = b.scores ∧ a.callers = b.callers := by
  constructor
  · intro h
    have htables := tables?_wireRows a
    rw [h, tables?_wireRows b] at htables
    obtain ⟨hscores, hcallers⟩ := Prod.mk.inj (Option.some.inj htables)
    exact ⟨hscores.symm, hcallers.symm⟩
  · rintro ⟨hscores, hcallers⟩
    simp only [wireRows, hscores, hcallers]

/-- The printed text determines the tables. -/
theorem tables_of_printed_text {a b : Atlas Float} {s t : String} (ha : a.FiniteScores)
    (hb : b.FiniteScores) (hs : a.Prints s) (ht : b.Prints t) :
    Text.Ascii s.toList ∧ Json.read s = some (.map a.wireRows) ∧
      (Json.read s).bind tables? = some (a.scores, a.callers) ∧
      (Json.read s = Json.read t ↔ a.scores = b.scores ∧ a.callers = b.callers) ∧
      (s = t → a.scores = b.scores ∧ a.callers = b.callers) := by
  have hread := hs.read ha
  have hvalue : Json.read s = Json.read t ↔ a.scores = b.scores ∧ a.callers = b.callers := by
    rw [hread, ht.read hb, Option.some.injEq, Value.map.injEq, wireRows_eq_iff]
  refine ⟨hs.ascii, hread, ?_, hvalue, ?_⟩
  · rw [hread, Option.bind_some, tables?_wireRows]
  · rintro rfl
    exact hvalue.1 rfl

namespace Sample

/-- Names with a quote, a control character and a character of two units, over scores at the ends
of the range. -/
def odd : Atlas Float where
  scores := ⟨[("a\"\\\t.py", ⟨[("😀", 0.1), ("é", -0.0)], by decide⟩), ("", ∅),
    ("\x00", ⟨[("x", 5e-324), ("y", 1.7976931348623157e308)], by decide⟩)], by decide⟩
  callers := ⟨[("\x7f/😀.py", ⟨[("é", ["b.py", "\n", "b.py"]), ("", [])], by decide⟩)], by decide⟩
  stats := ⟨3, 0, 0, 4, 3, 0, 1⟩

def unsigned : Atlas Float :=
  { odd with
    scores := ⟨[("a\"\\\t.py", ⟨[("😀", 0.1), ("é", 0.0)], by decide⟩), ("", ∅),
      ("\x00", ⟨[("x", 5e-324), ("y", 1.7976931348623157e308)], by decide⟩)], by decide⟩ }

theorem finiteScores_odd : odd.FiniteScores := by
  simp only [FiniteScores, odd]
  decide +kernel

theorem finiteScores_unsigned : unsigned.FiniteScores := by
  simp only [FiniteScores, unsigned]
  decide +kernel

theorem scores_odd_ne : odd.scores ≠ unsigned.scores := by
  intro h
  have hbits := congrArg (fun t => t.entries.map fun file =>
    file.2.entries.map fun row => row.2.toBits) h
  revert hbits
  decide +kernel

/-- The sign of one zero shows in the text. -/
theorem printed_texts_apart :
    odd.FiniteScores ∧ unsigned.FiniteScores ∧
      odd.Prints (CommandLine.atlasText 2 false odd) ∧
      unsigned.Prints (CommandLine.atlasText 2 false unsigned) ∧
      Text.Ascii (CommandLine.atlasText 2 false odd).toList ∧
      (Json.read (CommandLine.atlasText 2 false odd)).bind tables? =
        some (odd.scores, odd.callers) ∧
      CommandLine.atlasText 2 false odd ≠ CommandLine.atlasText 2 false unsigned := by
  have h := tables_of_printed_text finiteScores_odd finiteScores_unsigned (.command 2) (.command 2)
  exact ⟨finiteScores_odd, finiteScores_unsigned, .command 2, .command 2, h.1, h.2.2.1,
    fun heq => scores_odd_ne (h.2.2.2.2 heq).1⟩

end Sample

end Atlas

end SymbolAtlas
