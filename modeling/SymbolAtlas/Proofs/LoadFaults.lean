import SymbolAtlas.Proofs.Precedence
import SymbolAtlas.Proofs.ScoringCalls

/-!
How the loading of settings ends. Main statement: settings that are returned are valid, errors of
the settings have one of two numbers, and the faults that escape have a known cause: an argument or
a section without a name, a file that cannot be read, decoded or evaluated, a variable that is no
JSON text, or a destination below a home that nobody has.
-/

set_option autoImplicit false

namespace SymbolAtlas

/-! ## Verdicts that end everything -/

namespace Verdict

variable {α β : Type} {x : Verdict α} {y : Verdict β} {p q : Prop}

/-- A check that misses a home exactly under a condition, and never rejects without a complaint. -/
structure Misses (p : Prop) (x : Verdict α) : Prop where
  homeless_iff : x = .homeless ↔ p
  reasoned : x ≠ .rejected []

theorem Misses.congr (h : Misses p x) (hpq : p ↔ q) : Misses q x :=
  ⟨h.homeless_iff.trans hpq, h.reasoned⟩

theorem misses_accepted (a : α) : Misses False (.accepted a) := ⟨by simp, by simp⟩

theorem misses_complain (complaint : Complaint) (v : Value) :
    Misses False (.complain complaint v : Verdict α) :=
  ⟨by simp [complain], by simp [complain]⟩

theorem misses_ofExcept (v : Value) (x : Except Complaint α) : Misses False (.ofExcept v x) := by
  cases x with
  | ok a => exact misses_accepted a
  | error complaint => exact misses_complain complaint v

theorem Misses.map (f : α → β) (h : Misses p x) : Misses p (x.map f) := by
  obtain ⟨hhome, hreason⟩ := h
  cases x <;> constructor <;> simp_all [Verdict.map]

theorem Misses.inside (step : String) (h : Misses p x) : Misses p (x.inside step) := by
  obtain ⟨hhome, hreason⟩ := h
  cases x <;> constructor <;> simp_all [Verdict.inside]

theorem Misses.both (hx : Misses p x) (hy : Misses q y) : Misses (p ∨ q) (x.both y) := by
  obtain ⟨hxhome, hxreason⟩ := hx
  obtain ⟨hyhome, hyreason⟩ := hy
  cases x <;> cases y <;> constructor <;> simp_all [Verdict.both]

theorem Misses.bind {f : α → Verdict β} (h : Misses p x) (hf : ∀ a, Misses False (f a)) :
    Misses p (x.bind f) := by
  obtain ⟨hhome, hreason⟩ := h
  cases x with
  | accepted a => exact (hf a).congr (by simpa using hhome)
  | rejected issues => constructor <;> simp_all [Verdict.bind]
  | homeless => constructor <;> simp_all [Verdict.bind]

theorem misses_all {γ : Type} {P : γ → Prop} {check : γ → Verdict α} {items : List γ}
    (h : ∀ c ∈ items, Misses (P c) (check c)) :
    Misses (∃ c ∈ items, P c) (all (items.map check)) := by
  induction items with
  | nil => exact (misses_accepted []).congr (by simp)
  | cons c rest ih =>
    obtain ⟨hc, hrest⟩ := List.forall_mem_cons.1 h
    exact ((hc.both (ih hrest)).map _).congr (by simp)

end Verdict

namespace Validation

open Verdict

variable {α β : Type}

theorem misses_field {rows : Rows} {name : String} {builtin : α} {check : Value → Verdict α}
    {P : Value → Prop} (h : ∀ v, Misses (P v) (check v)) :
    Misses (∃ v, rows.get? name = some v ∧ P v) (field rows name builtin check) := by
  cases hv : rows.get? name with
  | none =>
    rw [field, hv]
    exact (misses_accepted builtin).congr (by simp)
  | some v =>
    rw [field, hv]
    exact ((h v).inside name).congr (by simp)

theorem misses_field_false {rows : Rows} {name : String} {builtin : α} {check : Value → Verdict α}
    (h : ∀ v, Misses False (check v)) : Misses False (field rows name builtin check) :=
  (misses_field h).congr (by simp)

theorem misses_model {name : String} {fields : Rows → Verdict α} {P : Rows → Prop}
    (h : ∀ rows, Misses (P rows) (fields rows)) (v : Value) :
    Misses (∃ rows, v = .map rows ∧ P rows) (model name fields v) := by
  cases v with
  | map rows => exact (h rows).congr (by simp)
  | scalar s => exact (misses_complain _ _).congr (by simp)
  | list items => exact (misses_complain _ _).congr (by simp)

theorem misses_model_false {name : String} {fields : Rows → Verdict α}
    (h : ∀ rows, Misses False (fields rows)) (v : Value) : Misses False (model name fields v) :=
  (misses_model h v).congr (by simp)

theorem misses_checked (coerce : Value → Except Complaint α) (refine : α → Except String β)
    (v : Value) : Misses False (checked coerce refine v) := by
  unfold checked
  split
  · exact misses_complain _ v
  · split
    · exact misses_accepted _
    · exact misses_complain _ v

theorem misses_optional {check : Value → Verdict α} (h : ∀ v, Misses False (check v)) (v : Value) :
    Misses False (optional check v) := by
  unfold optional
  split
  · exact misses_accepted none
  · exact (h v).map some

def Astray (accounts : Accounts) (v : Value) : Prop :=
  ∃ s, v = .text s ∧ s ∉ streams ∧ accounts.expand (Path.ofText s) = none

theorem misses_destination (accounts : Accounts) (v : Value) :
    Misses (Astray accounts v) (destination accounts v) := by
  unfold destination
  split
  · next complaint hc =>
    refine (misses_complain complaint v).congr (iff_of_false id ?_)
    rintro ⟨s, rfl, _⟩
    cases hc
  · next s hs =>
    have hv : v = .text s := by
      unfold Coercion.text at hs
      split at hs
      · cases hs
        rfl
      · cases hs
    subst hv
    split
    · next hstream =>
      refine (misses_accepted s).congr (iff_of_false id ?_)
      rintro ⟨t, ht, hnot, _⟩
      cases ht
      exact hnot (by simpa using hstream)
    · next hstream =>
      split
      · next hp => exact ⟨iff_of_true rfl ⟨s, rfl, by simpa using hstream, hp⟩, by simp⟩
      · next p hp =>
        have hnot : ¬ Astray accounts (.text s) := by
          rintro ⟨t, ht, _, hnone⟩
          cases ht
          simp [hp] at hnone
        split
        · exact (misses_accepted _).congr (iff_of_false id hnot)
        · exact (misses_complain _ _).congr (iff_of_false id hnot)

def AstrayOutput (accounts : Accounts) (v : Value) : Prop :=
  ∃ rows : Rows, v = .map rows ∧ ∃ d, rows.get? "destination" = some d ∧ Astray accounts d

theorem misses_output (accounts : Accounts) (v : Value) :
    Misses (AstrayOutput accounts v) (output accounts v) := by
  refine misses_model (fun rows => ?_) v
  refine (((misses_field_false fun v => misses_ofExcept v _).both
    ((misses_field (misses_destination accounts)).both (misses_field_false
      (misses_optional fun v => misses_ofExcept v _)))).map _).congr ?_
  simp

def AstrayOutputs (accounts : Accounts) (v : Value) : Prop :=
  ∃ items, v = .list items ∧ ∃ item ∈ items, AstrayOutput accounts item

theorem misses_outputs (accounts : Accounts) (v : Value) :
    Misses (AstrayOutputs accounts v) (outputs accounts v) := by
  unfold outputs
  split
  · next items =>
    refine (misses_all fun row _ =>
      (misses_output accounts row.2).inside (writeNat row.1)).congr ?_
    -- The numbers of the outputs do not matter.
    have hzip : ((List.range items.length).zip items).map Prod.snd = items :=
      List.map_snd_zip (by simp)
    constructor
    · rintro ⟨row, hrow, hastray⟩
      exact ⟨items, rfl, row.2, (List.of_mem_zip hrow).2, hastray⟩
    · rintro ⟨_, ⟨rfl⟩, item, hitem, hastray⟩
      rw [← hzip] at hitem
      obtain ⟨row, hrow, rfl⟩ := List.mem_map.1 hitem
      exact ⟨row, hrow, hastray⟩
  · next hlist =>
    refine (misses_complain _ _).congr (iff_of_false id ?_)
    rintro ⟨items, rfl, _⟩
    exact hlist items rfl

def AstrayDocument (accounts : Accounts) (rows : Rows) : Prop :=
  ∃ logging : Rows, rows.get? "logging" = some (.map logging) ∧
    ∃ os, logging.get? "outputs" = some os ∧ AstrayOutputs accounts os

theorem misses_logging (accounts : Accounts) (v : Value) :
    Misses (∃ rows : Rows, v = .map rows ∧
      ∃ os, rows.get? "outputs" = some os ∧ AstrayOutputs accounts os) (logging accounts v) := by
  refine misses_model (fun rows => ?_) v
  refine (((misses_field_false fun v => misses_ofExcept v _).both
    (misses_field (misses_outputs accounts))).map _).congr ?_
  simp

theorem misses_indexer (v : Value) : Misses False (indexer v) := by
  refine misses_model_false (fun rows => ?_) v
  exact (((misses_field_false (misses_optional (misses_checked _ _))).both
    (misses_field_false (misses_checked _ _))).map _).congr (by simp)

theorem misses_densityBound (v : Value) (s : ScoringSettings) :
    Misses False (densityBound v s) := by
  unfold densityBound
  split
  · exact misses_accepted s
  · exact misses_complain _ v

theorem misses_scoring (v : Value) : Misses False (scoring v) := by
  refine misses_model_false (fun rows => ?_) v
  refine Misses.bind ?_ (misses_densityBound (.map rows))
  exact (((misses_field_false (misses_checked _ _)).both
    ((misses_field_false fun v => misses_ofExcept v _).both
      ((misses_field_false fun v => misses_ofExcept v _).both
        (misses_field_false (misses_checked _ _))))).map _).congr (by simp)

/-- Whatever else is wrong with a document, an astray output ends its check. -/
theorem misses_sections (accounts : Accounts) (rows : Rows) :
    Misses (AstrayDocument accounts rows) (sections accounts rows) := by
  refine (((misses_field (misses_logging accounts)).both
    ((misses_field_false misses_indexer).both (misses_field_false misses_scoring))).map _).congr ?_
  constructor
  · rintro (⟨_, hv, logging, rfl, hastray⟩ | hfalse)
    · exact ⟨logging, hv, hastray⟩
    · simp at hfalse
  · rintro ⟨logging, hv, hastray⟩
    exact .inl ⟨_, hv, logging, rfl, hastray⟩

end Validation

/-! ## Documents -/

namespace Settings

theorem misses_strangers (rows : Rows) : (strangers rows).Misses False := by
  unfold strangers
  split
  · exact Verdict.misses_accepted ()
  · next hsome => exact ⟨by simp, by simpa using hsome⟩

def verdict (accounts : Accounts) (rows : Rows) : Verdict (Settings × Unit) :=
  (Validation.sections accounts rows).both (strangers rows)

theorem misses_verdict (accounts : Accounts) (rows : Rows) :
    (verdict accounts rows).Misses (Validation.AstrayDocument accounts rows) :=
  ((Validation.misses_sections accounts rows).both (misses_strangers rows)).congr (by simp)

def Named (rows : Rows) : Prop := ∀ row ∈ rows, isText row.1 = true

theorem ofRows_error_iff {accounts : Accounts} {rows : Rows} {e : SettingsFault} :
    ofRows accounts rows = .error e ↔
      ¬ Named rows ∧ e = .unnamedSection ∨
      Named rows ∧ (Validation.AstrayDocument accounts rows ∧ e = .homeless ∨
        ∃ issue rest, verdict accounts rows = .rejected (issue :: rest) ∧ e = .invalid issue) := by
  have hmisses := misses_verdict accounts rows
  unfold ofRows
  by_cases hnamed : Named rows
  · have hall : (rows.all fun row => isText row.1) = true := by simpa [Named] using hnamed
    have hfold : (Validation.sections accounts rows).both (strangers rows) =
      verdict accounts rows := rfl
    rw [hall, hfold, ← hmisses.homeless_iff]
    cases hv : verdict accounts rows with
    | accepted s => simp [hnamed]
    | rejected issues =>
      cases issues with
      | nil => exact absurd hv hmisses.reasoned
      | cons issue rest => simp [hnamed, eq_comm]
    | homeless => simp [hnamed, eq_comm]
  · have hall : (rows.all fun row => isText row.1) = false := by
      simpa [Named, List.all_eq_false] using hnamed
    simp [hall, hnamed, eq_comm]

end Settings

/-! ## Files -/

def SettingsFault.number? (e : SettingsFault) : Option Nat :=
  e.config?.map fun c => c.coded.code.number

namespace SettingsFile

def Holds (files : FileTree) (current path : Path) (cs : List Char) : Prop :=
  holdsNul path.text = false ∧
    ∃ octets, files.read (current.below path) = .ok octets ∧ Utf8.decode octets = .ok cs

/-- The text of the file is no document, or a document that is neither empty nor a mapping. -/
def Unparsable (loader : Yaml.Loader) (files : FileTree) (current path : Path) : Prop :=
  ∃ cs, Holds files current path cs ∧
    ((∃ what line column,
        loader.load (Text.unifyNewlines cs) = .error (.malformed what line column)) ∨
      ∃ v, loader.load (Text.unifyNewlines cs) = .ok v ∧ v.isEmpty = false ∧ ∀ rows, v ≠ .map rows)

/-- The file is a directory, has too long a name or octets that are no text, or its reader fails
where the text is a document: a tag asks for a value that its text is not, say. -/
inductive Escapes (loader : Yaml.Loader) (files : FileTree) (current path : Path) : Prop
  | unreadable (hnul : holdsNul path.text = false) (e : Errno)
      (hread : files.read (current.below path) = .error e)
      (he : e = .isDirectory ∨ e = .nameTooLong)
  | undecodable (hnul : holdsNul path.text = false) (octets : List UInt8)
      (hread : files.read (current.below path) = .ok octets) (e : Utf8.Invalid)
      (hdecode : Utf8.decode octets = .error e)
  | unevaluated (cs : List Char) (hholds : Holds files current path cs) (e : Yaml.Fault)
      (hload : loader.load (Text.unifyNewlines cs) = .error e)
      (he : ∀ what line column, e ≠ .malformed what line column)

end SettingsFile

theorem FileTree.read_error {t : FileTree} {p : Path} {e : Errno} (h : t.read p = .error e) :
    e = .isDirectory ∨ e = .noEntry ∨ e = .notDirectory ∨ e = .nameTooLong := by
  unfold read at h
  split at h
  · next he =>
    cases h
    exact .inr (find_error he)
  · cases h
    exact .inl rfl
  · cases h

namespace SettingsFile

variable {loader : Yaml.Loader} {files : FileTree} {current path : Path}

theorem number?_unparsable (path : Path) (e : Yaml.Fault) :
    (∃ what line column, e = .malformed what line column ∧
        (SettingsFault.unparsable path e).number? = some 2001) ∨
      (∀ what line column, e ≠ .malformed what line column) ∧
        (SettingsFault.unparsable path e).number? = none := by
  cases e with
  | malformed what line column => exact .inl ⟨what, line, column, rfl, rfl⟩
  | _ => exact .inr ⟨by simp, rfl⟩

theorem parse_error {cs : List Char} (hholds : Holds files current path cs) {e : SettingsFault}
    (h : parse loader path cs = .error e) :
    e.number? = some 2001 ∧ Unparsable loader files current path ∨
      e.number? = none ∧ Escapes loader files current path := by
  unfold parse at h
  split at h
  · next fault hload =>
    cases h
    rcases number?_unparsable path fault with ⟨what, line, column, rfl, hnumber⟩ | ⟨hother, hnumber⟩
    · exact .inl ⟨hnumber, cs, hholds, .inl ⟨what, line, column, hload⟩⟩
    · exact .inr ⟨hnumber, .unevaluated cs hholds fault hload hother⟩
  · next v hload =>
    split at h
    · cases h
    · next hempty =>
      split at h
      · cases h
      · next hmap =>
        cases h
        exact .inl ⟨rfl, cs, hholds, .inr ⟨v, hload, by simpa using hempty, hmap⟩⟩

theorem load_error {e : SettingsFault} (h : load loader files current path = .error e) :
    e.number? = some 2001 ∧ Unparsable loader files current path ∨
      e.number? = none ∧ Escapes loader files current path := by
  unfold load at h
  split at h
  · cases h
  · next hnul =>
    have hplain : holdsNul path.text = false := by simpa using hnul
    split at h
    · cases h
    · cases h
    · next why hentry hdirectory hread =>
      cases h
      refine .inr ⟨rfl, .unreadable hplain why hread ?_⟩
      rcases FileTree.read_error hread with he | he | he | he
      · exact .inl he
      · exact absurd he hentry
      · exact absurd he hdirectory
      · exact .inr he
    · next octets hread =>
      unfold decode at h
      split at h
      · next invalid hdecode =>
        cases h
        exact .inr ⟨rfl, .undecodable hplain octets hread invalid hdecode⟩
      · next cs hdecode => exact parse_error ⟨hplain, octets, hread, hdecode⟩ h

theorem load_of_holds {cs : List Char} (h : Holds files current path cs) :
    load loader files current path = parse loader path cs := by
  obtain ⟨hnul, octets, hread, hdecode⟩ := h
  simp [load, hnul, hread, decode, hdecode]

theorem Unparsable.load_error (h : Unparsable loader files current path) :
    ∃ e, load loader files current path = .error e ∧ e.number? = some 2001 := by
  obtain ⟨cs, hholds, ⟨what, line, column, hload⟩ | ⟨v, hload, hempty, hmap⟩⟩ := h
  · refine ⟨.unparsable path (.malformed what line column), ?_, rfl⟩
    rw [load_of_holds hholds, parse, hload]
  · refine ⟨.notMapping path, ?_, rfl⟩
    rw [load_of_holds hholds, parse, hload]
    cases v with
    | map rows => exact absurd rfl (hmap rows)
    | scalar s => simp [hempty]
    | list items => simp [hempty]

theorem Escapes.load_error (h : Escapes loader files current path) :
    ∃ e, load loader files current path = .error e ∧ e.number? = none := by
  cases h with
  | unreadable hnul e hread he =>
    refine ⟨.unreadable path e, ?_, rfl⟩
    rcases he with rfl | rfl <;> simp [load, hnul, hread]
  | undecodable hnul octets hread e hdecode =>
    exact ⟨.undecodable e, by simp [load, hnul, hread, decode, hdecode], rfl⟩
  | unevaluated cs hholds e hload he =>
    refine ⟨.unparsable path e, by rw [load_of_holds hholds, parse, hload], ?_⟩
    rcases number?_unparsable path e with ⟨what, line, column, rfl, _⟩ | ⟨_, hnumber⟩
    · exact absurd rfl (he what line column)
    · exact hnumber

end SettingsFile

/-! ## Variables -/

namespace Environment

variable {vars : Table (List Char) String} {s : Section}

/-- A variable of the section has to hold a JSON text and does not. Where the variable of the whole
section holds something other than a mapping, those of its keys are not read. -/
def Garbles (vars : Table (List Char) String) (s : Section) : Prop :=
  (∃ text, vars.get? (stem ++ s.title.toList) = some text ∧ Json.read text = none) ∨
    (∀ text, vars.get? (stem ++ s.title.toList) = some text →
        ∃ rows, Json.read text = some (.map rows)) ∧
      ∃ key ∈ s.structured, ∃ text, vars.get? (nameOf s key) = some text ∧ text ≠ "" ∧
        Json.read text = none

theorem split_ne_nil (cs : List Char) : split cs ≠ [] := by
  fun_induction split cs <;> simp_all

theorem eq_of_split {cs part : List Char} (h : split cs = [part]) : cs = part := by
  fun_induction split cs generalizing part with
  | case1 => simpa using h
  | case2 rest ih => simp [split_ne_nil] at h
  | case3 c rest _ hnil ih => exact absurd hnil (split_ne_nil rest)
  | case4 c rest _ first parts hsplit ih =>
    simp only [List.cons.injEq] at h
    obtain ⟨rfl, rfl⟩ := h
    rw [ih hsplit]

theorem split_structured : ∀ s ∈ Section.all, ∀ key ∈ s.structured,
    split key.toList = [key.toList] := by
  decide +kernel

theorem keyValue?_eq_none_iff {chain : List String} {last text : String} :
    keyValue? s chain last text = none ↔
      chain = [] ∧ last ∈ s.structured ∧ text ≠ "" ∧ Json.read text = none := by
  unfold keyValue?
  split
  · next h =>
    obtain ⟨rfl, hlast, htext⟩ := h
    simp_all
  · next h => simp_all

theorem addKey_eq_none_iff (hs : s ∈ Section.all) (rows : Rows) (row : List Char × String) :
    addKey s rows row = none ↔
      ∃ key ∈ s.structured, row.1 = nameOf s key ∧ row.2 ≠ "" ∧ Json.read row.2 = none := by
  unfold addKey
  split
  · next hstem =>
    refine iff_of_false (by simp) ?_
    rintro ⟨key, _, hrow, _⟩
    have hsome := List.isPrefixOf?_eq_some_iff_append_eq.2 hrow.symm
    rw [hstem] at hsome
    cases hsome
  · next name hstem =>
    have hrow := List.isPrefixOf?_eq_some_iff_append_eq.1 hstem
    rw [Option.map_eq_none_iff, keyValue?_eq_none_iff]
    constructor
    · rintro ⟨hchain, hlast, htext, hread⟩
      obtain ⟨part, hpart⟩ : ∃ part, split name = [part] := by
        cases hsplit : split name with
        | nil => exact absurd hsplit (split_ne_nil name)
        | cons part parts => cases parts <;> simp [hsplit] at hchain ⊢
      rw [← eq_of_split hpart] at hpart
      refine ⟨String.ofList name, by simpa [hpart] using hlast, ?_, htext, hread⟩
      rw [← hrow, nameOf, String.toList_ofList]
    · rintro ⟨key, hkey, hname, htext, hread⟩
      obtain rfl : name = key.toList := List.append_cancel_left (hrow.trans hname)
      simp [split_structured s hs key hkey, hkey, htext, hread]

theorem keysOf_eq_none_iff (hs : s ∈ Section.all) :
    keysOf vars s = none ↔ ∃ key ∈ s.structured, ∃ text,
      vars.get? (nameOf s key) = some text ∧ text ≠ "" ∧ Json.read text = none := by
  have hnone : ∀ entries : List (List Char × String),
      entries.foldl (fun rows row => rows.bind fun rows => addKey s rows row) none = none := by
    intro entries
    induction entries with
    | nil => rfl
    | cons row rest ih => exact ih
  have hfold : ∀ (entries : List (List Char × String)) (rows : Rows),
      entries.foldl (fun rows row => rows.bind fun rows => addKey s rows row) (some rows) = none ↔
        ∃ row ∈ entries, ∃ key ∈ s.structured,
          row.1 = nameOf s key ∧ row.2 ≠ "" ∧ Json.read row.2 = none := by
    intro entries
    induction entries with
    | nil => simp
    | cons row rest ih =>
      intro rows
      rw [List.foldl_cons, Option.bind_some, List.exists_mem_cons_iff, ← addKey_eq_none_iff hs rows]
      cases hadd : addKey s rows row with
      | none => simp [hnone]
      | some out => simp [ih out]
  rw [keysOf, hfold]
  constructor
  · rintro ⟨row, hrow, key, hkey, hname, htext, hread⟩
    refine ⟨key, hkey, row.2, ?_, htext, hread⟩
    rw [Table.get?_eq_some_iff, ← hname]
    exact hrow
  · rintro ⟨key, hkey, text, hget, htext, hread⟩
    exact ⟨_, (Table.get?_eq_some_iff ..).1 hget, key, hkey, rfl, htext, hread⟩

theorem sectionValue_eq_none_iff (hs : s ∈ Section.all) :
    sectionValue vars s = none ↔ Garbles vars s := by
  unfold sectionValue Garbles
  rw [← keysOf_eq_none_iff hs]
  cases hget : vars.get? (stem ++ s.title.toList) with
  | none => simp
  | some text =>
    cases hread : Json.read text with
    | none => simp [hread]
    | some v =>
      cases v with
      | map rows => simp [hread]
      | list items => simp [hread]
      | scalar c => cases c <;> simp [hread]

theorem sections_error_iff {all : List Section} (hall : ∀ s ∈ all, s ∈ Section.all) :
    (∃ s, sections vars all = .error s) ↔ ∃ s ∈ all, Garbles vars s := by
  induction all with
  | nil => simp [sections]
  | cons s rest ih =>
    obtain ⟨hs, hrest⟩ := List.forall_mem_cons.1 hall
    rw [List.exists_mem_cons_iff, ← sectionValue_eq_none_iff hs, ← ih hrest, sections]
    cases hv : sectionValue vars s with
    | none => simp
    | some value =>
      cases hsections : sections vars rest with
      | error t => simp [Except.map]
      | ok rows => simp [Except.map]

end Environment

/-! ## Names of sections -/

namespace Settings

theorem isText_iff (name : Scalar) : isText name = true ↔ ∃ t, name.key = .text t := by
  cases name with
  | text t => simp [isText, Scalar.key]
  | float x =>
    simp only [isText, Scalar.key]
    split <;> simp
  | null => simp [isText, Scalar.key]
  | bool b => simp [isText, Scalar.key]
  | int n => simp [isText, Scalar.key]

theorem named_iff (rows : Rows) : Named rows ↔ ∀ k ∈ Rows.keys rows, ∃ t, k = .text t := by
  simp only [Named, isText_iff, Rows.keys, List.forall_mem_map]

theorem mem_keys_overlay (k : Key) (rows upper : Rows) :
    k ∈ Rows.keys (Rows.overlay rows upper) ↔ k ∈ Rows.keys rows ∨ k ∈ Rows.keys upper := by
  induction upper generalizing rows with
  | nil => simp [Rows.overlay, Rows.keys]
  | cons row rest ih =>
    have hput : ∀ v, k ∈ Rows.keys (rows.put row.1 v) ↔ k ∈ Rows.keys rows ∨ k = row.1.key := by
      intro v
      rw [Rows.keys_put]
      split
      · next hmem =>
        refine (or_iff_left_of_imp ?_).symm
        rintro rfl
        exact hmem
      · simp
    rw [Rows.overlay, ih, hput]
    simp [Rows.keys, or_assoc]

theorem named_overlay (rows upper : Rows) :
    Named (Rows.overlay rows upper) ↔ Named rows ∧ Named upper := by
  simp only [named_iff, mem_keys_overlay, or_imp, forall_and]

theorem named_arrange (arguments : Rows) : Named (arrange arguments) ↔ Named arguments := by
  have hkeys : ∀ k, k ∈ Rows.keys (arrange arguments) ↔ k ∈ Rows.keys arguments := by
    intro k
    rw [← not_iff_not, ← Rows.find?_eq_none_iff, ← Rows.find?_eq_none_iff, find?_arrange]
  simp only [named_iff, hkeys]

theorem named_sections {vars : Table (List Char) String} {all : List Section} {rows : Rows}
    (h : Environment.sections vars all = .ok rows) : Named rows := by
  induction all generalizing rows with
  | nil =>
    cases h
    simp [Named]
  | cons s rest ih =>
    rw [Environment.sections] at h
    split at h
    · cases h
    · next value hvalue =>
      obtain ⟨more, hmore, rfl⟩ := exceptMap_eq_ok h
      cases value with
      | none => exact ih hmore
      | some v => exact List.forall_mem_cons.2 ⟨rfl, ih hmore⟩

/-! ## Loading -/

section Loading

variable {src : SettingsSources} {root : Path} {arguments : Rows}

def Reads (src : SettingsSources) (root : Path) (user repository : Rows) : Prop :=
  src.read src.userFile = .ok user ∧
    src.read (repositoryFile root) = .ok repository

theorem load_error_iff {e : SettingsFault} :
    load src root arguments = .error e ↔
      ¬ Named arguments ∧ e = .unnamedSection ∨
      Named arguments ∧
        (src.read src.userFile = .error e ∨
        (∃ user, src.read src.userFile = .ok user ∧
          src.read (repositoryFile root) = .error e) ∨
        ∃ user repository, Reads src root user repository ∧
          ((∃ s, Environment.sections (Environment.lowered src.environment) Section.all =
              .error s ∧ e = .garbledVariable s.title) ∨
          ∃ environment,
            Environment.sections (Environment.lowered src.environment) Section.all =
              .ok environment ∧
            ofRows src.accounts (mergeOf user repository environment arguments) = .error e)) := by
  unfold load
  by_cases hnamed : Named arguments
  · have hall : (arguments.all fun row => isText row.1) = true := by simpa [Named] using hnamed
    cases huser : src.read src.userFile with
    | error fault => simp [hall, hnamed, mergedRows, fileRows, Reads, huser]
    | ok user =>
      cases hrepository : src.read (repositoryFile root) with
      | error fault => simp [hall, hnamed, mergedRows, fileRows, Reads, huser, hrepository]
      | ok repository =>
        cases henvironment :
            Environment.sections (Environment.lowered src.environment) Section.all with
        | error s =>
          simp [hall, hnamed, mergedRows, fileRows, Reads, huser, hrepository, henvironment,
            eq_comm]
        | ok environment =>
          have hfold : Rows.overlay (Rows.overlay user repository)
              (Rows.overlay environment (arrange arguments)) =
              mergeOf user repository environment arguments := rfl
          simp only [hall, hnamed, mergedRows, fileRows, Reads, huser, hrepository, henvironment,
            hfold]
          cases hrows : ofRows src.accounts (mergeOf user repository environment arguments) with
          | error fault => simp [hrows]
          -- Settings that are made are read again without a fault.
          | ok t => simp [hrows, (valid_of_ofRows hrows).reread]
  · have hall : (arguments.all fun row => isText row.1) = false := by
      simpa [Named, List.all_eq_false] using hnamed
    simp [hall, hnamed, eq_comm]

theorem Valid.measured {s : Settings} (h : s.Valid) : s.measured.Valid :=
  ⟨h.outputs, h.workers, h.size, h.decay, h.weight, h.precision⟩

def Unparsable (src : SettingsSources) (root : Path) (arguments : Rows) : Prop :=
  Named arguments ∧
    (SettingsFile.Unparsable src.loader src.files src.current src.userFile ∨
    (∃ user, src.read src.userFile = .ok user) ∧
      SettingsFile.Unparsable src.loader src.files src.current (repositoryFile root))

/-- All sources are read, their sections have names, and this is the first complaint about what they
say together. -/
def Rejects (src : SettingsSources) (root : Path) (arguments : Rows) (issue : Issue) : Prop :=
  Named arguments ∧ ∃ user repository environment rest, Reads src root user repository ∧
    Environment.sections (Environment.lowered src.environment) Section.all = .ok environment ∧
    Named user ∧ Named repository ∧
    verdict src.accounts (mergeOf user repository environment arguments) =
      .rejected (issue :: rest)

/-- What ends the loading of settings without an error of the settings. -/
inductive Escapes (src : SettingsSources) (root : Path) (arguments : Rows) : Prop
  | argument (hnamed : ¬ Named arguments)
  | userFile (hnamed : Named arguments)
      (hfile : SettingsFile.Escapes src.loader src.files src.current src.userFile)
  | repositoryFile (hnamed : Named arguments) (user : Rows)
      (huser : src.read src.userFile = .ok user)
      (hfile : SettingsFile.Escapes src.loader src.files src.current (repositoryFile root))
  | garbled (hnamed : Named arguments) (user repository : Rows)
      (hreads : Reads src root user repository) (s : Section) (hs : s ∈ Section.all)
      (hgarbles : Environment.Garbles (Environment.lowered src.environment) s)
  | unnamed (hnamed : Named arguments) (user repository : Rows)
      (hreads : Reads src root user repository)
      (hclear : ∀ s ∈ Section.all, ¬ Environment.Garbles (Environment.lowered src.environment) s)
      (hunnamed : ¬ (Named user ∧ Named repository))
  | homeless (hnamed : Named arguments) (user repository environment : Rows)
      (hreads : Reads src root user repository)
      (henvironment : Environment.sections (Environment.lowered src.environment) Section.all =
        .ok environment)
      (huser : Named user) (hrepository : Named repository)
      (hastray : Validation.AstrayDocument src.accounts
        (mergeOf user repository environment arguments))

theorem named_mergeOf {user repository environment : Rows} (harguments : Named arguments)
    (henvironment : Environment.sections (Environment.lowered src.environment) Section.all =
      .ok environment) :
    Named (mergeOf user repository environment arguments) ↔ Named user ∧ Named repository := by
  have hupper : Named environment ∧ Named (arrange arguments) :=
    ⟨named_sections henvironment, (named_arrange arguments).2 harguments⟩
  simp only [mergeOf, named_overlay, hupper, and_true]

theorem sections_ok_iff :
    (∃ environment,
        Environment.sections (Environment.lowered src.environment) Section.all = .ok environment) ↔
      ∀ s ∈ Section.all, ¬ Environment.Garbles (Environment.lowered src.environment) s := by
  have herror := @Environment.sections_error_iff (Environment.lowered src.environment) Section.all
    fun _ hs => hs
  cases h : Environment.sections (Environment.lowered src.environment) Section.all with
  | error s => simpa [h] using herror
  | ok environment => simpa [h] using herror

theorem Unparsable.load_error (h : Unparsable src root arguments) :
    ∃ e, load src root arguments = .error e ∧ e.number? = some 2001 := by
  obtain ⟨hnamed, huser | ⟨⟨user, huser⟩, hrepository⟩⟩ := h
  · obtain ⟨e, he, hnumber⟩ := huser.load_error
    exact ⟨e, load_error_iff.2 (.inr ⟨hnamed, .inl he⟩), hnumber⟩
  · obtain ⟨e, he, hnumber⟩ := hrepository.load_error
    exact ⟨e, load_error_iff.2 (.inr ⟨hnamed, .inr (.inl ⟨user, huser, he⟩)⟩), hnumber⟩

theorem load_error_of_ofRows {user repository environment : Rows} {e : SettingsFault}
    (hnamed : Named arguments) (hreads : Reads src root user repository)
    (henvironment : Environment.sections (Environment.lowered src.environment) Section.all =
      .ok environment)
    (h : ofRows src.accounts (mergeOf user repository environment arguments) = .error e) :
    load src root arguments = .error e :=
  load_error_iff.2 (.inr ⟨hnamed, .inr (.inr ⟨user, repository, hreads,
    .inr ⟨environment, henvironment, h⟩⟩)⟩)

theorem Rejects.load_error {issue : Issue} (h : Rejects src root arguments issue) :
    load src root arguments = .error (.invalid issue) := by
  obtain ⟨hnamed, user, repository, environment, rest, hreads, henvironment, hu, hr, hverdict⟩ := h
  exact load_error_of_ofRows hnamed hreads henvironment (ofRows_error_iff.2
    (.inr ⟨(named_mergeOf hnamed henvironment).2 ⟨hu, hr⟩, .inr ⟨issue, rest, hverdict, rfl⟩⟩))

theorem Escapes.load_error (h : Escapes src root arguments) :
    ∃ e, load src root arguments = .error e ∧ e.number? = none := by
  cases h with
  | argument hnamed => exact ⟨.unnamedSection, load_error_iff.2 (.inl ⟨hnamed, rfl⟩), rfl⟩
  | userFile hnamed hfile =>
    obtain ⟨e, he, hnumber⟩ := hfile.load_error
    exact ⟨e, load_error_iff.2 (.inr ⟨hnamed, .inl he⟩), hnumber⟩
  | repositoryFile hnamed user huser hfile =>
    obtain ⟨e, he, hnumber⟩ := hfile.load_error
    exact ⟨e, load_error_iff.2 (.inr ⟨hnamed, .inr (.inl ⟨user, huser, he⟩)⟩), hnumber⟩
  | garbled hnamed user repository hreads s hs hgarbles =>
    obtain ⟨t, ht⟩ := (Environment.sections_error_iff fun _ ht => ht).2 ⟨s, hs, hgarbles⟩
    exact ⟨.garbledVariable t.title, load_error_iff.2 (.inr ⟨hnamed, .inr (.inr
      ⟨user, repository, hreads, .inl ⟨t, ht, rfl⟩⟩)⟩), rfl⟩
  | unnamed hnamed user repository hreads hclear hunnamed =>
    obtain ⟨environment, henvironment⟩ := sections_ok_iff.2 hclear
    rw [← named_mergeOf hnamed henvironment] at hunnamed
    exact ⟨.unnamedSection, load_error_of_ofRows hnamed hreads henvironment
      (ofRows_error_iff.2 (.inl ⟨hunnamed, rfl⟩)), rfl⟩
  | homeless hnamed user repository environment hreads henvironment hu hr hastray =>
    exact ⟨.homeless, load_error_of_ofRows hnamed hreads henvironment (ofRows_error_iff.2
      (.inr ⟨(named_mergeOf hnamed henvironment).2 ⟨hu, hr⟩, .inl ⟨hastray, rfl⟩⟩)), rfl⟩

end Loading

namespace Sample

/-! Sources that nothing is wrong with but one thing. -/

def bare (files : FileTree) : SettingsSources where
  files := files
  current := ⟨.root, []⟩
  userFile := ⟨.root, ["u.yaml"]⟩
  loader := .builtin
  environment := []
  accounts := ⟨none, []⟩

end Sample

end Settings

end SymbolAtlas
