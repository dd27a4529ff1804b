import SymbolAtlas.Language.Packs
import SymbolAtlas.Proofs.Depths
import SymbolAtlas.Proofs.Tables
import SymbolAtlas.Registry

/-!
Two readings of a path text. Its language hangs on the suffix of the last segment that is named, its
depth on the segments that are left once steps up are taken. A segment with a suffix is no step up
and nothing follows it, so it is also the last one that is left.
-/

set_option autoImplicit false

namespace SymbolAtlas

namespace Path

/-! ## The last segment -/

def left (s : String) : List (List Char) :=
  spoken ((normalize (slashed s.toList)).dropWhile (· = '/'))

theorem depth_eq_left (s : String) : depth s = (left s).length := rfl

theorem left_eq_collapse (s : String) :
    left s = ((named s).foldl (push (anchorOf (slashed s.toList) ≠ .relative)) []).reverse := by
  rw [left, spoken_dropWhile, spoken_normalize, collapse, ← foldl_push_spoken, ← spoken,
    named_eq_spoken]

theorem getLast?_left {s : String} {name : List Char} (h : (named s).getLast? = some name)
    (hup : name ≠ up) : (left s).getLast? = some name := by
  obtain ⟨before, hbefore⟩ := List.getLast?_eq_some_iff.1 h
  have hidle : isIdle name = false := by
    have hmem : name ∈ named s := List.mem_of_getLast? h
    rw [named_eq_spoken, spoken, List.mem_filter] at hmem
    simpa using hmem.2
  rw [left_eq_collapse, hbefore, List.foldl_append, List.getLast?_reverse]
  simp [push, hidle, isUp_eq_false hup]

theorem suffix_eq (s : String) :
    suffix s = ((named s).getLast?.map fun name => String.ofList (nameSuffix name)).getD "" := by
  rw [suffix, ← spoken, ← named_eq_spoken]
  cases (named s).getLast? <;> rfl

theorem exists_name_of_suffix {s : String} (h : suffix s ≠ "") :
    ∃ name, (named s).getLast? = some name ∧ suffix s = String.ofList (nameSuffix name) ∧
      name ≠ up := by
  have hsuffix := suffix_eq s
  cases hlast : (named s).getLast? with
  | none =>
    rw [hlast] at hsuffix
    exact absurd hsuffix h
  | some name =>
    rw [hlast] at hsuffix
    refine ⟨name, rfl, hsuffix, ?_⟩
    rintro rfl
    exact h hsuffix

theorem one_le_depth {s : String} (h : suffix s ≠ "") : 1 ≤ depth s := by
  obtain ⟨name, hname, -, hup⟩ := exists_name_of_suffix h
  have hmem := List.mem_of_getLast? (getLast?_left hname hup)
  rw [depth_eq_left]
  exact List.length_pos_of_mem hmem

end Path

/-! ## The pack of an extension -/

namespace Table

variable {κ α β : Type} [DecidableEq κ]

theorem get?_foldl_insert_same (keys : List κ) (a : α) (t : Table κ α) (k : κ) :
    ((keys.map fun key => (key, a)).foldl (fun t row => t.insert row.1 row.2) t).get? k =
      if k ∈ keys then some a else t.get? k := by
  induction keys generalizing t with
  | nil => rfl
  | cons key rest ih =>
    rw [List.map_cons, List.foldl_cons, ih, get?_insert]
    by_cases hr : k ∈ rest
    · simp [hr]
    · by_cases hk : key = k
      · simp [hk]
      · simp [hr, hk, Ne.symm hk]

/-- Where several rows bring a key, the last of them has it. -/
theorem get?_ofList_flatMap (rows : List β) (keys : β → List κ) (f : β → α) (k : κ) :
    (ofList (rows.flatMap fun b => (keys b).map fun key => (key, f b))).get? k =
      (rows.filter fun b => k ∈ keys b).getLast?.map f := by
  induction rows using List.reverseRecOn with
  | nil => rfl
  | append_singleton rows b ih =>
    rw [ofList, List.flatMap_append, List.foldl_append, ← ofList, List.flatMap_singleton,
      get?_foldl_insert_same, ih, List.filter_append]
    by_cases hb : k ∈ keys b
    · simp [hb]
    · simp [hb]

end Table

theorem PackTable.languageFor_eq (packs : PackTable) (path : String) :
    packs.languageFor path =
      (packs.entries.filter fun row => Path.suffix path ∈ row.2.extensions).getLast?.map
        Prod.fst :=
  Table.get?_ofList_flatMap packs.entries (fun row => row.2.extensions) Prod.fst _

theorem Packs.forPath_eq (path : String) :
    Packs.forPath path =
      (Packs.table.entries.filter fun row => Path.suffix path ∈ row.2.extensions).getLast?.map
        Prod.snd :=
  Table.get?_ofList_flatMap Packs.table.entries (fun row => row.2.extensions) Prod.snd _

theorem Packs.language_of_mem {row : Language × Pack} (h : row ∈ Packs.table.entries) :
    row.2.language = row.1 := by
  have hnodup : ((Packs.shipped.map fun p => (p.language, p)).map Prod.fst).Nodup := by decide
  have hentries : Packs.table.entries = Packs.shipped.map fun p => (p.language, p) :=
    Table.entries_ofList _ hnodup
  rw [hentries] at h
  obtain ⟨p, -, rfl⟩ := List.mem_map.1 h
  rfl

theorem Packs.languageFor_eq_forPath (path : String) :
    Packs.table.languageFor path = (Packs.forPath path).map Pack.language := by
  rw [PackTable.languageFor_eq, Packs.forPath_eq, Option.map_map]
  cases hlast : (Packs.table.entries.filter fun row =>
      Path.suffix path ∈ row.2.extensions).getLast? with
  | none => rfl
  | some row =>
    have hmem := (List.mem_filter.1 (List.mem_of_getLast? hlast)).1
    exact congrArg some (Packs.language_of_mem hmem).symm

theorem PackTable.exists_row_of_languageFor {packs : PackTable} {path : String}
    {language : Language} (h : packs.languageFor path = some language) :
    ∃ row ∈ packs.entries, row.1 = language ∧ Path.suffix path ∈ row.2.extensions := by
  rw [languageFor_eq] at h
  obtain ⟨row, hlast, hrow⟩ := Option.map_eq_some_iff.1 h
  obtain ⟨hmem, hsuffix⟩ := List.mem_filter.1 (List.mem_of_getLast? hlast)
  exact ⟨row, hmem, hrow, by simpa using hsuffix⟩

/-- The segment whose suffix is taken is the last of those that make the depth, so a path with a
language by its suffix is not at the root. The shipped packs are found alike by language and by
extension, and where packs share an extension the last one in the table has it. -/
theorem path_readings_agree :
    (∀ s, Path.suffix s ≠ "" → ∃ name, (Path.named s).getLast? = some name ∧
      Path.suffix s = String.ofList (Path.nameSuffix name) ∧
      (Path.left s).getLast? = some name) ∧
    (∀ s, Path.depth s = (Path.left s).length) ∧
    (∀ (r : Registry) (path : String) (language : Language), r.languageFor path = some language →
      (∃ row ∈ r.packs.entries, row.1 = language ∧ Path.suffix path ∈ row.2.extensions) ∧
      (Path.suffix path ≠ "" → 1 ≤ Path.depth path)) ∧
    (∀ path, (Registry.ofPacks Packs.table).languageFor path =
      (Packs.forPath path).map Pack.language) ∧
    ∀ (r : Registry) (path : String), r.languageFor path =
      (r.packs.entries.filter fun row => Path.suffix path ∈ row.2.extensions).getLast?.map
        Prod.fst := by
  refine ⟨fun s hs => ?_, Path.depth_eq_left, fun r path language h => ?_,
    Packs.languageFor_eq_forPath, fun r => r.packs.languageFor_eq⟩
  · obtain ⟨name, hname, hsuffix, hup⟩ := Path.exists_name_of_suffix hs
    exact ⟨name, hname, hsuffix, Path.getLast?_left hname hup⟩
  · exact ⟨PackTable.exists_row_of_languageFor h, Path.one_le_depth⟩

namespace PackTable.Sample

def overlapping : PackTable := .ofPacks
  [⟨.python, "", "", none, [".py"], .patterns []⟩,
   ⟨.ruby, "", "", none, [".rb", ".py"], .patterns []⟩]

/-- A path that leads up, names a segment with a point and ends with nothing said. -/
def winding : String := "a/..\\../x.d/./..main.py\\."

theorem readings_of_winding : Path.suffix winding ≠ "" ∧
    (Path.left winding).getLast? = some "..main.py".toList ∧
    (Registry.ofPacks overlapping).languageFor winding = some .ruby ∧ 1 ≤ Path.depth winding := by
  obtain ⟨hlast, -, hregistered, -, hlanguage⟩ := path_readings_agree
  have hsuffix : Path.suffix winding ≠ "" := by decide +kernel
  have hruby : (Registry.ofPacks overlapping).languageFor winding = some .ruby :=
    (hlanguage (Registry.ofPacks overlapping) winding).trans (by decide +kernel)
  obtain ⟨name, hname, -, hleft⟩ := hlast winding hsuffix
  have hnamed : (Path.named winding).getLast? = some "..main.py".toList := by decide +kernel
  cases hnamed.symm.trans hname
  exact ⟨hsuffix, hleft, hruby, (hregistered _ winding .ruby hruby).2 hsuffix⟩

end PackTable.Sample

end SymbolAtlas
