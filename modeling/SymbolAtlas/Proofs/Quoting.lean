import Mathlib.Data.Nat.Basic
import Mathlib.Tactic.Ring
import Mathlib.Tactic.SplitIfs
import SymbolAtlas.Json.Read
import SymbolAtlas.Text.Quoted

/-!
Digits and quoted text are read back. A character beyond the first plane is written as two units and
joined again, and no other two units are ever joined.
-/

set_option autoImplicit false

namespace SymbolAtlas

/-! ## Digits -/

theorem digitValue_digitChar : ∀ d < 16, digitValue (Nat.digitChar d) = d := by decide

theorem isHexDigit_digitChar : ∀ d < 16, isHexDigit (Nat.digitChar d) = true := by decide

theorem ofDigits_append (base : Nat) (cs ds : List Char) :
    ofDigits base (cs ++ ds) = ofDigits base cs * base ^ ds.length + ofDigits base ds := by
  have hfold : ∀ start : Nat, ds.foldl (fun n c => n * base + digitValue c) start =
      start * base ^ ds.length + ofDigits base ds := by
    induction ds with
    | nil => simp [ofDigits]
    | cons d rest ih =>
      intro start
      rw [ofDigits, List.foldl_cons, List.foldl_cons, ih, ih, List.length_cons, pow_succ]
      ring
  rw [ofDigits, List.foldl_append]
  exact hfold _

theorem ofDigits_toDigits {base : Nat} (hbase : 1 < base) (hle : base ≤ 16) (n : Nat) :
    ofDigits base (Nat.toDigits base n) = n := by
  induction n using Nat.strongRecOn with
  | _ n ih =>
    rw [Nat.toDigits_eq_if hbase]
    split
    · next hlt => simpa [ofDigits] using digitValue_digitChar n (hlt.trans_le hle)
    · next hge =>
      have hmod : n % base < base := Nat.mod_lt n (by omega)
      have hdigit : ofDigits base [Nat.digitChar (n % base)] = n % base := by
        simpa [ofDigits] using digitValue_digitChar _ (hmod.trans_le hle)
      rw [ofDigits_append, ih _ (Nat.div_lt_self (by omega) hbase), hdigit]
      simpa [Nat.mul_comm] using Nat.div_add_mod n base

theorem mem_toDigits {base : Nat} (hbase : 1 < base) {n : Nat} {c : Char}
    (h : c ∈ Nat.toDigits base n) : ∃ d < base, c = Nat.digitChar d := by
  induction n using Nat.strongRecOn with
  | _ n ih =>
    rw [Nat.toDigits_eq_if hbase] at h
    split at h
    · next hlt => exact ⟨n, hlt, by simpa using h⟩
    · next hge =>
      rcases List.mem_append.1 h with hfront | hlast
      · exact ih _ (Nat.div_lt_self (by omega) hbase) hfront
      · exact ⟨n % base, Nat.mod_lt n (by omega), by simpa using hlast⟩

theorem ofDigits_zeros (base k : Nat) : ofDigits base (List.replicate k '0') = 0 := by
  induction k with
  | zero => rfl
  | succ k ih =>
    rw [List.replicate_succ', ofDigits_append, ih]
    simp [ofDigits, digitValue]

theorem ofDigits_padLeft (base width : Nat) (cs : List Char) :
    ofDigits base (padLeft width '0' cs) = ofDigits base cs := by
  rw [padLeft, ofDigits_append, ofDigits_zeros]
  simp

theorem hexDigits_four {n : Nat} (h : n < 65536) :
    ∃ a b c d, hexDigits 4 n = [a, b, c, d] ∧ [a, b, c, d].all isHexDigit = true ∧
      ofDigits 16 [a, b, c, d] = n := by
  have hlen : (Nat.toDigits 16 n).length ≤ 4 :=
    (Nat.length_toDigits_le_iff (by decide) (by decide)).2 h
  have hwidth : (hexDigits 4 n).length = 4 := by
    simp only [hexDigits, padLeft, List.length_append, List.length_replicate]
    omega
  have hvalue : ofDigits 16 (hexDigits 4 n) = n := by
    rw [hexDigits, ofDigits_padLeft, ofDigits_toDigits (by decide) le_rfl]
  have hall : (hexDigits 4 n).all isHexDigit = true := by
    rw [List.all_eq_true]
    intro c hc
    rcases List.mem_append.1 hc with hzero | hdigit
    · rw [List.eq_of_mem_replicate hzero]
      decide
    · obtain ⟨d, hd, rfl⟩ := mem_toDigits (by decide) hdigit
      exact isHexDigit_digitChar d hd
  match hexDigits 4 n, hwidth, hvalue, hall with
  | [a, b, c, d], _, hvalue, hall => exact ⟨a, b, c, d, rfl, hall, hvalue⟩

/-! ## Quoted text -/

namespace Json

open Text

theorem readCodes_unit {n : Nat} (h : n < 65536) (cs : List Char) :
    readCodes (unitEscape n ++ cs) = (readCodes cs).map fun p => (n :: p.1, p.2) := by
  obtain ⟨a, b, c, d, hdigits, hall, hvalue⟩ := hexDigits_four h
  simp [unitEscape, hdigits, readCodes, hall, hvalue]

def units (c : Char) : List Nat :=
  if c.toNat < 65536 then [c.toNat]
  else [0xD800 + (c.toNat - 0x10000) / 0x400, 0xDC00 + (c.toNat - 0x10000) % 0x400]

theorem toNat_bounds (c : Char) :
    c.toNat < 0x110000 ∧ (c.toNat < 0xD800 ∨ 0xDFFF < c.toNat) := by
  rcases c.valid with h | ⟨hlow, hhigh⟩
  · have hlt : c.toNat < 0xD800 := h
    omega
  · exact ⟨hhigh, .inr hlow⟩

theorem readCodes_letter {letter c : Char} (h : letterEscape? letter = some c) (cs : List Char) :
    readCodes ('\\' :: letter :: cs) = (readCodes cs).map fun p => (c.toNat :: p.1, p.2) := by
  have hu : letter ≠ 'u' := by
    rintro rfl
    cases h
  simp [readCodes, hu, h]

theorem readCodes_plain {c : Char} (hlow : 0x20 ≤ c.toNat) (hquote : c ≠ '"') (hslash : c ≠ '\\')
    (cs : List Char) :
    readCodes (c :: cs) = (readCodes cs).map fun p => (c.toNat :: p.1, p.2) := by
  have hnot : ¬ c.toNat < 0x20 := by omega
  simp [readCodes, hslash, hnot]

theorem readCodes_number (c : Char) (cs : List Char) :
    readCodes (jsonNumberEscape c.toNat ++ cs) =
      (readCodes cs).map fun p => (units c ++ p.1, p.2) := by
  have hbounds := (toNat_bounds c).1
  unfold jsonNumberEscape units
  split
  · next hone => exact readCodes_unit hone cs
  · next htwo =>
    rw [List.append_assoc, readCodes_unit (by omega), readCodes_unit (by omega), Option.map_map]
    rfl

/-- A character is written with a letter, as it stands, or by its number. -/
theorem jsonChar_cases (c : Char) :
    (∃ letter, letterEscape? letter = some c ∧ jsonChar c = ['\\', letter]) ∨
      (0x20 ≤ c.toNat ∧ c.toNat < 0x7F ∧ c ≠ '"' ∧ c ≠ '\\' ∧ jsonChar c = [c]) ∨
      jsonChar c = jsonNumberEscape c.toNat := by
  unfold jsonChar
  split_ifs with hquote hslash hn hr ht hb hf hplain
  · exact .inl ⟨'"', by rw [hquote]; rfl, rfl⟩
  · exact .inl ⟨'\\', by rw [hslash]; rfl, rfl⟩
  · exact .inl ⟨'n', by rw [hn]; rfl, rfl⟩
  · exact .inl ⟨'r', by rw [hr]; rfl, rfl⟩
  · exact .inl ⟨'t', by rw [ht]; rfl, rfl⟩
  · exact .inl ⟨'b', by rw [hb]; rfl, rfl⟩
  · exact .inl ⟨'f', by rw [hf]; rfl, rfl⟩
  · exact .inr (.inl ⟨hplain.1, hplain.2, hquote, hslash, rfl⟩)
  · exact .inr (.inr rfl)

theorem letterEscape?_bounds {letter c : Char} (h : letterEscape? letter = some c) :
    letter.toNat < 128 ∧ c.toNat < 128 := by
  unfold letterEscape? at h
  split at h
  all_goals cases h
  all_goals decide

theorem readCodes_jsonChar (c : Char) (cs : List Char) :
    readCodes (jsonChar c ++ cs) = (readCodes cs).map fun p => (units c ++ p.1, p.2) := by
  rcases jsonChar_cases c with ⟨letter, hletter, hjson⟩ | ⟨hlow, hhigh, hquote, hslash, hjson⟩ |
    hjson
  · have hunits : units c = [c.toNat] := if_pos ((letterEscape?_bounds hletter).2.trans (by decide))
    rw [hjson, hunits]
    exact readCodes_letter hletter cs
  · have hunits : units c = [c.toNat] := if_pos (hhigh.trans (by decide))
    rw [hjson, hunits]
    exact readCodes_plain hlow hquote hslash cs
  · rw [hjson]
    exact readCodes_number c cs

theorem codeChar_toNat (c : Char) : codeChar c.toNat = c := by
  have hbounds := (toNat_bounds c).2
  have hhigh : isHigh c.toNat = false := by simp [isHigh]; omega
  have hlow : isLow c.toNat = false := by simp [isLow]; omega
  simp [codeChar, hhigh, hlow]

theorem joinPairs_units (c : Char) (codes : List Nat) :
    joinPairs (units c ++ codes) = c :: joinPairs codes := by
  obtain ⟨hmax, hgap⟩ := toNat_bounds c
  unfold units
  split
  · have hhigh : isHigh c.toNat = false := by simp [isHigh]; omega
    cases codes with
    | nil => simp [joinPairs, codeChar_toNat]
    | cons low rest => simp [joinPairs, hhigh, codeChar_toNat]
  · next hwide =>
    -- The two units hold the upper and the lower ten bits of what is beyond the first plane.
    have hhigh : isHigh (0xD800 + (c.toNat - 0x10000) / 0x400) = true := by simp [isHigh]; omega
    have hlow : isLow (0xDC00 + (c.toNat - 0x10000) % 0x400) = true := by simp [isLow]; omega
    have hvalue : 0x10000 + (0xD800 + (c.toNat - 0x10000) / 0x400 - 0xD800) * 0x400 +
        (0xDC00 + (c.toNat - 0x10000) % 0x400 - 0xDC00) = c.toNat := by omega
    simp only [List.cons_append, List.nil_append, joinPairs, hhigh, hlow, hvalue, Char.ofNat_toNat,
      and_self, if_true]

theorem readCodes_quoted (cs rest : List Char) :
    readCodes (cs.flatMap jsonChar ++ '"' :: rest) = some (cs.flatMap units, rest) := by
  induction cs with
  | nil => simp [readCodes]
  | cons c cs ih =>
    rw [List.flatMap_cons, List.append_assoc, readCodes_jsonChar, ih]
    simp

theorem joinPairs_flatMap (cs : List Char) : joinPairs (cs.flatMap units) = cs := by
  induction cs with
  | nil => rfl
  | cons c cs ih => rw [List.flatMap_cons, joinPairs_units, ih]

/-- Text is read back from its quoted form, after the opening quote. -/
theorem readText_quoted (s : String) (rest : List Char) :
    readText (s.toList.flatMap jsonChar ++ '"' :: rest) = some (s, rest) := by
  simp [readText, readCodes_quoted, joinPairs_flatMap]

end Json

/-! ## Plain characters -/

namespace Text

def Ascii (cs : List Char) : Prop := ∀ c ∈ cs, c.toNat < 128

instance decidableAscii (cs : List Char) : Decidable (Ascii cs) :=
  decidable_of_iff ((cs.all fun c => c.toNat < 128) = true) (by simp [Ascii])

theorem ascii_append {cs ds : List Char} : Ascii (cs ++ ds) ↔ Ascii cs ∧ Ascii ds :=
  List.forall_mem_append

theorem ascii_cons {c : Char} {cs : List Char} : Ascii (c :: cs) ↔ c.toNat < 128 ∧ Ascii cs :=
  List.forall_mem_cons

theorem ascii_replicate (k : Nat) {c : Char} (h : c.toNat < 128) : Ascii (List.replicate k c) := by
  intro d hd
  rwa [List.eq_of_mem_replicate hd]

theorem ascii_toDigits {base : Nat} (hbase : 1 < base) (hle : base ≤ 16) (n : Nat) :
    Ascii (Nat.toDigits base n) := by
  have hdigit : ∀ d < 16, (Nat.digitChar d).toNat < 128 := by decide
  intro c hc
  obtain ⟨d, hd, rfl⟩ := mem_toDigits hbase hc
  exact hdigit d (hd.trans_le hle)

theorem ascii_unitEscape (n : Nat) : Ascii (unitEscape n) := by
  refine ascii_cons.2 ⟨by decide, ascii_cons.2 ⟨by decide, ascii_append.2 ⟨?_, ?_⟩⟩⟩
  · exact ascii_replicate _ (by decide)
  · exact ascii_toDigits (by decide) le_rfl n

theorem ascii_jsonChar (c : Char) : Ascii (jsonChar c) := by
  rcases Json.jsonChar_cases c with ⟨letter, hletter, hjson⟩ | ⟨_, hhigh, _, _, hjson⟩ | hjson
  · rw [hjson]
    have hbound := (Json.letterEscape?_bounds hletter).1
    exact ascii_cons.2 ⟨by decide, ascii_cons.2 ⟨hbound, by simp [Ascii]⟩⟩
  · rw [hjson]
    exact ascii_cons.2 ⟨by omega, by simp [Ascii]⟩
  · rw [hjson, jsonNumberEscape]
    split
    · exact ascii_unitEscape _
    · exact ascii_append.2 ⟨ascii_unitEscape _, ascii_unitEscape _⟩

theorem ascii_jsonQuoted (s : String) : Ascii (jsonQuoted s) := by
  refine ascii_append.2 ⟨ascii_cons.2 ⟨by decide, ?_⟩, by simp [Ascii]⟩
  intro d hd
  obtain ⟨c, _, hd⟩ := List.mem_flatMap.1 hd
  exact ascii_jsonChar c d hd

end Text

end SymbolAtlas
