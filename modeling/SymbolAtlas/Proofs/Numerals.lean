import SymbolAtlas.Proofs.Shortest

/-!
Written numbers are read back: with a point among the digits, with zeros in front of them, or with
an exponent. Main statement: the text of a finite double is read as that double, the sign of a zero
included.
-/

set_option autoImplicit false

namespace SymbolAtlas

/-! ## Runs of digits -/

def Stops (rest : List Char) : Prop :=
  ∀ c, rest.head? = some c → c.isDigit = false ∧ c ≠ 'e' ∧ c ≠ 'E'

def Digits (ds : List Char) : Prop := ∀ c ∈ ds, c.isDigit = true

theorem digits_natDigits (n : Nat) : Digits (natDigits n) :=
  fun _ hc => Nat.isDigit_of_mem_toDigits (by decide) (by decide) hc

theorem digits_replicate (k : Nat) : Digits (List.replicate k '0') := by
  intro c hc
  rw [List.eq_of_mem_replicate hc]
  decide

theorem digits_append {ds es : List Char} : Digits (ds ++ es) ↔ Digits ds ∧ Digits es :=
  List.forall_mem_append

theorem takeWhile_digits {ds rest : List Char} (hds : Digits ds)
    (hrest : ∀ c, rest.head? = some c → c.isDigit = false) :
    (ds ++ rest).takeWhile Char.isDigit = ds ∧ (ds ++ rest).dropWhile Char.isDigit = rest := by
  rw [List.takeWhile_append_of_pos hds, List.dropWhile_append_of_pos hds]
  cases rest with
  | nil => simp
  | cons c rest => simp [hrest c rfl]

theorem natDigits_head {n : Nat} (hn : 0 < n) : ∃ c rest, natDigits n = c :: rest ∧ c ≠ '0' := by
  unfold natDigits
  induction n using Nat.strongRecOn with
  | _ n ih =>
    rw [Nat.toDigits_eq_if (by decide)]
    split
    · exact ⟨n.digitChar, [], rfl, by simpa using hn.ne'⟩
    · next hge =>
      obtain ⟨c, rest, hdigits, hc⟩ := ih (n / 10) (by omega) (by omega)
      exact ⟨c, rest ++ [Nat.digitChar (n % 10)], by rw [hdigits]; rfl, hc⟩

theorem ofDigits_natDigits (n : Nat) : ofDigits 10 (natDigits n) = n :=
  ofDigits_toDigits (by decide) (by decide) n

/-! ## Reading the parts of a number -/

theorem readExponent?_stops {rest : List Char} (h : Stops rest) : readExponent? rest = none := by
  cases rest with
  | nil => rfl
  | cons c rest =>
    obtain ⟨_, he, hE⟩ := h c rfl
    simp [readExponent?, he, hE]

theorem readExponent?_written (width : Nat) (place : Int) {rest : List Char} (h : Stops rest) :
    readExponent? ('e' :: (if place < 0 then '-' else '+') ::
      (padLeft width '0' (natDigits place.natAbs) ++ rest)) = some (place, rest) := by
  have hds : Digits (padLeft width '0' (natDigits place.natAbs)) :=
    digits_append.2 ⟨digits_replicate _, digits_natDigits _⟩
  have hne : padLeft width '0' (natDigits place.natAbs) ≠ [] := by
    simp [padLeft, natDigits]
  have hvalue : ofDigits 10 (padLeft width '0' (natDigits place.natAbs)) = place.natAbs := by
    rw [ofDigits_padLeft, ofDigits_natDigits]
  obtain ⟨htake, hdrop⟩ := takeWhile_digits hds fun c hc => (h c hc).1
  by_cases hneg : place < 0
  · have habs : -(place.natAbs : Int) = place := by omega
    simp only [hneg, if_true, readExponent?, readSign, htake, hdrop, hne, if_false, hvalue, habs,
      true_or]
  · have habs : (place.natAbs : Int) = place := by omega
    simp only [hneg, if_false, readExponent?, readSign, htake, hdrop, hne, hvalue, habs, true_or,
      if_true, Bool.false_eq_true]

namespace Json

theorem readWhole_digits {ds rest : List Char} (hds : Digits ds) {c : Char} {more : List Char}
    (hhead : ds = c :: more) (hc : c ≠ '0')
    (hrest : ∀ c, rest.head? = some c → c.isDigit = false) :
    readWhole (ds ++ rest) = some (ds, rest) := by
  obtain ⟨htake, hdrop⟩ := takeWhile_digits hds hrest
  subst hhead
  rw [List.cons_append] at *
  unfold readWhole
  split
  · next heq => exact absurd (List.cons.inj heq).1 hc
  · simp [htake, hdrop]

theorem readFraction_digits {ds rest : List Char} (hds : Digits ds) (hne : ds ≠ [])
    (hrest : ∀ c, rest.head? = some c → c.isDigit = false) :
    readFraction ('.' :: (ds ++ rest)) = (ds, rest) := by
  obtain ⟨htake, hdrop⟩ := takeWhile_digits hds hrest
  simp [readFraction, htake, hdrop, hne]

theorem readMagnitude_point (negative : Bool) {whole fraction rest : List Char}
    (hwhole : ∀ more, more.head? = some '.' → readWhole (whole ++ more) = some (whole, more))
    (hfraction : Digits fraction) (hne : fraction ≠ []) (hrest : Stops rest) :
    readMagnitude negative (whole ++ '.' :: (fraction ++ rest)) =
      some (.float (Numeral.toFloat ⟨negative, whole, fraction, 0⟩), rest) := by
  have hread := readFraction_digits hfraction hne fun c hc => (hrest c hc).1
  unfold readMagnitude
  rw [hwhole _ rfl]
  simp only [hread, readExponent?_stops hrest, hne, ne_eq, not_false_eq_true, if_true]

theorem readMagnitude_exponent (negative : Bool) {whole fraction rest : List Char} (width : Nat)
    (place : Int)
    (hwhole : ∀ more : List Char, (∀ c, more.head? = some c → c.isDigit = false) →
      readWhole (whole ++ more) = some (whole, more))
    (hfraction : Digits fraction) (hrest : Stops rest) :
    readMagnitude negative (whole ++ ((if fraction = [] then [] else '.' :: fraction) ++
      'e' :: (if place < 0 then '-' else '+') ::
        (padLeft width '0' (natDigits place.natAbs) ++ rest))) =
      some (.float (Numeral.toFloat ⟨negative, whole, fraction, place⟩), rest) := by
  have hexponent := readExponent?_written width place hrest
  unfold readMagnitude
  by_cases hempty : fraction = []
  · subst hempty
    rw [hwhole _ (by simp)]
    simp [readFraction, hexponent]
  · have hread : readFraction ('.' :: (fraction ++ 'e' :: (if place < 0 then '-' else '+') ::
        (padLeft width '0' (natDigits place.natAbs) ++ rest))) = (fraction, _) :=
      readFraction_digits hfraction hempty (by simp)
    rw [if_neg hempty, hwhole _ (by simp)]
    simp only [List.cons_append, hread, hexponent]

end Json

/-! ## Writing decimals -/

theorem Numeral.value_decimal (x : Numeral) :
    x.decimal.value =
      ofDigits 10 (x.whole ++ x.fraction) * 10 ^ (x.exponent - (x.fraction.length : Int)) :=
  rfl

/-- What is read from a text: a number with a value and a sign, and the rest. -/
def ReadAs (negative : Bool) (value : ℚ) (cs rest : List Char) : Prop :=
  ∃ num : Numeral, Json.readMagnitude negative cs = some (.float num.toFloat, rest) ∧
    num.negative = negative ∧ num.decimal.value = value

def afterPoint (whole : Nat) (ds : List Char) : List Char :=
  if (padRight whole '0' ds).drop whole = [] then ['0'] else (padRight whole '0' ds).drop whole

theorem afterPoint_ne_nil (whole : Nat) (ds : List Char) : afterPoint whole ds ≠ [] := by
  unfold afterPoint
  split
  · simp
  · next hne => exact hne

theorem digits_afterPoint (whole : Nat) {ds : List Char} (h : Digits ds) :
    Digits (afterPoint whole ds) := by
  have hpadded : Digits (padRight whole '0' ds) := digits_append.2 ⟨h, digits_replicate _⟩
  unfold afterPoint
  split
  · simp [Digits]
  · exact fun c hc => hpadded c (List.mem_of_mem_drop hc)

theorem pointAfter_eq (whole : Nat) (ds : List Char) :
    pointAfter whole ds = (padRight whole '0' ds).take whole ++ '.' :: afterPoint whole ds :=
  rfl

theorem ofDigits_pointAfter (whole : Nat) (ds : List Char) :
    (ofDigits 10 ((padRight whole '0' ds).take whole ++ afterPoint whole ds) : ℚ) *
        10 ^ ((0 : Int) - ((afterPoint whole ds).length : Int)) =
      ofDigits 10 ds * 10 ^ ((whole : Int) - ds.length) := by
  by_cases hlong : ds.length ≤ whole
  · have hlength : (padRight whole '0' ds).length = whole := by
      simp [padRight, hlong]
    have hafter : afterPoint whole ds = ['0'] := by
      rw [afterPoint, List.drop_of_length_le hlength.le, if_pos rfl]
    have hvalue : ofDigits 10 (padRight whole '0' ds ++ ['0']) =
        ofDigits 10 ds * 10 ^ (whole - ds.length) * 10 := by
      rw [ofDigits_append, padRight, ofDigits_append, ofDigits_zeros, List.length_replicate]
      simp [ofDigits, digitValue]
    rw [hafter, List.take_of_length_le hlength.le, hvalue,
      show (whole : Int) - ds.length = ((whole - ds.length : Nat) : Int) by omega, zpow_natCast]
    push_cast
    norm_num
    ring
  · have hpadded : padRight whole '0' ds = ds := by
      rw [padRight, show whole - ds.length = 0 by omega, List.replicate_zero, List.append_nil]
    have hne : ds.drop whole ≠ [] := by
      rw [ne_eq, List.drop_eq_nil_iff]
      omega
    have hafter : afterPoint whole ds = ds.drop whole := by
      rw [afterPoint, hpadded, if_neg hne]
    rw [hafter, hpadded, List.take_append_drop, List.length_drop,
      show (0 : Int) - ((ds.length - whole : Nat) : Int) = (whole : Int) - ds.length by omega]

section Layouts

variable (negative : Bool) {n : Nat} (hn : 0 < n) {rest : List Char} (hrest : Stops rest)

include hn hrest

theorem readAs_pointAfter {whole : Nat} (hwhole : 0 < whole) :
    ReadAs negative (n * 10 ^ ((whole : Int) - (natDigits n).length))
      (pointAfter whole (natDigits n) ++ rest) rest := by
  have hds : Digits (padRight whole '0' (natDigits n)) :=
    digits_append.2 ⟨digits_natDigits n, digits_replicate _⟩
  obtain ⟨c, more, hdigits, hc⟩ := natDigits_head hn
  obtain ⟨front, hfront⟩ : ∃ front, (padRight whole '0' (natDigits n)).take whole = c :: front := by
    obtain ⟨k, rfl⟩ := Nat.exists_eq_succ_of_ne_zero hwhole.ne'
    exact ⟨_, by rw [padRight, hdigits]; rfl⟩
  refine ⟨⟨negative, (padRight whole '0' (natDigits n)).take whole,
    afterPoint whole (natDigits n), 0⟩, ?_, rfl, ?_⟩
  · rw [pointAfter_eq, List.append_assoc, List.cons_append]
    refine Json.readMagnitude_point negative (fun more hmore => ?_)
      (digits_afterPoint whole (digits_natDigits n)) (afterPoint_ne_nil whole _) hrest
    refine Json.readWhole_digits (fun d hd => hds d (List.mem_of_mem_take hd)) hfront hc ?_
    intro d hd
    cases hmore.symm.trans hd
    rfl
  · rw [Numeral.value_decimal, ofDigits_pointAfter, ofDigits_natDigits]

omit hn in
theorem readAs_zeros (zeros : Nat) :
    ReadAs negative (n * 10 ^ (-(zeros : Int) - (natDigits n).length))
      ('0' :: '.' :: (List.replicate zeros '0' ++ natDigits n) ++ rest) rest := by
  refine ⟨⟨negative, ['0'], List.replicate zeros '0' ++ natDigits n, 0⟩, ?_, rfl, ?_⟩
  · show Json.readMagnitude negative (['0'] ++ '.' ::
      ((List.replicate zeros '0' ++ natDigits n) ++ rest)) = _
    refine Json.readMagnitude_point negative (fun more _ => rfl) ?_ ?_ hrest
    · exact digits_append.2 ⟨digits_replicate zeros, digits_natDigits n⟩
    · simp [natDigits]
  · have hvalue : ofDigits 10 (['0'] ++ (List.replicate zeros '0' ++ natDigits n)) = n := by
      rw [← List.append_assoc, ← List.replicate_one, List.replicate_append_replicate,
        ofDigits_append, ofDigits_zeros, ofDigits_natDigits, zero_mul, zero_add]
    rw [Numeral.value_decimal, hvalue, List.length_append, List.length_replicate]
    congr 2
    push_cast
    ring

theorem readAs_exponent (width : Nat) (place : Int) :
    ReadAs negative (n * 10 ^ (place + 1 - (natDigits n).length))
      ((natDigits n).take 1 ++ (if (natDigits n).drop 1 = [] then [] else
        '.' :: (natDigits n).drop 1) ++ 'e' :: (if place < 0 then '-' else '+') ::
          padLeft width '0' (natDigits place.natAbs) ++ rest) rest := by
  have hds := digits_natDigits n
  obtain ⟨c, more, hdigits, hc⟩ := natDigits_head hn
  have hfirst : (natDigits n).take 1 = [c] := by rw [hdigits]; rfl
  have hothers : Digits ((natDigits n).drop 1) := fun d hd => hds d (List.mem_of_mem_drop hd)
  refine ⟨⟨negative, (natDigits n).take 1, (natDigits n).drop 1, place⟩, ?_, rfl, ?_⟩
  · have htext := Json.readMagnitude_exponent negative width place
      (fun more hmore => Json.readWhole_digits (fun d hd => hds d (List.mem_of_mem_take hd)) hfirst
        hc hmore) hothers hrest
    simpa only [List.append_assoc, List.cons_append] using htext
  · rw [Numeral.value_decimal, List.take_append_drop, ofDigits_natDigits, List.length_drop]
    have hlength : 1 ≤ (natDigits n).length := by simp [hdigits]
    rw [show place - (((natDigits n).length - 1 : Nat) : Int) =
      place + 1 - (natDigits n).length by omega]

end Layouts

/-- A decimal that is written in any style is read with its value. -/
theorem readAs_writeDecimal (style : NumberStyle) (negative : Bool) {x : Decimal}
    (hx : 0 < x.coefficient) {rest : List Char} (hrest : Stops rest) :
    ReadAs negative x.value (style.writeDecimal x ++ rest) rest := by
  have hlength : 1 ≤ (natDigits x.coefficient).length := by
    obtain ⟨c, more, hdigits, _⟩ := natDigits_head hx
    simp [hdigits]
  unfold NumberStyle.writeDecimal Decimal.value
  dsimp only
  split
  · split
    · next hplace =>
      have h := readAs_pointAfter negative hx hrest
        (show 0 < ((natDigits x.coefficient).length - 1 + x.exponent : Int).toNat + 1 by omega)
      convert h using 3
      omega
    · next hplace =>
      have h := readAs_zeros negative (n := x.coefficient) hrest
        ((-((natDigits x.coefficient).length - 1 + x.exponent : Int)).toNat - 1)
      convert h using 3
      · omega
      · rfl
  · have h := readAs_exponent negative hx hrest style.exponentDigits
      ((natDigits x.coefficient).length - 1 + x.exponent : Int)
    convert h using 3
    omega

/-! ## Doubles -/

theorem Decimal.value_strip (fuel : Nat) (x : Decimal) : (x.strip fuel).value = x.value := by
  induction fuel generalizing x with
  | zero => rfl
  | succ fuel ih =>
    rw [strip]
    split
    · next h =>
      have hten : 10 * (x.coefficient / 10) = x.coefficient := by omega
      have hten' : (10 : ℚ) * ((x.coefficient / 10 : Nat) : ℚ) = x.coefficient := by
        exact_mod_cast hten
      rw [ih, value, value, zpow_add_one₀ (by norm_num), ← hten']
      ring
    · rfl

namespace Binary64

theorem toBits_finite (negative : Bool) (m : Nat) (e : Int) :
    (finite negative m e).toBits = signBits negative + (finite false m e).toBits := by
  have hfalse : signBits false = 0 := rfl
  simp only [toBits, hfalse]
  split <;> omega

theorem ofBits_finite {bits : Nat} (hbits : bits < 2 ^ 64) (h : bits / 2 ^ 52 % 2 ^ 11 ≠ 2047) :
    ∃ negative m e, ofBits bits = .finite negative m e ∧ Canonical m e ∧
      (finite negative m e).toBits = bits := by
  have hf := Nat.mod_lt bits (show 0 < 2 ^ 52 by decide)
  have hlt := Nat.mod_lt (bits / 2 ^ 52) (show 0 < 2 ^ 11 by decide)
  have hsign : signBits (decide (bits / 2 ^ 63 % 2 = 1)) = bits / 2 ^ 63 * 2 ^ 63 := by
    unfold signBits
    split
    · next hone =>
      simp only [decide_eq_true_eq] at hone
      omega
    · next hzero =>
      simp only [decide_eq_true_eq] at hzero
      omega
  by_cases h0 : bits / 2 ^ 52 % 2 ^ 11 = 0
  · refine ⟨_, _, _, by simp only [ofBits, h0]; rfl, ⟨by omega, le_rfl, by decide, fun hlt =>
      absurd hlt (by decide)⟩, ?_⟩
    rw [toBits, if_pos hf, hsign]
    omega
  · refine ⟨_, _, _, by simp only [ofBits, h, h0]; rfl, ⟨by omega, by omega, by omega, fun _ => by
      omega⟩, ?_⟩
    rw [toBits, if_neg (by omega), hsign]
    omega

end Binary64

theorem toFloat_of_rounds {x : Float} {negative : Bool} {m : Nat} {e : Int}
    (hx : (Binary64.finite negative m e).toBits = x.toBits.toNat) {num : Numeral}
    (hnegative : num.negative = negative)
    (hbits : num.decimal.toBinary64.toBits = (Binary64.finite false m e).toBits) :
    num.toFloat = x := by
  obtain ⟨bits, _, hsigned⟩ := num.decimal.toBits_toBinary64
  have hplain : num.decimal.toBinary64.toBits = bits := by
    simpa [Binary64.signBits] using hsigned false
  have hall : (if num.negative then num.decimal.toBinary64.negate
      else num.decimal.toBinary64).toBits = x.toBits.toNat := by
    rw [hsigned, ← hplain, hbits, hnegative, ← Binary64.toBits_finite, hx]
  rw [Numeral.toFloat, Binary64.toFloat, hall, UInt64.ofNat_toNat, Float.ofBits_toBits]

namespace NumberStyle

/-- A finite double is written as a sign and a text that is read as the double. -/
theorem write_finite (style : NumberStyle) {x : Float} (hx : x.isFinite = true) :
    ∃ (negative : Bool) (body : List Char),
      (style.write x).toList = (if negative then '-' :: body else body) ∧
      ∀ rest, Stops rest → Json.readMagnitude negative (body ++ rest) = some (.float x, rest) := by
  obtain ⟨negative, m, e, hread, hcanonical, hbits⟩ :=
    Binary64.ofBits_finite x.toBits.toNat_lt ((isFinite_iff x).1 hx)
  have hofFloat : Binary64.ofFloat x = .finite negative m e := hread
  refine ⟨negative, _, by simp only [write, hofFloat, String.toList_ofList]; rfl, ?_⟩
  intro rest hrest
  rcases Nat.eq_zero_or_pos m with rfl | hm
  · have hzero : (Numeral.mk negative ['0'] ['0'] 0).toFloat = x := by
      have hdecimal : (Decimal.mk 0 (-1)).toBinary64.toBits = 0 := by decide
      have hpattern : (Binary64.finite false 0 e).toBits = 0 := by
        simp [Binary64.toBits, Binary64.signBits]
      exact toFloat_of_rounds hbits rfl (hdecimal.trans hpattern.symm)
    rw [if_pos rfl, ← hzero]
    show Json.readMagnitude negative (['0'] ++ '.' :: (['0'] ++ rest)) = _
    exact Json.readMagnitude_point negative (fun more _ => rfl) (by simp [Digits]) (by simp) hrest
  · have hrounds := Binary64.rounds_shortest hcanonical hm
    rw [← Decimal.value_strip 400] at hrounds
    obtain ⟨num, hnum, hnegative, hvalue⟩ :=
      readAs_writeDecimal style negative (Decimal.coefficient_pos (hrounds.pos hm)) hrest
    rw [if_neg hm.ne', hnum]
    rw [← hvalue] at hrounds
    rw [toFloat_of_rounds hbits hnegative
      (Decimal.toBits_toBinary64_of_rounds hcanonical hm hrounds)]

end NumberStyle

end SymbolAtlas
