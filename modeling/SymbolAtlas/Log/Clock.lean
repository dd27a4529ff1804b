import SymbolAtlas.Decimal.Style

/-!
Times as log records show them.
-/

set_option autoImplicit false

namespace SymbolAtlas.Clock

def secondsPerDay : Nat := 86400

structure Date where
  year : Nat
  month : Nat
  day : Nat
  deriving DecidableEq, Repr

/-- The date some days after the first of January 1970. Years are counted from March, so that a
leap day is the last of its year; 400 years have 146097 days. -/
def dateOf (days : Nat) : Date :=
  let shifted := days + 719468
  let era := shifted / 146097
  let inEra := shifted % 146097
  let yearInEra := (inEra - inEra / 1460 + inEra / 36524 - inEra / 146096) / 365
  let inYear := inEra - (365 * yearInEra + yearInEra / 4 - yearInEra / 100)
  let fromMarch := (5 * inYear + 2) / 153
  let month := if fromMarch < 10 then fromMarch + 3 else fromMarch - 9
  let year := yearInEra + era * 400 + (if month ≤ 2 then 1 else 0)
  ⟨year, month, inYear - (153 * fromMarch + 2) / 5 + 1⟩

def twoDigits (n : Nat) : String := String.ofList (padLeft 2 '0' (natDigits n))

/-- The time some seconds after the beginning of 1970, as `2024-01-31 12:00:00`. -/
def text (seconds : Nat) : String :=
  let date := dateOf (seconds / secondsPerDay)
  let inDay := seconds % secondsPerDay
  writeNat date.year ++ "-" ++ twoDigits date.month ++ "-" ++ twoDigits date.day ++ " " ++
    twoDigits (inDay / 3600) ++ ":" ++ twoDigits (inDay / 60 % 60) ++ ":" ++ twoDigits (inDay % 60)

end SymbolAtlas.Clock
