import SymbolAtlas.Decimal.Significant

/-!
The shortest decimal that reads back as a given double. On the grid of one, two, … digits the two
neighbours of the value are tried; the first grid with a hit wins, and of two hits the nearer.
-/

set_option autoImplicit false

namespace SymbolAtlas

open scoped Power

namespace Binary64

/-- The reals that round to `mantissa * 2 ^ exponent`, in quarters of the unit `2 ^ exponent`.
Below a power of two the spacing is halved. -/
structure Span where
  low : Nat
  high : Nat
  closed : Bool

def span (mantissa : Nat) (exponent : Int) : Span where
  low := 4 * mantissa - (if mantissa = 2 ^ (52 : Nat) ∧ leastExponent < exponent then 1 else 2)
  high := 4 * mantissa + 2
  closed := mantissa % 2 = 0

def Span.holds (s : Span) (n d : Nat) : Bool :=
  if s.closed then s.low * d ≤ n && n ≤ s.high * d else s.low * d < n && n < s.high * d

def readsBack (mantissa : Nat) (exponent : Int) (x : Decimal) : Bool :=
  let (n, d) := x.ratio
  let (n', d') := scaleDown n d 2 (exponent - 2)
  (span mantissa exponent).holds n' d'

/-- Of the two neighbours of `n / d` on the grid of `10 ^ place`, the nearer one that reads back. -/
def neighbour? (mantissa : Nat) (exponent : Int) (n d : Nat) (place : Int) : Option Decimal :=
  let (n', d') := scaleDown n d 10 place
  let near := roundDiv n' d'
  let far := if near = n' / d' then near + 1 else n' / d'
  [near, far].map (fun c => (⟨c, place⟩ : Decimal)) |>.find? (readsBack mantissa exponent)

/-- Seventeen digits tell every double apart from its neighbours. -/
def enoughDigits : Nat := 17

def shortest (mantissa : Nat) (exponent : Int) : Decimal :=
  let (n, d) := scaleDown mantissa 1 2 (-exponent)
  let place := leadingPlace n d
  let tries := (List.range enoughDigits).filterMap fun (k : Nat) =>
    neighbour? mantissa exponent n d (place - k)
  tries.head?.getD (Decimal.significant enoughDigits n d)

end Binary64

end SymbolAtlas
