/-!
Lines of octets and of characters.
-/

set_option autoImplicit false

namespace SymbolAtlas.Text

def newline : UInt8 := 10

/-- How many lines a file has. A last line counts also without its end mark. -/
def lineCount (octets : List UInt8) : Nat :=
  octets.count newline + (if octets ≠ [] ∧ octets.getLast? ≠ some newline then 1 else 0)

def lineAt (octets : List UInt8) (index : Nat) : Nat := 1 + (octets.take index).count newline

/-- How many octets stand between the last line end and an octet. -/
def columnAt (octets : List UInt8) (index : Nat) : Nat :=
  ((octets.take index).reverse.takeWhile (· ≠ newline)).length

/-- The three customary line ends read as one. -/
def unifyNewlines : List Char → List Char
  | [] => []
  | '\r' :: '\n' :: rest => '\n' :: unifyNewlines rest
  | c :: rest => (if c = '\r' then '\n' else c) :: unifyNewlines rest

end SymbolAtlas.Text
