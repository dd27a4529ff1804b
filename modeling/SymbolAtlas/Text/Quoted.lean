import SymbolAtlas.Text.Printable
import SymbolAtlas.Decimal.Style

/-!
Quoted text, in the two spellings the program writes: the display form of messages, which keeps
every printable character, and the JSON form, which is plain ASCII.
-/

set_option autoImplicit false

namespace SymbolAtlas.Text

def numberEscape (c : Char) : List Char :=
  let n := c.toNat
  if n < 0x100 then '\\' :: 'x' :: hexDigits 2 n
  else if n < 0x10000 then '\\' :: 'u' :: hexDigits 4 n
  else '\\' :: 'U' :: hexDigits 8 n

/-- The display form holds apostrophes, unless only these stand inside. -/
def displayQuote (cs : List Char) : Char :=
  if cs.contains '\x27' && !cs.contains '"' then '"' else '\x27'

def displayChar (quote c : Char) : List Char :=
  if c = quote ∨ c = '\\' then ['\\', c]
  else if c = '\n' then ['\\', 'n']
  else if c = '\r' then ['\\', 'r']
  else if c = '\t' then ['\\', 't']
  else if isPrintable c then [c]
  else numberEscape c

def display (s : String) : String :=
  let quote := displayQuote s.toList
  String.ofList (quote :: s.toList.flatMap (displayChar quote) ++ [quote])

def unitEscape (n : Nat) : List Char := '\\' :: 'u' :: hexDigits 4 n

/-- A character beyond the first plane is written as a pair of surrogates. -/
def jsonNumberEscape (n : Nat) : List Char :=
  if n < 0x10000 then unitEscape n
  else
    unitEscape (0xD800 + (n - 0x10000) / 0x400) ++ unitEscape (0xDC00 + (n - 0x10000) % 0x400)

def jsonChar (c : Char) : List Char :=
  if c = '"' then ['\\', '"']
  else if c = '\\' then ['\\', '\\']
  else if c = '\n' then ['\\', 'n']
  else if c = '\r' then ['\\', 'r']
  else if c = '\t' then ['\\', 't']
  else if c = '\x08' then ['\\', 'b']
  else if c = '\x0c' then ['\\', 'f']
  else if 0x20 ≤ c.toNat ∧ c.toNat < 0x7F then [c]
  else jsonNumberEscape c.toNat

def jsonQuoted (s : String) : List Char := '"' :: s.toList.flatMap jsonChar ++ ['"']

end SymbolAtlas.Text
