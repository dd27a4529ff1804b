import SymbolAtlas.Error

/-!
What can be wrong with a YAML text.
-/

set_option autoImplicit false

namespace SymbolAtlas.Yaml

inductive Fault
  | malformed (what : String) (line column : Nat)
  | badInteger (base : Nat) (text : String)
  | longInteger (digits : Nat)
  | badNumber (text : String)
  | emptyNumber
  | badBoolean (text : String)
  | badCharacter
  | hugeCharacter
  /-- The reader itself fails. -/
  | raised (crash : Crash)
  deriving DecidableEq, Repr

def Fault.message : Fault → String
  | .malformed what line column =>
    what ++ ", line " ++ writeNat (line + 1) ++ ", column " ++ writeNat (column + 1)
  | .badInteger base text =>
    "invalid literal for int() with base " ++ writeNat base ++ ": " ++ Text.display text
  | .longInteger digits =>
    "Exceeds the limit (4300 digits) for integer string conversion: value has " ++
      writeNat digits ++ " digits; use sys.set_int_max_str_digits() to increase the limit"
  | .badNumber text => "could not convert string to float: " ++ Text.display text
  | .emptyNumber => "string index out of range"
  | .badBoolean text => Text.display text
  | .badCharacter => "chr() arg not in range(0x110000)"
  | .hugeCharacter => "Python int too large to convert to C int"
  | .raised crash => crash.message

end SymbolAtlas.Yaml
