import SymbolAtlas.Yaml.Reader

/-!
Tokens of YAML texts. Block structure shows as tokens too: a start where indentation grows and an
end where it shrinks.
-/

set_option autoImplicit false

namespace SymbolAtlas.Yaml

inductive Directive
  | yaml (major : Nat)
  | tag (handle stem : String)
  | other
  deriving DecidableEq, Repr

inductive Token
  | directive (d : Directive)
  | documentStart
  | documentEnd
  | blockSequenceStart
  | blockMappingStart
  | blockEnd
  | flowSequenceStart
  | flowSequenceEnd
  | flowMappingStart
  | flowMappingEnd
  | key
  | value
  | blockEntry
  | flowEntry
  | alias (name : String)
  | anchor (name : String)
  | tag (handle : Option String) (suffix : String)
  | scalar (plain : Bool) (text : String)
  deriving DecidableEq, Repr

end SymbolAtlas.Yaml
