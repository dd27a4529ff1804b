import SymbolAtlas.Value
import SymbolAtlas.Text.Quoted

/-!
Values as messages show them.
-/

set_option autoImplicit false

namespace SymbolAtlas

def joinWith (separator : String) (parts : List String) : String := separator.intercalate parts

def Scalar.display : Scalar → String
  | .null => "None"
  | .bool true => "True"
  | .bool false => "False"
  | .int n => writeInt n
  | .float x => NumberStyle.plain.write x
  | .text s => Text.display s

mutual

def Value.display : Value → String
  | .scalar s => s.display
  | .list items => "[" ++ joinWith ", " (displayItems items) ++ "]"
  | .map rows => "\x7b" ++ joinWith ", " (displayRows rows) ++ "\x7d"

def displayItems : List Value → List String
  | [] => []
  | v :: rest => v.display :: displayItems rest

def displayRows : List (Scalar × Value) → List String
  | [] => []
  | (k, v) :: rest => (k.display ++ ": " ++ v.display) :: displayRows rest

end

/-- The display form of a value that stands alone: its own text is not quoted. -/
def Value.plain : Value → String
  | .scalar (.text s) => s
  | v => v.display

def Value.kindName : Value → String
  | .scalar .null => "NoneType"
  | .scalar (.bool _) => "bool"
  | .scalar (.int _) => "int"
  | .scalar (.float _) => "float"
  | .scalar (.text _) => "str"
  | .list _ => "list"
  | .map _ => "dict"

end SymbolAtlas
