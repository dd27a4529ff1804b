import SymbolAtlas.Value
import SymbolAtlas.Text.Quoted

/-!
Values as JSON text. Only ASCII characters are written, whatever the text holds.
-/

set_option autoImplicit false

namespace SymbolAtlas.Json

/-- A text on one line, or on lines that are indented by a step per level. -/
inductive Layout
  | oneLine
  | lines (step : Nat)
  deriving DecidableEq, Repr

namespace Layout

def ofIndent : Option Int → Layout
  | none => .oneLine
  | some n => .lines n.toNat

def margin : Layout → Nat → List Char
  | .oneLine, _ => []
  | .lines step, level => '\n' :: List.replicate (step * level) ' '

def between : Layout → Nat → List Char
  | .oneLine, _ => [',', ' ']
  | .lines step, level => ',' :: Layout.margin (.lines step) level

end Layout

def bare : Scalar → List Char
  | .null => "null".toList
  | .bool true => "true".toList
  | .bool false => "false".toList
  | .int n => intDigits n
  | .float x => (NumberStyle.json.write x).toList
  | .text s => s.toList

def writeScalar : Scalar → List Char
  | .text s => Text.jsonQuoted s
  | s => bare s

/-- Keys are text: any other scalar is put in quotes. -/
def writeKey (key : Scalar) : List Char := Text.jsonQuoted (String.ofList (bare key))

mutual

def writeAt (layout : Layout) (level : Nat) : Value → List Char
  | .scalar s => writeScalar s
  | .list [] => ['[', ']']
  | .list (v :: rest) =>
    '[' :: (layout.margin (level + 1) ++ writeAt layout (level + 1) v ++
      writeItems layout (level + 1) rest ++ layout.margin level ++ [']'])
  | .map [] => ['\x7b', '\x7d']
  | .map ((k, v) :: rest) =>
    '\x7b' :: (layout.margin (level + 1) ++ writeKey k ++ [':', ' '] ++
      writeAt layout (level + 1) v ++ writeRows layout (level + 1) rest ++
      layout.margin level ++ ['\x7d'])

def writeItems (layout : Layout) (level : Nat) : List Value → List Char
  | [] => []
  | v :: rest => layout.between level ++ writeAt layout level v ++ writeItems layout level rest

def writeRows (layout : Layout) (level : Nat) : List (Scalar × Value) → List Char
  | [] => []
  | (k, v) :: rest =>
    layout.between level ++ writeKey k ++ [':', ' '] ++ writeAt layout level v ++
      writeRows layout level rest

end

def write (layout : Layout) (v : Value) : String := String.ofList (writeAt layout 0 v)

end SymbolAtlas.Json
