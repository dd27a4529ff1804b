import SymbolAtlas.Decimal.Binary64

/-!
Values of settings documents and log fields: scalars, lists and mappings. A mapping keeps the
order in which its keys first came. Two spellings of one number are one key, and so are a truth
value and its number.
-/

set_option autoImplicit false

namespace SymbolAtlas

inductive Scalar
  | null
  | bool (b : Bool)
  | int (n : Int)
  | float (x : Float)
  | text (s : String)

/-- What makes two keys of a mapping the same. -/
inductive Key
  | null
  | whole (n : Int)
  | fraction (bits : UInt64)
  | text (s : String)
  deriving DecidableEq, Repr

def Scalar.key : Scalar → Key
  | .null => .null
  | .bool b => .whole (if b then 1 else 0)
  | .int n => .whole n
  | .float x =>
    match (Binary64.ofFloat x).toInt? with
    | some n => .whole n
    | none => .fraction x.toBits
  | .text s => .text s

inductive Value
  | scalar (s : Scalar)
  | list (items : List Value)
  | map (rows : List (Scalar × Value))

abbrev Rows := List (Scalar × Value)

namespace Value

@[match_pattern] abbrev null : Value := .scalar .null
@[match_pattern] abbrev bool (b : Bool) : Value := .scalar (.bool b)
@[match_pattern] abbrev int (n : Int) : Value := .scalar (.int n)
@[match_pattern] abbrev float (x : Float) : Value := .scalar (.float x)
@[match_pattern] abbrev text (s : String) : Value := .scalar (.text s)

instance : Inhabited Value := ⟨.null⟩

def record (fields : List (String × Value)) : Value :=
  .map (fields.map fun field => (.text field.1, field.2))

def ofNat (n : Nat) : Value := .int n

/-- Values that count as nothing: null, false, zero, the empty text, list and mapping. -/
def isEmpty : Value → Bool
  | .scalar .null => true
  | .scalar (.bool b) => !b
  | .scalar (.int n) => n == 0
  | .scalar (.float x) => x == 0
  | .scalar (.text s) => s.isEmpty
  | .list items => items.isEmpty
  | .map rows => rows.isEmpty

end Value

namespace Rows

def find? (key : Key) : Rows → Option Value
  | [] => none
  | (k, v) :: rest => if k.key = key then some v else find? key rest

def get? (rows : Rows) (name : String) : Option Value := rows.find? (.text name)

/-- Change the value at a key. The first spelling of a key stays, at its first place. -/
def put (key : Scalar) (value : Value) : Rows → Rows
  | [] => [(key, value)]
  | (k, v) :: rest =>
    if k.key = key.key then (k, value) :: rest else (k, v) :: put key value rest

def set (rows : Rows) (name : String) (value : Value) : Rows := put (.text name) value rows

def ofList (rows : List (Scalar × Value)) : Rows :=
  rows.foldl (fun acc row => put row.1 row.2 acc) []

def keys (rows : Rows) : List Key := rows.map fun row => row.1.key

end Rows

mutual

/-- One value laid over another: mappings are joined key by key, all else is replaced. -/
def Value.overlay (base : Value) : Value → Value
  | .map upper =>
    match base with
    | .map rows => .map (Rows.overlay rows upper)
    | .scalar _ => .map upper
    | .list _ => .map upper
  | .list items => .list items
  | .scalar s => .scalar s

def Rows.overlay (rows : Rows) : List (Scalar × Value) → Rows
  | [] => rows
  | (key, value) :: rest =>
    let joined :=
      match rows.find? key.key with
      | some old => old.overlay value
      | none => value
    Rows.overlay (rows.put key joined) rest

end

end SymbolAtlas
