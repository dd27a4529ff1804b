import SymbolAtlas.Yaml.Resolution

/-!
The value of a YAML text. Of several faults the least deep one is reported, and of these the first.
-/

set_option autoImplicit false

namespace SymbolAtlas.Yaml

def ScalarTag.tag (t : ScalarTag) (text : String) : Tag :=
  match t with
  | .plain => resolve text
  | .quoted => .text
  | .tagged tag => tag

def noSuchValue : Fault := .malformed "no value for this tag" 0 0

def scalarValue (tag : Tag) (text : String) : Except Fault Scalar :=
  match tag with
  | .null => .ok .null
  | .bool => (readBool text).map .bool
  | .int => (readInt text).map .int
  | .float => (readFloat text).map .float
  | .text => .ok (.text text)
  | _ => .error noSuchValue

def isMergeKey : Node → Bool
  | .scalar t text => t.tag text = .merge
  | _ => false

/-- The key of a row. A lone `=` is a text there. -/
def keyValue : Node → Except Fault Scalar
  | .scalar t text =>
    match t.tag text with
    | .value => .ok (.text text)
    | tag => scalarValue tag text
  | _ => .error (.malformed "a key has to be a scalar" 0 0)

/-- The rows a merge brings in, given the rows of a mapping. Of several mappings the first has the
last word. -/
def mergedRows (rowsOf : Node → Option (List (Node × Node))) :
    Node → Option (List (Node × Node))
  | .sequence _ items => (items.mapM rowsOf).map fun parts => parts.reverse.flatten
  | n => rowsOf n

/-- The rows of a mapping with its merges carried out: merged rows come first. -/
def rowsOf : (fuel : Nat) → Node → Option (List (Node × Node))
  | fuel + 1, .mapping _ rows =>
    let own := rows.filter fun row => !isMergeKey row.1
    let merges := rows.filter fun row => isMergeKey row.1
    (merges.mapM fun row => mergedRows (rowsOf fuel) row.2).map fun parts => parts.flatten ++ own
  | _, _ => none

/-- A fault and how deep it lies. -/
structure Placed where
  depth : Nat
  fault : Fault
  deriving DecidableEq, Repr

def both {α β : Type} : Except Placed α → Except Placed β → Except Placed (α × β)
  | .ok a, .ok b => .ok (a, b)
  | .ok _, .error e => .error e
  | .error e, .ok _ => .error e
  | .error e, .error e' => .error (if e'.depth < e.depth then e' else e)

def each {α β : Type} (f : α → Except Placed β) : List α → Except Placed (List β)
  | [] => .ok []
  | a :: rest => (both (f a) (each f rest)).map fun (b, bs) => b :: bs

def placed {α : Type} (depth : Nat) : Except Fault α → Except Placed α
  | .ok a => .ok a
  | .error e => .error ⟨depth, e⟩

def nodeValue : (fuel depth : Nat) → Node → Except Placed Value
  | 0, depth, _ => .error ⟨depth, .malformed "nested too deeply" 0 0⟩
  | _ + 1, depth, .scalar t text => (placed depth (scalarValue (t.tag text) text)).map .scalar
  | fuel + 1, depth, .sequence tag items =>
    if tag ≠ .list then .error ⟨depth, noSuchValue⟩
    else (each (nodeValue fuel (depth + 1)) items).map .list
  | fuel + 1, depth, .mapping tag rows =>
    if tag ≠ .map then .error ⟨depth, noSuchValue⟩
    else
      match rowsOf (fuel + 1) (.mapping tag rows) with
      | none => .error ⟨depth + 1, .malformed "expected a mapping to merge" 0 0⟩
      | some rows =>
        (each (fun row => both (placed (depth + 1) (keyValue row.1))
          (nodeValue fuel (depth + 1) row.2)) rows).map fun rows => .map (Rows.ofList rows)

mutual

def Node.depth : Node → Nat
  | .scalar _ _ => 1
  | .sequence _ items => 1 + itemsDepth items
  | .mapping _ rows => 1 + rowsDepth rows

def itemsDepth : List Node → Nat
  | [] => 0
  | n :: rest => max n.depth (itemsDepth rest)

def rowsDepth : List (Node × Node) → Nat
  | [] => 0
  | (k, v) :: rest => max (max k.depth v.depth) (rowsDepth rest)

end

/-- The value of a text. An empty text has the value null. -/
def load (cs : List Char) : Except Fault Value :=
  match tokens cs with
  | .error e => .error e
  | .ok ts =>
    match readDocument ts with
    | .error e => .error e
    | .ok none => .ok .null
    | .ok (some n) =>
      match nodeValue n.depth 0 n with
      | .error e => .error e.fault
      | .ok v => .ok v

end SymbolAtlas.Yaml
