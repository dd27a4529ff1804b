import SymbolAtlas.Json.Read
import SymbolAtlas.Table

/-!
Settings from environment variables. A variable names a section, and perhaps a key in it; the case
of letters does not matter. A section is given as a JSON text, a key as it stands.
-/

set_option autoImplicit false

namespace SymbolAtlas

structure Section where
  title : String
  keys : List String
  /-- Keys whose variables hold JSON texts. -/
  structured : List String
  deriving DecidableEq, Repr

namespace Section

def logging : Section := ⟨"logging", ["level", "outputs"], ["outputs"]⟩

def indexer : Section := ⟨"indexer", ["max_workers", "max_file_size_mb"], []⟩

def scoring : Section :=
  ⟨"scoring", ["depth_decay", "density_weight", "call_boost", "precision"], []⟩

def all : List Section := [logging, indexer, scoring]

end Section

namespace Environment

def lower (cs : List Char) : List Char := cs.map Char.toLower

def stem : List Char := "codemap__".toList

def divider : List Char := "__".toList

def split : List Char → List (List Char)
  | [] => [[]]
  | '_' :: '_' :: rest => [] :: split rest
  | c :: rest =>
    match split rest with
    | [] => [[c]]
    | part :: parts => (c :: part) :: parts

def lowered (env : List (String × String)) : Table (List Char) String :=
  Table.ofList (env.map fun (name, text) => (lower name.toList, text))

/-- Put a value at a chain of keys. A scalar in the way stays. -/
def plant (value : Value) (last : String) : List String → Rows → Rows
  | [], rows => rows.set last value
  | key :: rest, rows =>
    match rows.get? key with
    | none => rows.set key (.map (plant value last rest []))
    | some (.map inner) => rows.set key (.map (plant value last rest inner))
    | some _ => rows

/-- The value a variable gives to a chain of keys, unless it is no JSON text where it should be. -/
def keyValue? (s : Section) (chain : List String) (last text : String) : Option Value :=
  if chain = [] ∧ s.structured.contains last ∧ text ≠ "" then Json.read text else some (.text text)

def addKey (s : Section) (rows : Rows) (row : List Char × String) : Option Rows :=
  match (stem ++ s.title.toList ++ divider).isPrefixOf? row.1 with
  | none => some rows
  | some name =>
    let parts := (split name).map String.ofList
    let last := parts.getLast?.getD ""
    let chain := parts.dropLast
    (keyValue? s chain last row.2).map fun value => plant value last chain rows

def keysOf (vars : Table (List Char) String) (s : Section) : Option Rows :=
  vars.entries.foldl (fun rows row => rows.bind fun rows => addKey s rows row) (some [])

def properName (s : Section) : Scalar → Scalar
  | .text name =>
    match s.keys.find? fun key => key.toList = lower name.toList with
    | some key => .text key
    | none => .text name
  | k => k

def properRows (s : Section) (rows : Rows) : Rows :=
  Rows.ofList (rows.map fun row => (properName s row.1, row.2))

/-- What the environment says about a section, if anything. No answer means that a JSON text is
wrong. -/
def sectionValue (vars : Table (List Char) String) (s : Section) : Option (Option Value) :=
  match vars.get? (stem ++ s.title.toList) with
  | none =>
    (keysOf vars s).map fun rows => if rows.isEmpty then none else some (.map (properRows s rows))
  | some text =>
    match Json.read text with
    | none => none
    | some (.scalar .null) => some none
    | some (.map rows) =>
      (keysOf vars s).map fun keys => some (.map (properRows s (Rows.overlay rows keys)))
    | some v => some (some v)

def sections (vars : Table (List Char) String) : List Section → Except Section Rows
  | [] => .ok []
  | s :: rest =>
    match sectionValue vars s with
    | none => .error s
    | some value =>
      (sections vars rest).map fun rows =>
        match value with
        | none => rows
        | some v => (.text s.title, v) :: rows

end Environment

end SymbolAtlas
