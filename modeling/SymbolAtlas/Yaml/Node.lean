import SymbolAtlas.Yaml.Token.Stream

/-!
Nodes of YAML documents, read from tokens. Aliases are replaced by what they stand for.
-/

set_option autoImplicit false

namespace SymbolAtlas.Yaml

inductive Tag
  | null
  | bool
  | int
  | float
  | text
  | list
  | map
  | merge
  | value
  | other (name : String)
  deriving DecidableEq, Repr

def standardStem : String := "tag:yaml.org,2002:"

def standardTags : List (String × Tag) :=
  [("null", .null), ("bool", .bool), ("int", .int), ("float", .float), ("str", .text),
   ("seq", .list), ("map", .map), ("merge", .merge), ("value", .value)]

def Tag.ofName (name : String) : Tag :=
  match standardTags.find? fun row => standardStem ++ row.1 == name with
  | some row => row.2
  | none => .other name

/-- A scalar without a tag is plain or quoted; what a plain one is depends on its text. -/
inductive ScalarTag
  | plain
  | quoted
  | tagged (tag : Tag)
  deriving DecidableEq, Repr

inductive Node
  | scalar (tag : ScalarTag) (text : String)
  | sequence (tag : Tag) (items : List Node)
  | mapping (tag : Tag) (rows : List (Node × Node))
  deriving Repr

def Node.empty : Node := .scalar .plain ""

structure Reading where
  ahead : List Token
  anchors : List (String × Node)
  handles : List (String × String)

namespace Reading

def fail {α : Type} (what : String) : Except Fault α := .error (.malformed what 0 0)

def drop (r : Reading) : Reading := { r with ahead := r.ahead.drop 1 }

def sees (r : Reading) (expected : List Token) : Bool :=
  match r.ahead.head? with
  | some t => expected.contains t
  | none => false

def properties (r : Reading) : Option String × Option (Option String × String) × Reading :=
  match r.ahead with
  | .anchor name :: .tag handle suffix :: rest =>
    (some name, some (handle, suffix), { r with ahead := rest })
  | .tag handle suffix :: .anchor name :: rest =>
    (some name, some (handle, suffix), { r with ahead := rest })
  | .anchor name :: rest => (some name, none, { r with ahead := rest })
  | .tag handle suffix :: rest => (none, some (handle, suffix), { r with ahead := rest })
  | _ => (none, none, r)

/-- The full name of a tag. A lone sign says nothing but that the node is as it looks. -/
def tagName (r : Reading) : Option (Option String × String) → Except Fault (Option String)
  | none => .ok none
  | some (none, suffix) => .ok (some suffix)
  | some (some handle, suffix) =>
    match r.handles.lookup handle with
    | some stem => .ok (some (stem ++ suffix))
    | none => fail "undefined tag handle"

def remember (r : Reading) (name : Option String) (n : Node) : Except Fault Reading :=
  match name with
  | none => .ok r
  | some name =>
    if (r.anchors.lookup name).isSome then fail "duplicate anchor"
    else .ok { r with anchors := (name, n) :: r.anchors }

end Reading

def bareTag : String := "!"

def scalarTag (plain : Bool) : Option String → ScalarTag
  | none => if plain then .plain else .quoted
  | some name => if name = bareTag then .plain else .tagged (.ofName name)

def collectionTag (usual : Tag) : Option String → Tag
  | none => usual
  | some name => if name = bareTag then usual else .ofName name

open Reading in
mutual

/-- A node. Blocks may be forbidden, and a sequence may need no indentation of its own. -/
def readNode : (fuel : Nat) → (block indentless : Bool) → Reading → Except Fault (Node × Reading)
  | 0, _, _, _ => fail "nested too deeply"
  | fuel + 1, block, indentless, r =>
    match r.ahead with
    | .alias name :: _ =>
      match r.anchors.lookup name with
      | some n => .ok (n, r.drop)
      | none => fail "undefined alias"
    | _ =>
      let (anchor, tag, r) := r.properties
      match r.tagName tag with
      | .error e => .error e
      | .ok name =>
        match readContent fuel block indentless (anchor.isSome || name.isSome) name r with
        | .error e => .error e
        | .ok (n, r) =>
          match r.remember anchor n with
          | .error e => .error e
          | .ok r => .ok (n, r)

def readContent : (fuel : Nat) → (block indentless marked : Bool) → Option String → Reading →
    Except Fault (Node × Reading)
  | 0, _, _, _, _, _ => fail "nested too deeply"
  | fuel + 1, block, indentless, marked, name, r =>
    let items (x : Except Fault (List Node × Reading)) : Except Fault (Node × Reading) :=
      x.map fun (items, r) => (.sequence (collectionTag .list name) items, r)
    let rows (x : Except Fault (List (Node × Node) × Reading)) : Except Fault (Node × Reading) :=
      x.map fun (rows, r) => (.mapping (collectionTag .map name) rows, r)
    match r.ahead with
    | .scalar plain text :: _ => .ok (.scalar (scalarTag plain name) text, r.drop)
    | .flowSequenceStart :: _ => items (readFlowItems fuel true r.drop)
    | .flowMappingStart :: _ => rows (readFlowRows fuel true r.drop)
    | .blockEntry :: _ =>
      if indentless then items (readIndentless fuel r)
      else if marked then .ok (.scalar (scalarTag true name) "", r)
      else fail "expected a node"
    | .blockSequenceStart :: _ =>
      if block then items (readBlockItems fuel r.drop)
      else if marked then .ok (.scalar (scalarTag true name) "", r)
      else fail "expected a node"
    | .blockMappingStart :: _ =>
      if block then rows (readBlockRows fuel r.drop)
      else if marked then .ok (.scalar (scalarTag true name) "", r)
      else fail "expected a node"
    | _ =>
      if marked then .ok (.scalar (scalarTag true name) "", r) else fail "expected a node"

def readUnless : (fuel : Nat) → List Token → (block indentless : Bool) → Reading →
    Except Fault (Node × Reading)
  | 0, _, _, _, _ => fail "nested too deeply"
  | fuel + 1, closers, block, indentless, r =>
    if r.sees closers then .ok (.empty, r) else readNode fuel block indentless r

def readBlockItems : (fuel : Nat) → Reading → Except Fault (List Node × Reading)
  | 0, _ => fail "nested too deeply"
  | fuel + 1, r =>
    match r.ahead with
    | .blockEntry :: _ =>
      match readUnless fuel [.blockEntry, .blockEnd] true false r.drop with
      | .error e => .error e
      | .ok (n, r) => (readBlockItems fuel r).map fun (items, r) => (n :: items, r)
    | .blockEnd :: _ => .ok ([], r.drop)
    | _ => fail "expected the end of a block"

/-- The items of a sequence at the column of its mapping. -/
def readIndentless : (fuel : Nat) → Reading → Except Fault (List Node × Reading)
  | 0, _ => fail "nested too deeply"
  | fuel + 1, r =>
    match r.ahead with
    | .blockEntry :: _ =>
      match readUnless fuel [.blockEntry, .key, .value, .blockEnd] true false r.drop with
      | .error e => .error e
      | .ok (n, r) => (readIndentless fuel r).map fun (items, r) => (n :: items, r)
    | _ => .ok ([], r)

def readBlockRows : (fuel : Nat) → Reading → Except Fault (List (Node × Node) × Reading)
  | 0, _ => fail "nested too deeply"
  | fuel + 1, r =>
    match r.ahead with
    | .key :: _ =>
      match readUnless fuel [.key, .value, .blockEnd] true true r.drop with
      | .error e => .error e
      | .ok (k, r) =>
        match readRowValue fuel [.key, .value, .blockEnd] true r with
        | .error e => .error e
        | .ok (v, r) => (readBlockRows fuel r).map fun (rows, r) => ((k, v) :: rows, r)
    | .blockEnd :: _ => .ok ([], r.drop)
    | _ => fail "expected the end of a block"

def readRowValue : (fuel : Nat) → List Token → (block : Bool) → Reading →
    Except Fault (Node × Reading)
  | 0, _, _, _ => fail "nested too deeply"
  | fuel + 1, closers, block, r =>
    match r.ahead with
    | .value :: _ => readUnless fuel closers block block r.drop
    | _ => .ok (.empty, r)

def readFlowItems : (fuel : Nat) → (first : Bool) → Reading → Except Fault (List Node × Reading)
  | 0, _, _ => fail "nested too deeply"
  | fuel + 1, first, r =>
    if r.sees [.flowSequenceEnd] then .ok ([], r.drop)
    else if !first && !r.sees [.flowEntry] then fail "expected ',' or ']'"
    else
      let r := if first then r else r.drop
      if r.sees [.flowSequenceEnd] then .ok ([], r.drop)
      else
        match readFlowItem fuel r with
        | .error e => .error e
        | .ok (n, r) => (readFlowItems fuel false r).map fun (items, r) => (n :: items, r)

def readFlowItem : (fuel : Nat) → Reading → Except Fault (Node × Reading)
  | 0, _ => fail "nested too deeply"
  | fuel + 1, r =>
    match r.ahead with
    | .key :: _ =>
      match readUnless fuel [.value, .flowEntry, .flowSequenceEnd] false false r.drop with
      | .error e => .error e
      | .ok (k, r) =>
        (readRowValue fuel [.flowEntry, .flowSequenceEnd] false r).map fun (v, r) =>
          (.mapping .map [(k, v)], r)
    | _ => readNode fuel false false r

def readFlowRows : (fuel : Nat) → (first : Bool) → Reading →
    Except Fault (List (Node × Node) × Reading)
  | 0, _, _ => fail "nested too deeply"
  | fuel + 1, first, r =>
    if r.sees [.flowMappingEnd] then .ok ([], r.drop)
    else if !first && !r.sees [.flowEntry] then fail "expected ',' or a closing brace"
    else
      let r := if first then r else r.drop
      if r.sees [.flowMappingEnd] then .ok ([], r.drop)
      else
        match readFlowRow fuel r with
        | .error e => .error e
        | .ok (row, r) => (readFlowRows fuel false r).map fun (rows, r) => (row :: rows, r)

/-- A row in braces. A node alone is a key without a value. -/
def readFlowRow : (fuel : Nat) → Reading → Except Fault ((Node × Node) × Reading)
  | 0, _ => fail "nested too deeply"
  | fuel + 1, r =>
    match r.ahead with
    | .key :: _ =>
      match readUnless fuel [.value, .flowEntry, .flowMappingEnd] false false r.drop with
      | .error e => .error e
      | .ok (k, r) =>
        (readRowValue fuel [.flowEntry, .flowMappingEnd] false r).map fun (v, r) => ((k, v), r)
    | _ => (readNode fuel false false r).map fun (k, r) => ((k, .empty), r)

end

def usualHandles : List (String × String) := [("!", "!"), ("!!", standardStem)]

def readDirectives : List Token → (versioned : Bool) → List (String × String) →
    Except Fault (List (String × String) × List Token)
  | .directive (.yaml major) :: rest, versioned, handles =>
    if versioned then Reading.fail "duplicate version"
    else if major ≠ 1 then Reading.fail "unknown version"
    else readDirectives rest true handles
  | .directive (.tag handle stem) :: rest, versioned, handles =>
    if (handles.lookup handle).isSome then Reading.fail "duplicate tag handle"
    else readDirectives rest versioned ((handle, stem) :: handles)
  | .directive .other :: rest, versioned, handles => readDirectives rest versioned handles
  | ts, _, handles => .ok (handles ++ usualHandles, ts)

def isDirective : Token → Bool
  | .directive _ => true
  | _ => false

def readRoot (ts : List Token) (handles : List (String × String)) (explicit : Bool) :
    Except Fault (Node × Reading) :=
  let r : Reading := ⟨ts, [], handles⟩
  let nothing :=
    match ts with
    | [] => true
    | t :: _ => isDirective t || t = .documentStart || t = .documentEnd
  if explicit && nothing then .ok (.empty, r)
  else readNode (8 * ts.length + 8) true false r

def readDocument (ts : List Token) : Except Fault (Option Node) :=
  let root : Except Fault (Option (Node × Reading)) :=
    match ts with
    | [] => .ok none
    | .documentStart :: rest => (readRoot rest usualHandles true).map some
    | .directive d :: rest =>
      match readDirectives (.directive d :: rest) false [] with
      | .error e => .error e
      | .ok (handles, .documentStart :: rest) => (readRoot rest handles true).map some
      | .ok _ => Reading.fail "expected a document start"
    | ts => (readRoot ts usualHandles false).map some
  match root with
  | .error e => .error e
  | .ok none => .ok none
  | .ok (some (n, r)) =>
    if (r.ahead.dropWhile (· = .documentEnd)) = [] then .ok (some n)
    else Reading.fail "expected a single document"

end SymbolAtlas.Yaml
