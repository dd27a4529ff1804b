import SymbolAtlas.TagQuery

/-!
Tag queries as text: `(kind field: (kind) @name)`, with comments from a semicolon to the end of
the line. The reader takes exactly what the writer produces, up to blanks and comments.
-/

set_option autoImplicit false

namespace SymbolAtlas.TagQuery

inductive Token
  | opening
  | closing
  | colon
  | name (s : String)
  | capture (s : String)
  deriving DecidableEq, Repr

def isNameChar (c : Char) : Bool := c.isAlphanum || c = '_' || c = '-' || c = '.'

def isSpace (c : Char) : Bool := c = ' ' || c = '\t' || c = '\n' || c = '\r'

/-- The tokens of a text. A capture needs a name right after its sign. -/
def tokens : List Char → Option (List Token)
  | [] => some []
  | c :: rest =>
    if isSpace c then tokens rest
    else if c = ';' then tokens (rest.dropWhile (· ≠ '\n'))
    else if c = '(' then (tokens rest).map (.opening :: ·)
    else if c = ')' then (tokens rest).map (.closing :: ·)
    else if c = ':' then (tokens rest).map (.colon :: ·)
    else if c = '@' then
      let word := rest.takeWhile isNameChar
      if word = [] then none
      else (tokens (rest.dropWhile isNameChar)).map (.capture (String.ofList word) :: ·)
    else if isNameChar c then
      let word := c :: rest.takeWhile isNameChar
      (tokens (rest.dropWhile isNameChar)).map (.name (String.ofList word) :: ·)
    else none
termination_by cs => cs.length
decreasing_by
  all_goals
    have drop (p : Char → Bool) : (rest.dropWhile p).length ≤ rest.length :=
      (List.dropWhile_sublist p).length_le
    simp only [List.length_cons]
    first | omega | exact Nat.lt_succ_of_le (drop _)

def captureName? : Token → Option String
  | .capture s => some s
  | _ => none

def readCaptures (ts : List Token) : List String × List Token :=
  let front := ts.takeWhile fun t => (captureName? t).isSome
  (front.filterMap captureName?, ts.drop front.length)

mutual

def readNode : (fuel : Nat) → String → List Token → Option (Pattern × List Token)
  | 0, _, _ => none
  | fuel + 1, kind, ts =>
    match readParts fuel ts with
    | none => none
    | some (parts, rest) =>
      let (captures, rest) := readCaptures rest
      some (.node kind parts captures, rest)

def readParts : (fuel : Nat) → List Token →
    Option (List (Option String × Pattern) × List Token)
  | 0, _ => none
  | fuel + 1, ts =>
    match ts with
    | .closing :: rest => some ([], rest)
    | .opening :: .name kind :: rest => readPart fuel none kind rest
    | .name field :: .colon :: .opening :: .name kind :: rest =>
      readPart fuel (some field) kind rest
    | _ => none

def readPart : (fuel : Nat) → Option String → String → List Token →
    Option (List (Option String × Pattern) × List Token)
  | 0, _, _, _ => none
  | fuel + 1, field, kind, ts =>
    match readNode fuel kind ts with
    | none => none
    | some (p, rest) => (readParts fuel rest).map fun (parts, rest) => ((field, p) :: parts, rest)

end

def readPatterns : (fuel : Nat) → List Token → Option TagQuery
  | 0, _ => none
  | fuel + 1, ts =>
    match ts with
    | [] => some []
    | .opening :: .name kind :: rest =>
      match readNode (2 * rest.length + 2) kind rest with
      | none => none
      | some (p, rest) => (readPatterns fuel rest).map (p :: ·)
    | _ => none

def read (s : String) : Option TagQuery :=
  match tokens s.toList with
  | none => none
  | some ts => readPatterns (ts.length + 1) ts

end SymbolAtlas.TagQuery
