import SymbolAtlas.Text.Similarity

/-!
Options and other words of a command line. An option is written out after two dashes, with its
value after a sign of equality or in the next word; single letters follow one dash.
-/

set_option autoImplicit false

namespace SymbolAtlas.CommandLine

structure OptionSpec where
  name : String
  /-- A letter that stands for the option. Only options without a value have one. -/
  letter : Option Char
  takesValue : Bool
  shown : String
  help : String
  deriving DecidableEq, Repr

inductive OptionFault
  | unknown (name : String) (near : List String)
  | missingValue (name : String)
  | unwantedValue (name : String)
  deriving DecidableEq, Repr

structure Given where
  name : String
  value : String
  deriving DecidableEq, Repr

structure Words where
  options : List Given
  others : List String
  deriving DecidableEq, Repr

inductive OptionWord
  | complete (options : List Given)
  | wantsValue (name : String)
  deriving DecidableEq, Repr

def splitEquals : List Char → List Char × Option (List Char)
  | [] => ([], none)
  | c :: rest =>
    if c = '=' then ([], some rest)
    else
      let (before, after) := splitEquals rest
      (c :: before, after)

def readLong (specs : List OptionSpec) (word : List Char) : Except OptionFault OptionWord :=
  let (before, value) := splitEquals word
  let name := String.ofList before
  match specs.find? (fun spec => spec.name == name), value with
  | none, _ => .error (.unknown name (Text.near name (specs.map OptionSpec.name)))
  | some spec, none =>
    if spec.takesValue then .ok (.wantsValue name) else .ok (.complete [⟨name, ""⟩])
  | some spec, some value =>
    if spec.takesValue then .ok (.complete [⟨name, String.ofList value⟩])
    else .error (.unwantedValue name)

def readLetters (specs : List OptionSpec) : List Char → Except OptionFault (List Given)
  | [] => .ok []
  | c :: rest =>
    match specs.find? fun spec => spec.letter == some c with
    | none => .error (.unknown (String.ofList ['-', c]) [])
    | some spec => (readLetters specs rest).map fun more => ⟨spec.name, ""⟩ :: more

def isOption (word : String) : Bool :=
  match word.toList with
  | '-' :: _ :: _ => true
  | _ => false

def readOption (specs : List OptionSpec) (word : String) : Except OptionFault OptionWord :=
  match word.toList with
  | '-' :: '-' :: rest => readLong specs ('-' :: '-' :: rest)
  | _ :: letters => (readLetters specs letters).map .complete
  | [] => .ok (.complete [])

def endOfOptions : String := "--"

def Words.addOptions (options : List Given) (w : Words) : Words :=
  { w with options := options ++ w.options }

def Words.addOther (word : String) (w : Words) : Words := { w with others := word :: w.others }

/-- The options and other words of a line. Options may stand among the other words, unless the
first other word ends them. -/
def readWords (specs : List OptionSpec) (mixed : Bool) : List String → Except OptionFault Words
  | [] => .ok ⟨[], []⟩
  | word :: rest =>
    if word = endOfOptions then .ok ⟨[], rest⟩
    else if isOption word then
      match readOption specs word with
      | .error e => .error e
      | .ok (.complete options) => (readWords specs mixed rest).map (Words.addOptions options)
      | .ok (.wantsValue name) =>
        match rest with
        | [] => .error (.missingValue name)
        | value :: rest => (readWords specs mixed rest).map (Words.addOptions [⟨name, value⟩])
    else if mixed then (readWords specs mixed rest).map (Words.addOther word)
    else .ok ⟨[], word :: rest⟩

namespace Words

def has (w : Words) (name : String) : Bool := w.options.any fun o => o.name == name

def last? (w : Words) (name : String) : Option String :=
  (w.options.reverse.find? fun o => o.name == name).map Given.value

def firstOf? (w : Words) (names : List String) : Option String :=
  (w.options.find? fun o => names.contains o.name).map Given.name

end Words

end SymbolAtlas.CommandLine
