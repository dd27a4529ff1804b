import SymbolAtlas.Value.Display

/-!
What is wrong with a value of a settings document, and where.
-/

set_option autoImplicit false

namespace SymbolAtlas

inductive Complaint
  | notMapping (model : String)
  | notList
  | notInteger
  | unreadableInteger
  | oversizedInteger
  | fractionalInteger
  | notFinite
  | notNumber
  | unreadableNumber
  | unreadableBoolean
  | notBoolean
  | notText
  | notOneOf (choices : List String)
  | refused (reason : String)
  | unknownSection
  deriving DecidableEq, Repr

namespace Complaint

/-- The choices as a message lists them: `'a', 'b' or 'c'`. -/
def listChoices : List String → String
  | [] => ""
  | [a] => "'" ++ a ++ "'"
  | [a, b] => "'" ++ a ++ "' or '" ++ b ++ "'"
  | a :: rest => "'" ++ a ++ "', " ++ listChoices rest

def code : Complaint → String
  | .notMapping _ => "model_type"
  | .notList => "list_type"
  | .notInteger => "int_type"
  | .unreadableInteger => "int_parsing"
  | .oversizedInteger => "int_parsing_size"
  | .fractionalInteger => "int_from_float"
  | .notFinite => "finite_number"
  | .notNumber => "float_type"
  | .unreadableNumber => "float_parsing"
  | .unreadableBoolean => "bool_parsing"
  | .notBoolean => "bool_type"
  | .notText => "string_type"
  | .notOneOf _ => "literal_error"
  | .refused _ => "value_error"
  | .unknownSection => "extra_forbidden"

def message : Complaint → String
  | .notMapping model => "Input should be a valid dictionary or instance of " ++ model
  | .notList => "Input should be a valid list"
  | .notInteger => "Input should be a valid integer"
  | .unreadableInteger => "Input should be a valid integer, unable to parse string as an integer"
  | .oversizedInteger => "Unable to parse input string as an integer, exceeded maximum size"
  | .fractionalInteger => "Input should be a valid integer, got a number with a fractional part"
  | .notFinite => "Input should be a finite number"
  | .notNumber => "Input should be a valid number"
  | .unreadableNumber => "Input should be a valid number, unable to parse string as a number"
  | .unreadableBoolean => "Input should be a valid boolean, unable to interpret input"
  | .notBoolean => "Input should be a valid boolean"
  | .notText => "Input should be a valid string"
  | .notOneOf choices => "Input should be " ++ listChoices choices
  | .refused reason => "Value error, " ++ reason
  | .unknownSection => "Extra inputs are not permitted"

end Complaint

structure Issue where
  place : List String
  complaint : Complaint
  input : Value

namespace Issue

def location (i : Issue) : String := joinWith "." i.place

def inside (step : String) (i : Issue) : Issue := { i with place := step :: i.place }

end Issue

/-- The outcome of a check. A missing home directory ends everything at once; other complaints are
gathered. -/
inductive Verdict (α : Type)
  | accepted (a : α)
  | rejected (issues : List Issue)
  | homeless

namespace Verdict

variable {α β : Type}

def map (f : α → β) : Verdict α → Verdict β
  | .accepted a => .accepted (f a)
  | .rejected issues => .rejected issues
  | .homeless => .homeless

def both (x : Verdict α) (y : Verdict β) : Verdict (α × β) :=
  match x, y with
  | .homeless, _ => .homeless
  | _, .homeless => .homeless
  | .rejected xs, .rejected ys => .rejected (xs ++ ys)
  | .rejected xs, .accepted _ => .rejected xs
  | .accepted _, .rejected ys => .rejected ys
  | .accepted a, .accepted b => .accepted (a, b)

def bind (x : Verdict α) (f : α → Verdict β) : Verdict β :=
  match x with
  | .accepted a => f a
  | .rejected issues => .rejected issues
  | .homeless => .homeless

def complain (complaint : Complaint) (input : Value) : Verdict α :=
  .rejected [⟨[], complaint, input⟩]

def ofExcept (input : Value) : Except Complaint α → Verdict α
  | .ok a => .accepted a
  | .error complaint => complain complaint input

def inside (step : String) : Verdict α → Verdict α
  | .accepted a => .accepted a
  | .rejected issues => .rejected (issues.map (Issue.inside step))
  | .homeless => .homeless

def all : List (Verdict α) → Verdict (List α)
  | [] => .accepted []
  | x :: rest => (x.both (all rest)).map fun (a, as) => a :: as

end Verdict

end SymbolAtlas
