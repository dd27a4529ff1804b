import SymbolAtlas.Definers

/-!
Callers of tokens. Every reference to a token with a home adds the referring file to the list that
the home keeps for the token.
-/

set_option autoImplicit false

namespace SymbolAtlas

variable {σ : Type}

abbrev CallerTable := Table String (Table String (List String))

/-- A reference whose home keeps no list for its token. -/
inductive CallerFault
  | noFile (path : String)
  | noToken (token : String)
  deriving DecidableEq, Repr

namespace Callers

/-- The empty lists of one file: one for every token that is at home there. -/
def openFile (definers : Table String String) (callers : CallerTable)
    (row : String × Table String σ) : CallerTable :=
  row.2.keys.foldl (fun callers token =>
    if definers.get? token = some row.1 then
      callers.alter row.1 fun old => (old.getD Table.empty).insert token []
    else callers) callers

def opened (scores : ScoreTable σ) (definers : Table String String) : CallerTable :=
  scores.entries.foldl (openFile definers) Table.empty

def append (callers : CallerTable) (home token caller : String) :
    Except CallerFault CallerTable :=
  match callers.get? home with
  | none => .error (.noFile home)
  | some lists =>
    match lists.get? token with
    | none => .error (.noToken token)
    | some list => .ok (callers.insert home (lists.insert token (list ++ [caller])))

structure Attribution where
  callers : CallerTable
  dropped : Nat

def refer (definers : Table String String) (caller : String) (a : Attribution) (token : String) :
    Except CallerFault Attribution :=
  match definers.get? token with
  | none => .ok ⟨a.callers, a.dropped + 1⟩
  | some home =>
    match append a.callers home token caller with
    | .error e => .error e
    | .ok callers => .ok ⟨callers, a.dropped⟩

def referAll (definers : Table String String) (a : Attribution) (f : FileFacts) :
    Except CallerFault Attribution :=
  f.references.foldlM (refer definers f.path) a

/-- The callers of every token at home somewhere, in the order of files and then of the source. -/
def assign (scores : ScoreTable σ) (facts : List FileFacts) (definers : Table String String) :
    Except CallerFault Attribution :=
  facts.foldlM (referAll definers) ⟨opened scores definers, 0⟩

def countExternal (f : FileFacts) (counts : Table String Nat) (token : String) :
    Table String Nat :=
  if f.definitions.contains token then counts else counts.bump token

/-- How often each token is referred to from files that do not define it. -/
def external (facts : List FileFacts) : Table String Nat :=
  facts.foldl (fun counts f => f.references.foldl (countExternal f) counts) Table.empty

end Callers

end SymbolAtlas
