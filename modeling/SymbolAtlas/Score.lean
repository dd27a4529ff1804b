import SymbolAtlas.Arithmetic
import SymbolAtlas.Facts
import SymbolAtlas.Path.Depth

/-!
Scores of definitions. A score falls with every directory level and rises a little with the lines
per definition of the file.
-/

set_option autoImplicit false

namespace SymbolAtlas

open ScoreArithmetic

variable {σ : Type}

abbrev ScoreTable (σ : Type) := Table String (Table String σ)

structure ScoringRule (σ : Type) where
  /-- The factor of one directory level. -/
  decay : σ
  /-- The largest bonus for a file with few definitions. -/
  weight : σ
  boost : Bool
  round : σ → σ

namespace Score

variable [ScoreArithmetic σ]

/-- `d / (1 + d)`, where `d` is the root of the lines per definition. -/
def density (lines definitions : Int) : Except ArithmeticFault σ :=
  match quotient (max lines 0) (definitions + 1) with
  | .error e => .error e
  | .ok q =>
    match sqrt q with
    | .error e => .error e
    | .ok d => .ok (div d (add one d))

def definition (rule : ScoringRule σ) (depth lines definitions : Int) : Except ArithmeticFault σ :=
  match power rule.decay depth with
  | .error e => .error e
  | .ok level =>
    match density lines definitions with
    | .error e => .error e
    | .ok d => .ok (mul level (add one (mul rule.weight d)))

def callBoost (calls : Int) : Except ArithmeticFault σ :=
  match logSucc calls with
  | .error e => .error e
  | .ok l => .ok (add one l)

def ofFile (rule : ScoringRule σ) (f : FileFacts) : Except ArithmeticFault (Table String σ) :=
  f.definitions.traverse fun _ _ =>
    definition rule (Path.depth f.path) f.lineCount f.definitions.size

def ofFacts (rule : ScoringRule σ) (facts : List FileFacts) :
    Except ArithmeticFault (ScoreTable σ) :=
  match facts.mapM fun f => (ofFile rule f).map fun scores => (f.path, scores) with
  | .error e => .error e
  | .ok rows => .ok (Table.ofList rows)

end Score

end SymbolAtlas
