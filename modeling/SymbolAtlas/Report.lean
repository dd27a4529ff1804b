import SymbolAtlas.Score

/-!
Reported scores: raised by calls from outside and rounded. A token is reported unrounded where
rounding would make two different scores equal.
-/

set_option autoImplicit false

namespace SymbolAtlas.Report

open ScoreArithmetic

variable {σ : Type}

/-- The members of a list that differ from all later ones. -/
def distinct [BEq σ] : List σ → List σ
  | [] => []
  | x :: rest => if rest.any (· == x) then distinct rest else x :: distinct rest

def scoresOf (scores : ScoreTable σ) (token : String) : List σ :=
  scores.values.filterMap fun row => row.get? token

/-- Whether rounding would make two scores of a token equal. -/
def merges [BEq σ] (round : σ → σ) (scores : ScoreTable σ) (token : String) : Bool :=
  let values := distinct (scoresOf scores token)
  (distinct (values.map round)).length < values.length

def boosted [ScoreArithmetic σ] (rule : ScoringRule σ) (calls : Table String Int)
    (scores : ScoreTable σ) : Except ArithmeticFault (ScoreTable σ) :=
  scores.traverse fun _ row => row.traverse fun token score =>
    if rule.boost then
      match Score.callBoost ((calls.get? token).getD 0) with
      | .error e => .error e
      | .ok factor => .ok (mul score factor)
    else .ok score

def rounded [BEq σ] (round : σ → σ) (scores : ScoreTable σ) : ScoreTable σ :=
  scores.mapWithKey fun _ row => row.mapWithKey fun token score =>
    if merges round scores token then score else round score

def scores [BEq σ] [ScoreArithmetic σ] (rule : ScoringRule σ) (calls : Table String Int)
    (raw : ScoreTable σ) : Except ArithmeticFault (ScoreTable σ) :=
  (boosted rule calls raw).map (rounded rule.round)

end SymbolAtlas.Report
