import SymbolAtlas.Score

/-!
The home of a token: of all files that define it, one with the highest score, and of these the one
with the least path.
-/

set_option autoImplicit false

namespace SymbolAtlas

variable {σ : Type}

namespace Definers

variable [BEq σ] [LT σ] [DecidableLT σ]

def better (score : σ) (path : String) (home : σ × String) : Bool :=
  if score == home.1 then path < home.2 else home.1 < score

def offer (path : String) (homes : Table String (σ × String)) (row : String × σ) :
    Table String (σ × String) :=
  match homes.get? row.1 with
  | none => homes.insert row.1 (row.2, path)
  | some home => if better row.2 path home then homes.insert row.1 (row.2, path) else homes

def offerFile (homes : Table String (σ × String)) (row : String × Table String σ) :
    Table String (σ × String) :=
  row.2.entries.foldl (offer row.1) homes

end Definers

/-- The home of every token of a score table, in the order in which tokens are first seen. -/
def ScoreTable.definers [BEq σ] [LT σ] [DecidableLT σ] (scores : ScoreTable σ) :
    Table String String :=
  (scores.entries.foldl Definers.offerFile Table.empty).mapWithKey fun _ home => home.2

end SymbolAtlas
