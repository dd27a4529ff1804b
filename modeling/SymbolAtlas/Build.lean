import SymbolAtlas.Callers
import SymbolAtlas.Extraction
import SymbolAtlas.Report

/-!
The atlas of a batch of files: the reported score of every definition, the callers of every token
at its home, and counters.
-/

set_option autoImplicit false

namespace SymbolAtlas

variable {σ : Type}

structure Atlas (σ : Type) where
  scores : ScoreTable σ
  callers : CallerTable
  stats : BuildStats

inductive BuildFault
  | arithmetic (fault : ArithmeticFault)
  | caller (fault : CallerFault)
  deriving DecidableEq, Repr

namespace Atlas

variable [BEq σ] [LT σ] [DecidableLT σ] [ScoreArithmetic σ]

def count (paths : Nat) (facts : List FileFacts) (dropped durationMs : Nat) : BuildStats where
  filesProcessed := facts.length
  filesUnsupported := paths - facts.length
  filesFailed := facts.countP fun f => f.error.isSome
  definitions := (facts.flatMap fun f => f.definitions.keys).length
  references := (facts.flatMap FileFacts.references).length
  referencesDropped := dropped
  durationMs := durationMs

def ofFacts (rule : ScoringRule σ) (paths : Nat) (durationMs : Nat) (facts : List FileFacts) :
    Except BuildFault (Atlas σ) :=
  match Score.ofFacts rule facts with
  | .error e => .error (.arithmetic e)
  | .ok raw =>
    match Callers.assign raw facts raw.definers with
    | .error e => .error (.caller e)
    | .ok attribution =>
      let calls := (Callers.external facts).mapWithKey fun _ (n : Nat) => (n : Int)
      match Report.scores rule calls raw with
      | .error e => .error (.arithmetic e)
      | .ok scores =>
        .ok ⟨scores, attribution.callers, count paths facts attribution.dropped durationMs⟩

end Atlas

structure ExtractionRule where
  maxFileSizeMb : Float
  workers : Nat
  schedule : Extraction.Schedule

structure BuildStep (σ : Type) where
  outcome : Except BuildFault (Atlas σ)
  registry : Registry
  notices : List Notice

def duplicateNotices (given distinct : Nat) : List Notice :=
  if distinct = given then [] else [⟨.caller, .duplicatePathsIgnored (given - distinct)⟩]

/-- Build the atlas of files. A repeated path counts once, at its first place. -/
def buildAtlas [BEq σ] [LT σ] [DecidableLT σ] [ScoreArithmetic σ] (w : Workspace)
    (how : ExtractionRule) (rule : ScoringRule σ) (durationMs : Nat) (r : Registry)
    (given : List String) : BuildStep σ :=
  let paths := firstSeen given
  let repeated := duplicateNotices given.length paths.length
  match Extraction.extract w how.maxFileSizeMb how.workers how.schedule r paths with
  | .error e => ⟨.error (.arithmetic e), r, repeated⟩
  | .ok batch =>
    let supported := batch.facts.filter FileFacts.isSupported
    match Atlas.ofFacts rule paths.length durationMs supported with
    | .error e => ⟨.error e, batch.registry, repeated ++ batch.notices⟩
    | .ok atlas =>
      ⟨.ok atlas, batch.registry,
        repeated ++ batch.notices ++ [⟨.caller, .tokenScoresComputed w.root.text atlas.stats⟩]⟩

end SymbolAtlas
