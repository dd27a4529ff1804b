import SymbolAtlas.Build
import SymbolAtlas.FileList
import SymbolAtlas.Settings.Load

/-!
The scoring call: check the arguments, find the settings, build the atlas.
-/

set_option autoImplicit false

namespace SymbolAtlas

structure Surroundings where
  installed : Installation
  parser : Parser
  sources : SettingsSources
  processors : Nat
  schedule : Extraction.Schedule
  durationMs : Nat

inductive ScoringFault
  | argument (e : ArgumentError)
  | unreadable (path : Path) (why : Errno)
  | nulInPath
  | settings (e : SettingsFault)
  | build (e : BuildFault)

def ScoringFault.coded? : ScoringFault → Option CodedError
  | .argument e => some e.coded
  | .settings e => e.config?.map ConfigError.coded
  | _ => none

def BuildFault.message : BuildFault → String
  | .arithmetic fault => fault.message
  | .caller (.noFile path) => Text.display path
  | .caller (.noToken token) => Text.display token

def ScoringFault.message : ScoringFault → String
  | .argument e => e.coded.text
  | .unreadable path why => why.message path
  | .nulInPath => "embedded null byte"
  | .settings e => ((e.config?.map fun c => c.coded.text)).getD e.message
  | .build e => e.message

namespace Settings

def scoringRule (s : Settings) : ScoringRule Float :=
  ⟨s.scoring.depthDecay, s.scoring.densityWeight, s.scoring.callBoost,
    roundSignificant s.scoring.precision⟩

def extractionRule (s : Settings) (around : Surroundings) : ExtractionRule :=
  ⟨s.indexer.maxFileSize.megabytes, s.indexer.maxWorkers.getD around.processors, around.schedule⟩

end Settings

namespace Scoring

def checkRoot (around : Surroundings) (root : String) : Except ScoringFault Path :=
  let path := Path.ofText root
  if holdsNul path.text then .error (.argument (.rootNotFound root))
  else
    match around.sources.files.find (around.sources.current.below path) with
    | .ok (.directory _) => .ok path
    | .ok (.file _) => .error (.argument (.rootNotDirectory root))
    | .error .noEntry => .error (.argument (.rootNotFound root))
    | .error .notDirectory => .error (.argument (.rootNotFound root))
    | .error e => .error (.unreadable path e)

structure Task where
  root : Path
  paths : List String
  settings : Settings

def chooseSettings (around : Surroundings) (root : Path) :
    Option Settings → Except ScoringFault Settings
  | some s => .ok s
  | none =>
    match Settings.load around.sources root [] with
    | .error e => .error (.settings e)
    | .ok s => .ok s

def prepare (around : Surroundings) (root : String) (files : FileList)
    (given : Option Settings) : Except ScoringFault Task :=
  match checkRoot around root with
  | .error e => .error e
  | .ok root =>
    match files.paths with
    | .error e => .error (.argument e)
    | .ok paths =>
      match chooseSettings around root given with
      | .error e => .error e
      | .ok settings => .ok ⟨root, paths, settings⟩

structure Step where
  outcome : Except ScoringFault (Atlas Float)
  registry : Registry
  notices : List Notice

def workspace (around : Surroundings) (root : Path) : Workspace where
  installed := around.installed
  parser := around.parser
  files := around.sources.files
  current := around.sources.current
  root := root

def perform (around : Surroundings) (r : Registry) (task : Task) : Step :=
  let built := buildAtlas (workspace around task.root) (task.settings.extractionRule around)
    task.settings.scoringRule around.durationMs r task.paths
  match built.outcome with
  | .ok atlas => ⟨.ok atlas, built.registry, built.notices⟩
  | .error e => ⟨.error (.build e), built.registry, built.notices⟩

end Scoring

/-- Score the definitions in files and list their callers. -/
def scoreFiles (around : Surroundings) (r : Registry) (root : String) (files : FileList)
    (given : Option Settings) : Scoring.Step :=
  match Scoring.prepare around root files given with
  | .error e => ⟨.error e, r, []⟩
  | .ok task => Scoring.perform around r task

end SymbolAtlas
