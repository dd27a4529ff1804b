import SymbolAtlas.Arithmetic
import SymbolAtlas.Facts
import SymbolAtlas.FileTree
import SymbolAtlas.Source

/-!
The facts of files. Whatever goes wrong with one file stays with that file: it contributes nothing
and says why.
-/

set_option autoImplicit false

namespace SymbolAtlas

structure Workspace where
  installed : Installation
  parser : Parser
  files : FileTree
  current : Path
  /-- The directory that file paths are relative to, as it was given. -/
  root : Path

namespace Workspace

def find (w : Workspace) (p : Path) : Except Errno Entry := w.files.find (w.current.below p)

def read (w : Workspace) (p : Path) : Except Errno (List UInt8) := w.files.read (w.current.below p)

end Workspace

inductive ExtractionFault
  | nulInPath
  | crashed (crash : Crash)
  | captures (message : String)
  | limit (fault : ArithmeticFault)
  deriving DecidableEq, Repr

def ExtractionFault.message : ExtractionFault → String
  | .nulInPath => "embedded null byte"
  | .crashed crash => crash.message
  | .captures message => message
  | .limit fault => fault.message

structure Attempt where
  outcome : Except ExtractionFault FileFacts
  registry : Registry
  events : List Event

namespace Extraction

def unreadable (r : Registry) (facts : FileFacts) (full : Path) (e : Errno) : Attempt :=
  ⟨.ok { facts with error := some ("Unreadable: " ++ e.reason) }, r,
    [.fileUnreadable facts.path (e.message full)]⟩

def ofParsed (w : Workspace) (r : Registry) (events : List Event) (facts : FileFacts)
    (p : Parsed) : Attempt :=
  let noted :=
    if p.count.faults = 0 then events
    else events ++ [.fileParsedWithErrors facts.path p.count.faults]
  match w.parser.queryFault? facts.path with
  | some message => ⟨.error (.captures message), r, noted⟩
  | none =>
    let counted := { facts with lineCount := p.lineCount, errorCount := p.count.faults }
    ⟨.ok (counted.addCaptures p.captures), r, noted⟩

def ofSource (w : Workspace) (r : Registry) (facts : FileFacts) (source : List UInt8) : Attempt :=
  let step := parseSource w.installed w.parser r facts.path source
  match step.outcome with
  | .crashed crash => ⟨.error (.crashed crash), step.registry, step.events⟩
  | .failed .unsupported =>
    ⟨.ok { facts with unsupported := true }, step.registry, step.events⟩
  | .failed (.malformed message) =>
    ⟨.ok { facts with error := some ("malformed: " ++ message) }, step.registry,
      step.events ++ [.fileParseFailed facts.path message]⟩
  | .parsed p => ofParsed w step.registry step.events facts p

def ofFile (w : Workspace) (limit : Int) (r : Registry) (facts : FileFacts) : Attempt :=
  let full := w.root.below (Path.ofText facts.path)
  if holdsNul full.text then ⟨.error .nulInPath, r, []⟩
  else
    match w.find full with
    | .error e => unreadable r facts full e
    | .ok entry =>
      -- A directory has a size too. That it is none to be read comes out only below.
      if limit < (entry.size : Int) then
        ⟨.ok { facts with error := some ("File too large (" ++ writeNat entry.size ++ " bytes)") },
          r, [.fileTooLarge facts.path entry.size limit]⟩
      else
        match w.read full with
        | .error e => unreadable r facts full e
        | .ok source => ofSource w r facts source

def attempt (w : Workspace) (limit : Int) (r : Registry) (path : String) : Attempt :=
  match r.languageFor path with
  | none => ⟨.ok { FileFacts.blank path none with unsupported := true }, r, []⟩
  | some language => ofFile w limit r (FileFacts.blank path (some language))

def broken (r : Registry) (path : String) (fault : ExtractionFault) : FileFacts :=
  { FileFacts.blank path (r.languageFor path) with error := some fault.message }

structure Batch where
  facts : List FileFacts
  registry : Registry
  notices : List Notice

def settle (r : Registry) (path : String) :
    Except ExtractionFault FileFacts → FileFacts × List Notice
  | .ok facts => (facts, [])
  | .error fault =>
    (broken r path fault, [⟨.caller, .fileExtractionFailed path fault.message⟩])

def sizeLimit (megabytes : Float) : Except ArithmeticFault Int :=
  truncateFloat (megabytes * 1024 * 1024)

/-- One more file in the calling thread. The limit is worked out for every file anew, and a limit
that cannot be is a fault of the file. -/
def addSequential (w : Workspace) (megabytes : Float) (batch : Batch) (path : String) : Batch :=
  let tried : Attempt :=
    match sizeLimit megabytes with
    | .error fault => ⟨.error (.limit fault), batch.registry, []⟩
    | .ok limit => attempt w limit batch.registry path
  let (facts, notices) := settle tried.registry path tried.outcome
  ⟨batch.facts ++ [facts], tried.registry,
    batch.notices ++ tried.events.map (fun e => ⟨.caller, e⟩) ++ notices⟩

def sequential (w : Workspace) (megabytes : Float) (r : Registry) (paths : List String) : Batch :=
  paths.foldl (addSequential w megabytes) ⟨[], r, []⟩

/-- The order in which workers get through numbered tasks. -/
abbrev Schedule := List (Nat × String) → List (Nat × String)

structure Progress where
  outcomes : List (Nat × Except ExtractionFault FileFacts)
  registry : Registry
  events : List Event

def work (w : Workspace) (limit : Int) (p : Progress) (task : Nat × String) : Progress :=
  let tried := attempt w limit p.registry task.2
  ⟨p.outcomes ++ [(task.1, tried.outcome)], tried.registry, p.events ++ tried.events⟩

def tasks (paths : List String) : List (Nat × String) := (List.range paths.length).zip paths

/-- Files by several workers that share the registry. Results stand in the order of the paths,
whatever the schedule. -/
def parallel (w : Workspace) (limit : Int) (schedule : Schedule) (r : Registry)
    (paths : List String) : Batch :=
  let done := (schedule (tasks paths)).foldl (work w limit) ⟨[], r, []⟩
  let settled := (tasks paths).filterMap fun task =>
    (done.outcomes.lookup task.1).map (settle done.registry task.2)
  ⟨settled.map Prod.fst, done.registry,
    done.events.map (fun e => ⟨.worker, e⟩) ++ settled.flatMap Prod.snd⟩

def workerCount (configured : Nat) (files : Nat) : Nat := max 1 (min configured files)

/-- All files of a batch. With several workers the limit is worked out once, and a limit that cannot
be ends the batch. -/
def extract (w : Workspace) (megabytes : Float) (workers : Nat) (schedule : Schedule)
    (r : Registry) (paths : List String) : Except ArithmeticFault Batch :=
  if workerCount workers paths.length ≤ 1 then .ok (sequential w megabytes r paths)
  else
    match sizeLimit megabytes with
    | .error e => .error e
    | .ok limit => .ok (parallel w limit schedule r paths)

end Extraction

end SymbolAtlas
