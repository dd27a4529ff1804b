import SymbolAtlas.FileTree.Writing
import SymbolAtlas.Log.Record
import SymbolAtlas.Path.Depth

/-!
The journal: where records go, and the request they belong to.
-/

set_option autoImplicit false

namespace SymbolAtlas

inductive LogTarget
  | stderr
  | stdout
  | file (path : Path)
  deriving DecidableEq, Repr

structure LogSink where
  target : LogTarget
  format : LogFormat
  level : LogLevel
  deriving DecidableEq, Repr

structure Journal where
  level : LogLevel
  sinks : List LogSink
  requestId : Option String
  deriving DecidableEq, Repr

structure LogOutput where
  files : FileTree
  stdout : String
  stderr : String

inductive LogFault
  | refused (why : Errno) (path : Path)
  | nulInPath
  deriving DecidableEq, Repr

def LogFault.message : LogFault → String
  | .refused why path => why.message path
  | .nulInPath => "embedded null byte"

namespace Journal

/-- A journal nobody has configured takes only the gravest records, and has no place for them. -/
def silent : Journal := ⟨.critical, [], none⟩

def openFile (files : FileTree) (path : Path) : Except LogFault (FileTree × Path) :=
  if holdsNul path.text then .error .nulInPath
  else
    match files.ensureDirectories path.parent.segments.length path.parent with
    | .error (e, p) => .error (.refused e p)
    | .ok files =>
      let full := Path.ofText (String.ofList (Path.normalize path.text.toList))
      match files.openFile full with
      | .error e => .error (.refused e full)
      | .ok files => .ok (files, full)

def openTarget (files : FileTree) (destination : String) :
    Except LogFault (FileTree × LogTarget) :=
  if destination = "stderr" then .ok (files, .stderr)
  else if destination = "stdout" then .ok (files, .stdout)
  else (openFile files (Path.ofText destination)).map fun (files, path) => (files, .file path)

def openSinks (general : LogLevel) : List OutputSettings → FileTree →
    List LogSink × FileTree × Option LogFault
  | [], files => ([], files, none)
  | s :: rest, files =>
    match openTarget files s.destination with
    | .error e => ([], files, some e)
    | .ok (files, target) =>
      let (sinks, files, fault) := openSinks general rest files
      (⟨target, s.format, s.level.getD general⟩ :: sinks, files, fault)

/-- Put outputs in place of the old ones. The outputs before one that cannot be opened stay. -/
def configure (j : Journal) (s : LoggingSettings) (files : FileTree) :
    Journal × FileTree × Option LogFault :=
  let (sinks, files, fault) := openSinks s.level s.outputs files
  ({ j with level := s.level, sinks := sinks }, files, fault)

/-- The outputs that take a message. It has to pass the general level first. -/
def takers (j : Journal) (m : LogMessage) : List LogSink :=
  if m.level < j.level.number then []
  else j.sinks.filter fun sink => decide ((sink.level.number : Int) ≤ m.level)

def writeLine (line : String) (out : LogOutput) : LogTarget → LogOutput
  | .stderr => { out with stderr := out.stderr ++ line ++ "\n" }
  | .stdout => { out with stdout := out.stdout ++ line ++ "\n" }
  | .file path => { out with files := out.files.append path (Utf8.encode (line ++ "\n")) }

def write (j : Journal) (m : LogMessage) (r : LogRecord) (out : LogOutput) : LogOutput :=
  (j.takers m).foldl (fun out sink => writeLine (r.line sink.format) out sink.target) out

def record (j : Journal) (time : String) (m : LogMessage) (out : LogOutput) : LogOutput :=
  j.write m (.ofMessage m time j.requestId) out

/-- The request that a notice belongs to. A worker knows of none. -/
def requestOf (j : Journal) : Origin → Option String
  | .caller => j.requestId
  | .worker => none

def noticeRecord (j : Journal) (time : String) (n : Notice) : LogRecord :=
  .ofMessage (.ofEvent n.event) time (j.requestOf n.origin)

def recordAll (j : Journal) (time : String) (notices : List Notice) (out : LogOutput) :
    LogOutput :=
  notices.foldl (fun out n => j.write (.ofEvent n.event) (j.noticeRecord time n) out) out

/-- Begin a request. An empty name is replaced by a fresh one. -/
def beginRequest (j : Journal) (fresh : String) (name : Option String) : Journal :=
  { j with requestId := some (match name with
      | some s => if s = "" then fresh else s
      | none => fresh) }

def endRequest (j : Journal) : Journal := { j with requestId := none }

end Journal

end SymbolAtlas
