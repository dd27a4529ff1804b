import SymbolAtlas.CommandLine
import SymbolAtlas.Json.Read
import SymbolAtlas.Language.Packs
import SymbolAtlas.Log.Clock
import SymbolAtlas.SyntaxTree.Dump

/-!
The program. It takes a snapshot of the files its words speak of, runs on the snapshot and prints
what comes of it. The syntax tree of a source is read from a file beside it that has the name of
the source and the ending `.tree`.
-/

set_option autoImplicit false

namespace SymbolAtlas.Program

def octetsOf (path : String) : IO (List UInt8) := do
  match ← (IO.FS.readBinFile path).toBaseIO with
  | .ok octets => return octets.toList
  | .error _ => return []

def textOf (path : String) : IO String := do
  return Utf8.decodeLossy (← octetsOf path)

def isDirectoryCode : UInt32 := 21

def entryAt (place : List String) : IO (Option Entry) := do
  match ← (IO.FS.readBinFile (Path.text ⟨.root, place⟩)).toBaseIO with
  | .ok octets => return some (.file octets.toList)
  | .error (.inappropriateType _ code _) =>
    return if code = isDirectoryCode then some (.directory Entry.usualSize) else none
  | .error _ => return none

def capture (files : FileTree) (p : Path) : IO FileTree := do
  let mut files := files
  let mut place : List String := []
  for segment in p.segments do
    place := if segment = ".." then place.dropLast else place ++ [segment]
    match ← entryAt place with
    | some (.directory _) => files := files.addDirectory place
    | some (.file octets) => files := files.setFile place octets
    | none => return files
  return files

def environment : IO (List (String × String)) := do
  let text ← textOf "/proc/self/environ"
  return (text.splitOn "\x00").filterMap fun entry =>
    match entry.splitOn "=" with
    | name :: value :: more => some (name, "=".intercalate (value :: more))
    | _ => none

def leadingNumber (s : String) : Nat := ofDigits 10 (s.toList.takeWhile Char.isDigit)

/-- Seconds since the beginning of 1970: when the system was started, and for how long it is up. -/
def now : IO Nat := do
  let lines := (← textOf "/proc/stat").splitOn "\n"
  let started := lines.findSome? fun line =>
    ("btime ".toList.isPrefixOf? line.toList).map fun rest => leadingNumber (String.ofList rest)
  return started.getD 0 + leadingNumber (← textOf "/proc/uptime")

def processors : IO Nat := do
  let lines := (← textOf "/proc/cpuinfo").splitOn "\n"
  return max 1 (lines.countP fun line => "processor".toList.isPrefixOf line.toList)

def sourcesIn (words : List String) : Path × List String :=
  match CommandLine.readInvocation words with
  | .ok ⟨.scores root files _ _, _⟩ => (.ofText root, files)
  | _ => (.ofText "", [])

def treesOf (root : Path) (paths : List String) : IO (List (String × SyntaxTree)) := do
  let mut trees : List (String × SyntaxTree) := []
  for path in paths do
    let full := root.below (.ofText path)
    if let some v := Json.read (← textOf (full.text ++ ".tree")) then
      if let some t := SyntaxTree.ofValue? v then
        trees := (path, t) :: trees
  return trees

def parserOf (trees : List (String × SyntaxTree)) : Parser where
  parse path _ _ :=
    match trees.lookup path with
    | some t => .tree t
    | none => .noTree
  queryFault? _ := none

def installed : Installation := Installation.ofPacks Packs.shipped Grammar.permissive

def freshRequestId : IO String := do
  return String.ofList (hexDigits 12 (← IO.rand 0 0xFFFFFFFFFFFF))

def snapshot (current userFile root : Path) (paths : List String) : IO FileTree := do
  let base := current.below root
  let wanted := [base, userFile, Settings.repositoryFile base] ++
    paths.map fun path => base.below (.ofText path)
  wanted.foldlM capture FileTree.empty

def setting (words : List String) : IO CommandLine.Setting := do
  let started ← IO.monoMsNow
  let current := Path.ofText (← IO.currentDir).toString
  let vars ← environment
  let home := (vars.lookup "HOME").getD "/"
  let userFile := (Path.ofText home).below ⟨.relative, [".config", "codemap", "config.yaml"]⟩
  let (root, paths) := sourcesIn words
  let files ← snapshot current userFile root paths
  let trees ← treesOf (current.below root) paths
  let sources : SettingsSources :=
    { files := files
      current := current
      userFile := userFile
      loader := .builtin
      environment := vars
      accounts := ⟨some home, []⟩ }
  return {
    around :=
      { installed := installed
        parser := parserOf trees
        sources := sources
        processors := ← processors
        schedule := id
        durationMs := (← IO.monoMsNow) - started }
    registry := Registry.ofPacks Packs.table
    time := Clock.text (← now)
    requestId := ← freshRequestId }

end SymbolAtlas.Program

def main (words : List String) : IO UInt32 := do
  let done := SymbolAtlas.CommandLine.run (← SymbolAtlas.Program.setting words) words
  IO.eprint done.output.stderr
  IO.print done.output.stdout
  if let some fault := done.uncaught then
    IO.eprintln fault.message
  return UInt32.ofNat done.exitCode
