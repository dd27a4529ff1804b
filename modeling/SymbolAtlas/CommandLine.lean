import SymbolAtlas.CommandLine.Commands
import SymbolAtlas.Log.Journal
import SymbolAtlas.Scoring
import SymbolAtlas.Text.Blank
import SymbolAtlas.Wire

/-!
The command line: from its words to what is printed, what is logged and how the program ends.
-/

set_option autoImplicit false

namespace SymbolAtlas.CommandLine

inductive Request
  | help (of : CommandSpec)
  | version
  | scores (root : String) (files : List String) (indent : Int) (stats : Bool)
  | languages (json check : Bool)
  /-- The root that is given cannot be the name of anything. -/
  | unusableRoot

structure Invocation where
  request : Request
  verbose : Bool

structure Misuse where
  command : CommandSpec
  fault : UsageFault

/-- Read the words of a command, and let help and version go before all else. -/
def readCommand (c : CommandSpec) (mixed : Bool) (words : List String)
    (k : Words → Except UsageFault Request) : Except Misuse Request :=
  match readWords c.options mixed words with
  | .error e => .error ⟨c, .option e⟩
  | .ok w =>
    match w.firstOf? [helpOption.name, versionOption.name] with
    | some name => .ok (if name = helpOption.name then .help c else .version)
    | none =>
      match k w with
      | .error e => .error ⟨c, e⟩
      | .ok r => .ok r

def readDigits? : List Char → Option (List Char)
  | [] => none
  | [c] => if c.isDigit then some [c] else none
  | c :: '_' :: rest => if c.isDigit then (readDigits? rest).map (c :: ·) else none
  | c :: rest => if c.isDigit then (readDigits? rest).map (c :: ·) else none

def readInteger? (s : String) : Option Int :=
  let (negative, digits) := readSign (Text.trim s.toList)
  match readDigits? digits with
  | none => none
  | some digits =>
    if maxDigits < digits.length then none
    else
      let n : Int := ofDigits 10 digits
      some (if negative then -n else n)

def builtinIndent : Int := 2

def indentOf (w : Words) : Except UsageFault Int :=
  match w.last? indentOption.name with
  | none => .ok builtinIndent
  | some value =>
    match readInteger? value with
    | some n => .ok n
    | none => .error (.badInteger indentOption.name value)

def scoresRequest (w : Words) : Except UsageFault Request :=
  match indentOf w with
  | .error e => .error e
  | .ok indent =>
    match w.others with
    | [] => .error (.missingArgument "ROOT")
    | root :: files =>
      if holdsNul root then .ok .unusableRoot
      else if files = [] then .error (.missingArgument "FILES...")
      else .ok (.scores root files indent (w.has statsOption.name))

def languagesRequest (w : Words) : Except UsageFault Request :=
  match w.others with
  | [] => .ok (.languages (w.has jsonOption.name) (w.has checkOption.name))
  | extra => .error (.extraArguments extra)

/-- A command nobody knows. A word that looks like an option is read as one first. -/
def unknownCommand (name : String) (rest : List String) : Except Misuse Request :=
  readCommand programSpec false (name :: rest) fun _ =>
    .error (.unknownCommand name (Text.near name (programSpec.commands.map Prod.fst)))

def readRequest : List String → Except Misuse Request
  | [] => .error ⟨programSpec, .missingCommand⟩
  | name :: rest =>
    if name = "scores" then readCommand scoresSpec true rest scoresRequest
    else if name = "languages" then readCommand languagesSpec true rest languagesRequest
    else unknownCommand name rest

def readInvocation (words : List String) : Except Misuse Invocation :=
  match readWords programSpec.options false words with
  | .error e => .error ⟨programSpec, .option e⟩
  | .ok w =>
    let verbose := w.has verboseOption.name
    match w.firstOf? [helpOption.name, versionOption.name] with
    | some name => .ok ⟨if name = helpOption.name then .help programSpec else .version, verbose⟩
    | none => (readRequest w.others).map fun r => ⟨r, verbose⟩

inductive Uncaught
  | scoring (fault : ScoringFault)
  | grammar (crash : Crash)

def Uncaught.message : Uncaught → String
  | .scoring fault => fault.message
  | .grammar crash => crash.message

structure Outcome where
  exitCode : Nat
  output : LogOutput
  journal : Journal
  registry : Registry
  uncaught : Option Uncaught

structure Setting where
  around : Surroundings
  registry : Registry
  time : String
  requestId : String

namespace Outcome

def print (text : String) (out : LogOutput) : LogOutput := { out with stdout := out.stdout ++ text }

def complain (text : String) (out : LogOutput) : LogOutput :=
  { out with stderr := out.stderr ++ text }

end Outcome

def layoutOf (indent : Int) : Json.Layout := .ofIndent (if indent = 0 then none else some indent)

def atlasText (indent : Int) (stats : Bool) (a : Atlas Float) : String :=
  let counters : Rows :=
    if stats then [(.text "stats", .record a.stats.fields)] else []
  Json.write (layoutOf indent) (.map (a.wireRows ++ counters)) ++ "\n"

/-- The scores command. The request ends with the scoring call, whatever comes of it. -/
def runScores (s : Setting) (j : Journal) (out : LogOutput) (root : String) (files : List String)
    (indent : Int) (stats : Bool) : Outcome :=
  let opened := j.beginRequest s.requestId none
  let done := scoreFiles s.around s.registry (Path.ofText root).text (.ofTexts files) none
  let out := opened.recordAll s.time done.notices out
  let closed := opened.endRequest
  match done.outcome with
  | .ok atlas =>
    ⟨0, Outcome.print (atlasText indent stats atlas) out, closed, done.registry, none⟩
  | .error e =>
    match e.coded? with
    | some c => ⟨1, Outcome.complain ("Error: " ++ c.text ++ "\n") out, closed, done.registry, none⟩
    | none => ⟨1, out, closed, done.registry, some (.scoring e)⟩

structure LanguageRow where
  language : String
  extensions : List String
  grammar : String
  available : Option Bool

namespace LanguageRow

def ofPack (p : Pack) (available : Option Bool) : LanguageRow :=
  ⟨p.language.name, p.extensions.mergeSort (· ≤ ·), p.package, available⟩

def toValue (r : LanguageRow) : Value :=
  .record ([("language", .text r.language), ("extensions", .list (r.extensions.map Value.text)),
    ("grammar", .text r.grammar)] ++ (r.available.map fun b => ("available", Value.bool b)).toList)

def line (r : LanguageRow) : String :=
  let column (width : Nat) (s : String) : String := String.ofList (padRight width ' ' s.toList)
  column 12 r.language ++ " " ++ column 14 (joinWith " " r.extensions) ++ " " ++ r.grammar ++
    (match r.available with
     | none => ""
     | some true => "  ok"
     | some false => "  unavailable") ++ "\n"

end LanguageRow

/-- Packs with what became of loading them, if that is asked for. A crash ends the list. -/
def languageRows (installed : Installation) (check : Bool) :
    List Pack → Registry → Except Crash (List LanguageRow) × Registry × List Event
  | [], r => (.ok [], r, [])
  | p :: rest, r =>
    let found : Lookup :=
      if check then r.profileFor installed p.language else ⟨.ok none, r, []⟩
    match found.profile with
    | .error crash => (.error crash, found.registry, found.events)
    | .ok profile =>
      let (rows, r, events) := languageRows installed check rest found.registry
      (rows.map (.ofPack p (if check then some profile.isSome else none) :: ·), r,
        found.events ++ events)

def runLanguages (s : Setting) (j : Journal) (out : LogOutput) (json check : Bool) : Outcome :=
  let (rows, r, events) :=
    languageRows s.around.installed check s.registry.languages s.registry
  let out := j.recordAll s.time (events.map fun e => ⟨.caller, e⟩) out
  match rows with
  | .error crash => ⟨1, out, j, r, some (.grammar crash)⟩
  | .ok rows =>
    let text :=
      if json then Json.write (.lines 2) (.list (rows.map LanguageRow.toValue)) ++ "\n"
      else String.join (rows.map LanguageRow.line)
    ⟨0, Outcome.print text out, j, r, none⟩

def loggingFor (verbose : Bool) : LoggingSettings :=
  ⟨if verbose then .debug else .warning, [.builtin]⟩

def misuseCode : Nat := 2

def perform (s : Setting) (inv : Invocation) (out : LogOutput) : Outcome :=
  let (j, files, _) := Journal.silent.configure (loggingFor inv.verbose) out.files
  let logged := { out with files := files }
  match inv.request with
  | .help c => ⟨0, Outcome.print c.help out, .silent, s.registry, none⟩
  | .version => ⟨0, Outcome.print versionText out, .silent, s.registry, none⟩
  | .scores root paths indent stats => runScores s j logged root paths indent stats
  | .languages json check => runLanguages s j logged json check
  | .unusableRoot => ⟨1, logged, j, s.registry, some (.scoring .nulInPath)⟩

/-- Run the program. Without any words it shows its help as a wrong use. -/
def run (s : Setting) (words : List String) : Outcome :=
  let out : LogOutput := ⟨s.around.sources.files, "", ""⟩
  match words with
  | [] => ⟨misuseCode, Outcome.complain programSpec.help out, .silent, s.registry, none⟩
  | words =>
    match readInvocation words with
    | .error m =>
      ⟨misuseCode, Outcome.complain (m.fault.report m.command) out, .silent, s.registry, none⟩
    | .ok inv => perform s inv out

end SymbolAtlas.CommandLine
