import SymbolAtlas.CommandLine.Usage

/-!
The commands of the program.
-/

set_option autoImplicit false

namespace SymbolAtlas.CommandLine

def flag (name shown help : String) : OptionSpec := ⟨name, none, false, shown, help⟩

def helpOption : OptionSpec := flag "--help" "--help" "Show this message and exit."

def versionOption : OptionSpec := flag "--version" "--version" "Show the version and exit."

def verboseOption : OptionSpec :=
  ⟨"--verbose", some 'v', false, "-v, --verbose", "Enable debug logging"⟩

def indentOption : OptionSpec :=
  ⟨"--indent", none, true, "--indent INTEGER", "JSON indent (0 for compact)  [default: 2]"⟩

def statsOption : OptionSpec := flag "--stats" "--stats" "Include build statistics"

def jsonOption : OptionSpec := flag "--json" "--json" "Output as JSON"

def checkOption : OptionSpec :=
  flag "--check" "--check" "Load each grammar and report availability"

def scoresAbout : String := "Score definitions in FILES and list their callers."

def languagesAbout : String := "List recognized file extensions and their grammars."

def programSpec : CommandSpec where
  call := "cli"
  operands := "[OPTIONS] COMMAND [ARGS]..."
  about := ["codemap - symbol definitions and callers across source files."]
  options := [versionOption, verboseOption, helpOption]
  commands := [("languages", languagesAbout), ("scores", scoresAbout)]

def scoresSpec : CommandSpec where
  call := "cli scores"
  operands := "[OPTIONS] ROOT FILES..."
  about := [scoresAbout, "ROOT is the directory FILES are relative to."]
  options := [indentOption, statsOption, helpOption]
  commands := []

def languagesSpec : CommandSpec where
  call := "cli languages"
  operands := "[OPTIONS]"
  about := [languagesAbout]
  options := [jsonOption, checkOption, helpOption]
  commands := []

def versionText : String := "codemap, version 0.1.0\n"

end SymbolAtlas.CommandLine
