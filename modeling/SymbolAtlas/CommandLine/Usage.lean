import SymbolAtlas.CommandLine.Options
import SymbolAtlas.Decimal.Style
import SymbolAtlas.Value.Display

/-!
Commands as their users see them: help texts and messages about wrong use.
-/

set_option autoImplicit false

namespace SymbolAtlas.CommandLine

structure CommandSpec where
  call : String
  operands : String
  about : List String
  options : List OptionSpec
  commands : List (String × String)

namespace CommandSpec

def usageLine (c : CommandSpec) : String := "Usage: " ++ c.call ++ " " ++ c.operands ++ "\n"

def tabulate (rows : List (String × String)) : String :=
  let width := (rows.map fun row => row.1.length).foldl max 0
  String.join (rows.map fun row =>
    "  " ++ String.ofList (padRight width ' ' row.1.toList) ++ "  " ++ row.2 ++ "\n")

def help (c : CommandSpec) : String :=
  let about := String.join (c.about.map fun paragraph => "\n  " ++ paragraph ++ "\n")
  let options := "\nOptions:\n" ++ tabulate (c.options.map fun o => (o.shown, o.help))
  let commands := if c.commands = [] then "" else "\nCommands:\n" ++ tabulate c.commands
  c.usageLine ++ about ++ options ++ commands

end CommandSpec

inductive UsageFault
  | option (fault : OptionFault)
  | missingArgument (name : String)
  | missingCommand
  | unknownCommand (name : String) (near : List String)
  | badInteger (name value : String)
  | extraArguments (words : List String)
  deriving DecidableEq, Repr

namespace UsageFault

def suggestion (near : List String) : String :=
  match near with
  | [] => ""
  | [name] => " Did you mean " ++ Text.display name ++ "?"
  | names => " (Did you mean one of: " ++ joinWith ", " (names.map Text.display) ++ "?)"

def message : UsageFault → String
  | .option (.unknown name near) =>
    "No such option " ++ Text.display name ++ "." ++ suggestion near
  | .option (.missingValue name) => "Option " ++ Text.display name ++ " requires an argument."
  | .option (.unwantedValue name) => "Option " ++ Text.display name ++ " does not take a value."
  | .missingArgument name => "Missing argument '" ++ name ++ "'."
  | .missingCommand => "Missing command."
  | .unknownCommand name near =>
    "No such command " ++ Text.display name ++ "." ++ suggestion near
  | .badInteger name value =>
    "Invalid value for '" ++ name ++ "': " ++ Text.display value ++ " is not a valid integer."
  | .extraArguments [word] => "Got unexpected extra argument (" ++ word ++ ")"
  | .extraArguments words => "Got unexpected extra arguments (" ++ joinWith " " words ++ ")"

/-- Whether a message comes with the usage of the command. A wrong value of an option does not. -/
def showsUsage : UsageFault → Bool
  | .option (.missingValue _) => false
  | .option (.unwantedValue _) => false
  | _ => true

def report (c : CommandSpec) (fault : UsageFault) : String :=
  let usage :=
    if fault.showsUsage then c.usageLine ++ "Try '" ++ c.call ++ " --help' for help.\n\n" else ""
  usage ++ "Error: " ++ fault.message ++ "\n"

end UsageFault

end SymbolAtlas.CommandLine
