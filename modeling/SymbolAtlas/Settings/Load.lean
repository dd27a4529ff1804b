import SymbolAtlas.Error
import SymbolAtlas.FileTree
import SymbolAtlas.Settings.Environment
import SymbolAtlas.Settings.Validation
import SymbolAtlas.Text.Lines
import SymbolAtlas.Yaml.Loader

/-!
Loading settings. A key is taken from the first source that sets it: the arguments of the call, the
environment, the file of the repository, the file of the user; built-in values come last.
-/

set_option autoImplicit false

namespace SymbolAtlas

inductive SettingsFault
  | unreadable (path : Path) (why : Errno)
  | undecodable (why : Utf8.Invalid)
  | unparsable (path : Path) (why : Yaml.Fault)
  | notMapping (path : Path)
  | garbledVariable (title : String)
  | unnamedSection
  | invalid (issue : Issue)
  | homeless
  /-- Settings that were accepted are rejected when they are read again. -/
  | unstable (issues : List Issue)

def noMapping : String := "top-level value must be a mapping"

def SettingsFault.config? : SettingsFault → Option ConfigError
  | .unparsable path (.malformed what line column) =>
    some (.unparsable path.text (Yaml.Fault.malformed what line column).message)
  | .notMapping path => some (.unparsable path.text noMapping)
  | .invalid issue => some (.invalidValue issue.location issue.input issue.complaint.message)
  | _ => none

def SettingsFault.message : SettingsFault → String
  | .unreadable path why => why.message path
  | .undecodable why => why.message
  | .unparsable _ why => why.message
  | .notMapping _ => noMapping
  | .garbledVariable title =>
    "error parsing value for field \"" ++ title ++ "\" from source \"EnvSettingsSource\""
  | .unnamedSection => "keywords must be strings"
  | .invalid issue => issue.complaint.message
  | .homeless => "Could not determine home directory."
  | .unstable _ => "settings are rejected when they are read again"

structure SettingsSources where
  files : FileTree
  current : Path
  userFile : Path
  loader : Yaml.Loader
  environment : List (String × String)
  accounts : Accounts

namespace SettingsFile

/-- The mapping in the text of a settings file. An empty document is an empty mapping. -/
def parse (loader : Yaml.Loader) (path : Path) (cs : List Char) : Except SettingsFault Rows :=
  match loader.load (Text.unifyNewlines cs) with
  | .error e => .error (.unparsable path e)
  | .ok v =>
    if v.isEmpty then .ok []
    else
      match v with
      | .map rows => .ok rows
      | _ => .error (.notMapping path)

def decode (loader : Yaml.Loader) (path : Path) (octets : List UInt8) :
    Except SettingsFault Rows :=
  match Utf8.decode octets with
  | .error e => .error (.undecodable e)
  | .ok cs => parse loader path cs

/-- The mapping in a settings file. A missing file says nothing. -/
def load (loader : Yaml.Loader) (files : FileTree) (current path : Path) :
    Except SettingsFault Rows :=
  if holdsNul path.text then .ok []
  else
    match files.read (current.below path) with
    | .error .noEntry => .ok []
    | .error .notDirectory => .ok []
    | .error e => .error (.unreadable path e)
    | .ok octets => decode loader path octets

end SettingsFile

def SettingsSources.read (src : SettingsSources) (path : Path) : Except SettingsFault Rows :=
  SettingsFile.load src.loader src.files src.current path

namespace Settings

def repositoryFile (root : Path) : Path := root.below ⟨.relative, [".codemap", "config.yaml"]⟩

def isText : Scalar → Bool
  | .text _ => true
  | _ => false

def isSection (k : Scalar) : Bool :=
  match k with
  | .text name => Section.all.any fun s => s.title = name
  | _ => false

/-- Arguments with the sections in their usual order, and what is no section after them. -/
def arrange (arguments : Rows) : Rows :=
  (Section.all.filterMap fun s => (arguments.get? s.title).map fun v => (Scalar.text s.title, v)) ++
    arguments.filter fun row => !isSection row.1

def fileRows (src : SettingsSources) (root : Path) : Except SettingsFault Rows :=
  match src.read src.userFile with
  | .error e => .error e
  | .ok user =>
    match src.read (repositoryFile root) with
    | .error e => .error e
    | .ok repository => .ok (Rows.overlay user repository)

def mergedRows (src : SettingsSources) (root : Path) (arguments : Rows) :
    Except SettingsFault Rows :=
  match fileRows src root with
  | .error e => .error e
  | .ok files =>
    match Environment.sections (Environment.lowered src.environment) Section.all with
    | .error s => .error (.garbledVariable s.title)
    | .ok environment =>
      .ok (Rows.overlay files (Rows.overlay environment (arrange arguments)))

def strangers (rows : Rows) : Verdict Unit :=
  match rows.filter fun row => !isSection row.1 with
  | [] => .accepted ()
  | unknown => .rejected (unknown.map fun row =>
      ⟨[(Value.scalar row.1).plain], .unknownSection, row.2⟩)

def ofRows (accounts : Accounts) (rows : Rows) : Except SettingsFault Settings :=
  if !rows.all fun row => isText row.1 then .error .unnamedSection
  else
    match (Validation.sections accounts rows).both (strangers rows) with
    | .accepted (s, _) => .ok s
    | .rejected [] => .error (.unstable [])
    | .rejected (issue :: _) => .error (.invalid issue)
    | .homeless => .error .homeless

def reread (accounts : Accounts) (s : Settings) : Except SettingsFault Settings :=
  match Validation.settings accounts s.toValue with
  | .accepted s => .ok s
  | .rejected issues => .error (.unstable issues)
  | .homeless => .error .homeless

def load (src : SettingsSources) (root : Path) (arguments : Rows) :
    Except SettingsFault Settings :=
  if !arguments.all fun row => isText row.1 then .error .unnamedSection
  else
    match mergedRows src root arguments with
    | .error e => .error e
    | .ok rows =>
      match ofRows src.accounts rows with
      | .error e => .error e
      | .ok s => reread src.accounts s

end Settings

end SymbolAtlas
