import SymbolAtlas.Table
import SymbolAtlas.Path
import SymbolAtlas.Text.Quoted
import SymbolAtlas.Text.Utf8

/-!
A snapshot of files and directories, and what the system answers when a path is walked in it.
Permissions are outside the snapshot: whoever asks may look into every directory and read every
file.
-/

set_option autoImplicit false

namespace SymbolAtlas

inductive Errno
  | noEntry
  | exists
  | notDirectory
  | isDirectory
  | nameTooLong
  deriving DecidableEq, Repr

namespace Errno

def number : Errno → Nat
  | .noEntry => 2
  | .exists => 17
  | .notDirectory => 20
  | .isDirectory => 21
  | .nameTooLong => 36

def reason : Errno → String
  | .noEntry => "No such file or directory"
  | .exists => "File exists"
  | .notDirectory => "Not a directory"
  | .isDirectory => "Is a directory"
  | .nameTooLong => "File name too long"

def message (e : Errno) (p : Path) : String :=
  "[Errno " ++ writeNat e.number ++ "] " ++ e.reason ++ ": " ++ Text.display p.text

end Errno

/-- What can be found at a place. How large a directory is said to be is up to the system. -/
inductive Entry
  | file (octets : List UInt8)
  | directory (size : Nat)
  deriving DecidableEq, Repr

namespace Entry

def usualSize : Nat := 4096

def size : Entry → Nat
  | .file octets => octets.length
  | .directory size => size

def isDirectory : Entry → Bool
  | .file _ => false
  | .directory _ => true

end Entry

/-- Entries by their absolute places. The root itself needs no entry. -/
structure FileTree where
  entries : Table (List String) Entry

namespace FileTree

def empty : FileTree := ⟨Table.empty⟩

instance : Inhabited FileTree := ⟨empty⟩

def entry? (t : FileTree) (place : List String) : Option Entry :=
  if place = [] then some (.directory Entry.usualSize) else t.entries.get? place

def addDirectory (t : FileTree) (place : List String) : FileTree :=
  (List.range (place.length + 1)).foldl (fun (t : FileTree) (k : Nat) =>
    if k = 0 ∨ (t.entry? (place.take k)).isSome then t
    else ⟨t.entries.insert (place.take k) (.directory Entry.usualSize)⟩) t

def setFile (t : FileTree) (place : List String) (octets : List UInt8) : FileTree :=
  ⟨t.entries.insert place (.file octets)⟩

def addFile (t : FileTree) (place : List String) (octets : List UInt8) : FileTree :=
  (t.addDirectory place.dropLast).setFile place octets

def remove (t : FileTree) (place : List String) : FileTree :=
  ⟨Table.ofList (t.entries.entries.filter fun row => !place.isPrefixOf row.1)⟩

/-- The longest name, and the longest path, in octets. -/
def maxName : Nat := 255
def maxPath : Nat := 4095

/-- Follow segments from a place. Every step needs a directory to start from. -/
def walk (t : FileTree) : List String → List String → Except Errno (List String)
  | place, [] => .ok place
  | place, segment :: rest =>
    match t.entry? place with
    | none => .error .noEntry
    | some (.file _) => .error .notDirectory
    | some (.directory _) =>
      if segment = ".." then walk t place.dropLast rest
      else if maxName < segment.utf8ByteSize then .error .nameTooLong
      else if (t.entry? (place ++ [segment])).isNone then .error .noEntry
      else walk t (place ++ [segment]) rest

def locate (t : FileTree) (p : Path) : Except Errno (List String) :=
  if maxPath < p.text.utf8ByteSize then .error .nameTooLong else t.walk [] p.segments

def find (t : FileTree) (p : Path) : Except Errno Entry :=
  match t.locate p with
  | .error e => .error e
  | .ok place =>
    match t.entry? place with
    | some e => .ok e
    | none => .error .noEntry

def read (t : FileTree) (p : Path) : Except Errno (List UInt8) :=
  match t.find p with
  | .error e => .error e
  | .ok (.directory _) => .error .isDirectory
  | .ok (.file octets) => .ok octets

end FileTree

def holdsNul (s : String) : Bool := s.toList.contains '\x00'

end SymbolAtlas
