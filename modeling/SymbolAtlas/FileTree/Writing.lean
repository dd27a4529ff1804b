import SymbolAtlas.FileTree

/-!
Making directories and writing to files.
-/

set_option autoImplicit false

namespace SymbolAtlas.FileTree

def makeDirectory (t : FileTree) (p : Path) : Except Errno FileTree :=
  if maxPath < p.text.utf8ByteSize then .error .nameTooLong
  else
    match t.walk [] p.segments.dropLast, p.segments.getLast? with
    | .error e, _ => .error e
    | .ok _, none => .error .exists
    | .ok place, some last =>
      match t.entry? place with
      | none => .error .noEntry
      | some (.file _) => .error .notDirectory
      | some (.directory _) =>
        if last = ".." then .error .exists
        else if maxName < last.utf8ByteSize then .error .nameTooLong
        else if (t.entry? (place ++ [last])).isSome then .error .exists
        else .ok ⟨t.entries.insert (place ++ [last]) (.directory Entry.usualSize)⟩

def isDirectory (t : FileTree) (p : Path) : Bool :=
  match t.find p with
  | .ok entry => entry.isDirectory
  | .error _ => false

def ensureDirectory (t : FileTree) (p : Path) : Except Errno FileTree :=
  match t.makeDirectory p with
  | .ok t => .ok t
  | .error e => if e ≠ .noEntry ∧ t.isDirectory p then .ok t else .error e

/-- A directory with those above it that are missing, up to a number of them. A refusal names the
directory it is about. -/
def ensureDirectories : (count : Nat) → FileTree → Path → Except (Errno × Path) FileTree
  | 0, t, p => (t.ensureDirectory p).mapError fun e => (e, p)
  | count + 1, t, p =>
    match t.ensureDirectory p with
    | .ok t => .ok t
    | .error .noEntry =>
      match ensureDirectories count t p.parent with
      | .error e => .error e
      | .ok t => (t.ensureDirectory p).mapError fun e => (e, p)
    | .error e => .error (e, p)

def openFile (t : FileTree) (p : Path) : Except Errno FileTree :=
  match t.find p with
  | .ok (.file _) => .ok t
  | .ok (.directory _) => .error .isDirectory
  | .error .noEntry =>
    match t.walk [] p.segments.dropLast, p.segments.getLast? with
    | .ok place, some last =>
      if (t.entry? place).any Entry.isDirectory then .ok (t.setFile (place ++ [last]) [])
      else .error .notDirectory
    | .error e, _ => .error e
    | .ok _, none => .error .isDirectory
  | .error e => .error e

/-- Add octets to the end of a file. Nothing happens where there is none. -/
def append (t : FileTree) (p : Path) (octets : List UInt8) : FileTree :=
  match t.locate p with
  | .error _ => t
  | .ok place =>
    match t.entry? place with
    | some (.file old) => t.setFile place (old ++ octets)
    | _ => t

end SymbolAtlas.FileTree
