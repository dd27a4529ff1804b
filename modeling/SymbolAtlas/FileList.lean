import SymbolAtlas.Error
import SymbolAtlas.Path

/-!
The list of files that a scoring call is given, and the paths in it.
-/

set_option autoImplicit false

namespace SymbolAtlas

inductive FileEntry
  | text (s : String)
  | path (p : Path)
  | other (v : Value)

inductive FileList
  /-- A single text or octet string is taken for a mistake. -/
  | oneText
  | single (v : Value)
  | entries (items : List FileEntry)

namespace FileList

def entryPath : FileEntry → Except ArgumentError String
  | .text s => .ok s
  | .path p => .ok p.text
  | .other v => .error (.badFileList ("path entries must be str, got " ++ v.kindName))

def paths : FileList → Except ArgumentError (List String)
  | .oneText => .error (.badFileList "expected a sequence of paths, got a single string")
  | .single v => .error (.badFileList ("not iterable: " ++ v.kindName))
  | .entries items => items.mapM entryPath

def ofTexts (paths : List String) : FileList := .entries (paths.map .text)

end FileList

end SymbolAtlas
