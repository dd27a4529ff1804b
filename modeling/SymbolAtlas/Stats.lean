import SymbolAtlas.Value

/-!
Counters of one build.
-/

set_option autoImplicit false

namespace SymbolAtlas

structure BuildStats where
  filesProcessed : Nat
  filesUnsupported : Nat
  filesFailed : Nat
  definitions : Nat
  references : Nat
  referencesDropped : Nat
  durationMs : Nat
  deriving DecidableEq, Repr

def BuildStats.fields (s : BuildStats) : List (String × Value) :=
  [("files_processed", .ofNat s.filesProcessed), ("files_unsupported", .ofNat s.filesUnsupported),
   ("files_failed", .ofNat s.filesFailed), ("definitions", .ofNat s.definitions),
   ("references", .ofNat s.references), ("references_dropped", .ofNat s.referencesDropped),
   ("duration_ms", .ofNat s.durationMs)]

end SymbolAtlas
