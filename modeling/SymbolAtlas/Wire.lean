import SymbolAtlas.Build
import SymbolAtlas.Json.Write

/-!
The atlas as the value that is written for other programs.
-/

set_option autoImplicit false

namespace SymbolAtlas.Atlas

def tableValue {α : Type} (f : α → Value) (t : Table String α) : Value :=
  .map (t.entries.map fun row => (.text row.1, f row.2))

def wireRows (a : Atlas Float) : Rows :=
  [(.text "tokenScores", tableValue (tableValue Value.float) a.scores),
   (.text "tokenCallers",
     tableValue (tableValue fun callers => .list (callers.map Value.text)) a.callers)]

def wire (layout : Json.Layout) (a : Atlas Float) : String :=
  Json.write layout (.map a.wireRows)

end SymbolAtlas.Atlas
