import SymbolAtlas.Path
import SymbolAtlas.Settings
import SymbolAtlas.Settings.Coercion

/-!
Settings from documents. All complaints about fields are gathered; a check of a whole section
follows only where its fields are fine.
-/

set_option autoImplicit false

namespace SymbolAtlas

structure Accounts where
  home : Option String
  users : List (String × String)

namespace Accounts

def stripSlashes (s : String) : String :=
  let kept := (s.toList.reverse.dropWhile (· = '/')).reverse
  if kept = [] then "/" else String.ofList kept

/-- The home that a first segment `~` or `~user` stands for. -/
def homeOf? (a : Accounts) (segment : String) : Option String :=
  match segment.toList with
  | ['~'] => a.home.map stripSlashes
  | _ :: user => (a.users.lookup (String.ofList user)).map stripSlashes
  | [] => none

def expand (a : Accounts) (p : Path) : Option Path :=
  match p.anchor, p.segments with
  | .relative, first :: rest =>
    if first.toList.head? = some '~' then
      (a.homeOf? first).map fun home =>
        let base := Path.ofText home
        ⟨base.anchor, base.segments ++ rest⟩
    else some p
  | _, _ => some p

end Accounts

namespace Validation

def field {α : Type} (rows : Rows) (name : String) (builtin : α) (check : Value → Verdict α) :
    Verdict α :=
  match rows.get? name with
  | none => .accepted builtin
  | some v => (check v).inside name

def checked {α β : Type} (coerce : Value → Except Complaint α) (refine : α → Except String β)
    (v : Value) : Verdict β :=
  match coerce v with
  | .error complaint => .complain complaint v
  | .ok a =>
    match refine a with
    | .ok b => .accepted b
    | .error reason => .complain (.refused reason) v

def model {α : Type} (name : String) (fields : Rows → Verdict α) : Value → Verdict α
  | .map rows => fields rows
  | v => .complain (.notMapping name) v

def optional {α : Type} (check : Value → Verdict α) : Value → Verdict (Option α)
  | .scalar .null => .accepted none
  | v => (check v).map some

def level (v : Value) : Verdict LogLevel :=
  .ofExcept v (Coercion.choice LogLevel.all LogLevel.name v)

def format (v : Value) : Verdict LogFormat :=
  .ofExcept v (Coercion.choice LogFormat.all LogFormat.name v)

def streams : List String := ["stderr", "stdout"]

def destination (accounts : Accounts) (v : Value) : Verdict String :=
  match Coercion.text v with
  | .error complaint => .complain complaint v
  | .ok s =>
    if streams.contains s then .accepted s
    else
      match accounts.expand (Path.ofText s) with
      | none => .homeless
      | some p =>
        if p.isAbsolute then .accepted p.text
        else .complain (.refused ("File destination must be absolute path: " ++ s)) v

def output (accounts : Accounts) : Value → Verdict OutputSettings :=
  model "LogOutputConfig" fun rows =>
    let builtin := OutputSettings.builtin
    ((field rows "format" builtin.format format).both
      ((field rows "destination" builtin.destination (destination accounts)).both
        (field rows "level" builtin.level (optional level)))).map
      fun (format, destination, level) => ⟨format, destination, level⟩

def outputs (accounts : Accounts) (v : Value) : Verdict (List OutputSettings) :=
  match v with
  | .list items =>
    .all (((List.range items.length).zip items).map fun (i, item) =>
      (output accounts item).inside (writeNat i))
  | v => .complain .notList v

def logging (accounts : Accounts) : Value → Verdict LoggingSettings :=
  model "LoggingConfig" fun rows =>
    let builtin := LoggingSettings.builtin
    ((field rows "level" builtin.level level).both
      (field rows "outputs" builtin.outputs (outputs accounts))).map
      fun (level, outputs) => ⟨level, outputs⟩

def atLeastOne (n : Int) : Except String Nat :=
  if n < 1 then .error ("max_workers must be >= 1, got " ++ writeInt n) else .ok n.toNat

def positive (x : Float) : Except String SizeLimit :=
  if x ≤ 0 then .error ("max_file_size_mb must be positive, got " ++ NumberStyle.plain.write x)
  else .ok (.given x)

def indexer : Value → Verdict IndexerSettings :=
  model "IndexerConfig" fun rows =>
    let builtin := IndexerSettings.builtin
    ((field rows "max_workers" builtin.maxWorkers
        (optional (checked Coercion.integer atLeastOne))).both
      (field rows "max_file_size_mb" builtin.maxFileSize (checked Coercion.number positive))).map
      fun (workers, size) => ⟨workers, size⟩

def properFraction (x : Float) : Except String Float :=
  if 0 < x && x < 1 then .ok x
  else .error ("depth_decay must be in (0, 1), got " ++ NumberStyle.plain.write x)

def digits (n : Int) : Except String Nat :=
  if 1 ≤ n ∧ n ≤ 15 then .ok n.toNat else .error ("precision must be 1-15, got " ++ writeInt n)

/-- The bonus has to stay below the gap between two directory levels. -/
def densityLimit (s : ScoringSettings) : Float := (1 - s.depthDecay) / s.depthDecay

def densityBound (input : Value) (s : ScoringSettings) : Verdict ScoringSettings :=
  if 0 ≤ s.densityWeight && s.densityWeight < densityLimit s then .accepted s
  else
    .complain (.refused ("density_weight must be in [0, " ++
      NumberStyle.plain.writeFixed 4 (densityLimit s) ++ ") for depth_decay " ++
      NumberStyle.plain.write s.depthDecay ++ ", got " ++
      NumberStyle.plain.write s.densityWeight)) input

def scoring : Value → Verdict ScoringSettings :=
  model "ScoringConfig" fun rows =>
    let builtin := ScoringSettings.builtin
    let fields :=
      ((field rows "depth_decay" builtin.depthDecay
          (checked Coercion.number properFraction)).both
        ((field rows "density_weight" builtin.densityWeight fun v =>
            .ofExcept v (Coercion.number v)).both
          ((field rows "call_boost" builtin.callBoost fun v =>
              .ofExcept v (Coercion.boolean v)).both
            (field rows "precision" builtin.precision (checked Coercion.integer digits))))).map
        fun (decay, weight, boost, precision) =>
          (⟨decay, weight, boost, precision⟩ : ScoringSettings)
    fields.bind (densityBound (.map rows))

def sections (accounts : Accounts) (rows : Rows) : Verdict Settings :=
  let builtin := Settings.builtin
  ((field rows "logging" builtin.logging (logging accounts)).both
    ((field rows "indexer" builtin.indexer indexer).both
      (field rows "scoring" builtin.scoring scoring))).map
    fun (logging, indexer, scoring) => ⟨logging, indexer, scoring⟩

/-- A whole document. Sections nobody knows are passed over. -/
def settings (accounts : Accounts) : Value → Verdict Settings :=
  model "CodeMapConfig" (sections accounts)

end Validation

end SymbolAtlas
