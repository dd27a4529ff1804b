import SymbolAtlas.Proofs.Rereading
import SymbolAtlas.Proofs.Variables

/-!
Which source gives a setting its value. Main statement: every key is taken from the first of the
arguments, the environment, the file of the repository and the file of the user that sets it, no
source hides what only a lower one says, and reading the settings again changes nothing.
-/

set_option autoImplicit false

namespace SymbolAtlas

/-! ## Keys of the settings -/

inductive SettingKey
  | level
  | outputs
  | maxWorkers
  | maxFileSize
  | depthDecay
  | densityWeight
  | callBoost
  | precision
  deriving DecidableEq, Repr

namespace SettingKey

def within : SettingKey → Section
  | .level | .outputs => .logging
  | .maxWorkers | .maxFileSize => .indexer
  | .depthDecay | .densityWeight | .callBoost | .precision => .scoring

def name : SettingKey → String
  | .level => "level"
  | .outputs => "outputs"
  | .maxWorkers => "max_workers"
  | .maxFileSize => "max_file_size_mb"
  | .depthDecay => "depth_decay"
  | .densityWeight => "density_weight"
  | .callBoost => "call_boost"
  | .precision => "precision"

def path (k : SettingKey) : List Key := k.within.path k.name

theorem within_mem (k : SettingKey) : k.within ∈ Section.all := by cases k <;> decide

theorem name_mem (k : SettingKey) : k.name ∈ k.within.keys := by cases k <;> decide

/-- What a key stands for. The size limit stands for its number of megabytes. -/
def Carrier : SettingKey → Type
  | .level => LogLevel
  | .outputs => List OutputSettings
  | .maxWorkers => Option Nat
  | .maxFileSize => Float
  | .depthDecay => Float
  | .densityWeight => Float
  | .callBoost => Bool
  | .precision => Nat

def of : (k : SettingKey) → Settings → k.Carrier
  | .level, s => s.logging.level
  | .outputs, s => s.logging.outputs
  | .maxWorkers, s => s.indexer.maxWorkers
  | .maxFileSize, s => s.indexer.maxFileSize.megabytes
  | .depthDecay, s => s.scoring.depthDecay
  | .densityWeight, s => s.scoring.densityWeight
  | .callBoost, s => s.scoring.callBoost
  | .precision, s => s.scoring.precision

def read (accounts : Accounts) : (k : SettingKey) → Value → Verdict k.Carrier
  | .level, v => Validation.level v
  | .outputs, v => Validation.outputs accounts v
  | .maxWorkers, v =>
    Validation.optional (Validation.checked Coercion.integer Validation.atLeastOne) v
  | .maxFileSize, v =>
    (Validation.checked Coercion.number Validation.positive v).map SizeLimit.megabytes
  | .depthDecay, v => Validation.checked Coercion.number Validation.properFraction v
  | .densityWeight, v => .ofExcept v (Coercion.number v)
  | .callBoost, v => .ofExcept v (Coercion.boolean v)
  | .precision, v => Validation.checked Coercion.integer Validation.digits v

/-- A setting is what its key makes of a given value, or the built-in one where no value is
given. -/
def Taken (accounts : Accounts) (k : SettingKey) (given : Option Value) (x : k.Carrier) : Prop :=
  match given with
  | none => x = k.of .builtin
  | some v => k.read accounts v = .accepted x

theorem read_map (accounts : Accounts) (k : SettingKey) (rows : Rows) (x : k.Carrier) :
    k.read accounts (.map rows) ≠ .accepted x := by
  intro h
  cases k <;> cases h

theorem Taken.congr {accounts : Accounts} {k : SettingKey} {given given' : Option Value}
    {x : k.Carrier} (h : k.Taken accounts given x)
    (hsame : given.map Value.outline = given'.map Value.outline) : k.Taken accounts given' x := by
  cases given with
  | none =>
    cases given' with
    | none => exact h
    | some v' => cases hsame
  | some v =>
    cases given' with
    | none => cases hsame
    | some v' =>
      have houtline : v.outline = v'.outline := Option.some.inj hsame
      cases v with
      | map rows => exact absurd h (k.read_map accounts rows _)
      | scalar t =>
        cases v' with
        | scalar t' =>
          cases houtline
          exact h
        | list items => cases houtline
        | map rows => cases houtline
      | list items =>
        cases v' with
        | list items' =>
          cases houtline
          exact h
        | scalar t => cases houtline
        | map rows => cases houtline

theorem of_measured (k : SettingKey) (s : Settings) : k.of s.measured = k.of s := by
  cases k <;> rfl

/-! ## Settings of one document -/

theorem taken_of_field {accounts : Accounts} {k : SettingKey} {rows : Rows} {x : k.Carrier}
    (h : rows.get? k.within.title = none ∧ x = k.of .builtin ∨
      ∃ inner, rows.get? k.within.title = some (.map inner) ∧
        Validation.field inner k.name (k.of .builtin) (k.read accounts) = .accepted x) :
    k.Taken accounts ((Value.map rows).at? k.path) x := by
  simp only [Rows.get?] at h
  rcases h with ⟨hnone, hbuiltin⟩ | ⟨inner, hinner, hfield⟩
  · simpa [path, Section.path, Value.at?, hnone, Taken] using hbuiltin
  · rcases Validation.field_cases hfield with ⟨hnone, hbuiltin⟩ | ⟨v, hv, hread⟩
    · simp only [Rows.get?] at hnone
      simpa [path, Section.path, Value.at?, hinner, hnone, Taken] using hbuiltin
    · simp only [Rows.get?] at hv
      simpa [path, Section.path, Value.at?, hinner, hv, Taken] using hread

end SettingKey

namespace Validation

open SettingKey (taken_of_field)

variable {accounts : Accounts} {rows : Rows}

theorem field_map {α β : Type} (f : α → β) {name : String} {builtin a : α}
    {check : Value → Verdict α} (h : field rows name builtin check = .accepted a) :
    field rows name (f builtin) (fun v => (check v).map f) = .accepted (f a) := by
  rcases field_cases h with ⟨hnone, rfl⟩ | ⟨v, hv, hcheck⟩
  · simp [field, hnone]
  · simp [field, hv, hcheck, Verdict.map, Verdict.inside]

theorem taken_logging {part : LoggingSettings}
    (h : field rows "logging" Settings.builtin.logging (logging accounts) = .accepted part) :
    SettingKey.level.Taken accounts ((Value.map rows).at? SettingKey.level.path) part.level ∧
      SettingKey.outputs.Taken accounts ((Value.map rows).at? SettingKey.outputs.path)
        part.outputs := by
  rcases field_cases h with ⟨hnone, rfl⟩ | ⟨v, hv, hcheck⟩
  · exact ⟨taken_of_field (.inl ⟨hnone, rfl⟩), taken_of_field (.inl ⟨hnone, rfl⟩)⟩
  · obtain ⟨inner, rfl, hfields⟩ := model_accepted hcheck
    simp only [Verdict.map_accepted, Verdict.both_accepted] at hfields
    obtain ⟨⟨level, outputs⟩, ⟨hlevel, houtputs⟩, rfl⟩ := hfields
    exact ⟨taken_of_field (.inr ⟨inner, hv, hlevel⟩),
      taken_of_field (.inr ⟨inner, hv, houtputs⟩)⟩

theorem taken_indexer {part : IndexerSettings}
    (h : field rows "indexer" Settings.builtin.indexer indexer = .accepted part) :
    SettingKey.maxWorkers.Taken accounts ((Value.map rows).at? SettingKey.maxWorkers.path)
        part.maxWorkers ∧
      SettingKey.maxFileSize.Taken accounts ((Value.map rows).at? SettingKey.maxFileSize.path)
        part.maxFileSize.megabytes := by
  rcases field_cases h with ⟨hnone, rfl⟩ | ⟨v, hv, hcheck⟩
  · exact ⟨taken_of_field (.inl ⟨hnone, rfl⟩), taken_of_field (.inl ⟨hnone, rfl⟩)⟩
  · obtain ⟨inner, rfl, hfields⟩ := model_accepted hcheck
    simp only [Verdict.map_accepted, Verdict.both_accepted] at hfields
    obtain ⟨⟨workers, size⟩, ⟨hworkers, hsize⟩, rfl⟩ := hfields
    exact ⟨taken_of_field (.inr ⟨inner, hv, hworkers⟩),
      taken_of_field (.inr ⟨inner, hv, field_map SizeLimit.megabytes hsize⟩)⟩

theorem taken_scoring {part : ScoringSettings}
    (h : field rows "scoring" Settings.builtin.scoring scoring = .accepted part) :
    SettingKey.depthDecay.Taken accounts ((Value.map rows).at? SettingKey.depthDecay.path)
        part.depthDecay ∧
      SettingKey.densityWeight.Taken accounts ((Value.map rows).at? SettingKey.densityWeight.path)
        part.densityWeight ∧
      SettingKey.callBoost.Taken accounts ((Value.map rows).at? SettingKey.callBoost.path)
        part.callBoost ∧
      SettingKey.precision.Taken accounts ((Value.map rows).at? SettingKey.precision.path)
        part.precision := by
  rcases field_cases h with ⟨hnone, rfl⟩ | ⟨v, hv, hcheck⟩
  · exact ⟨taken_of_field (.inl ⟨hnone, rfl⟩), taken_of_field (.inl ⟨hnone, rfl⟩),
      taken_of_field (.inl ⟨hnone, rfl⟩), taken_of_field (.inl ⟨hnone, rfl⟩)⟩
  · obtain ⟨inner, rfl, hfields⟩ := model_accepted hcheck
    simp only [Verdict.bind_accepted, Verdict.map_accepted, Verdict.both_accepted] at hfields
    obtain ⟨t, ⟨⟨decay, weight, boost, precision⟩, ⟨hdecay, hweight, hboost, hprecision⟩, rfl⟩,
      hbound⟩ := hfields
    obtain ⟨rfl, _⟩ := densityBound_accepted hbound
    exact ⟨taken_of_field (.inr ⟨inner, hv, hdecay⟩), taken_of_field (.inr ⟨inner, hv, hweight⟩),
      taken_of_field (.inr ⟨inner, hv, hboost⟩), taken_of_field (.inr ⟨inner, hv, hprecision⟩)⟩

theorem taken_of_sections {s : Settings} (h : sections accounts rows = .accepted s)
    (k : SettingKey) : k.Taken accounts ((Value.map rows).at? k.path) (k.of s) := by
  simp only [sections, Verdict.map_accepted, Verdict.both_accepted] at h
  obtain ⟨⟨log, index, score⟩, ⟨hlog, hindex, hscore⟩, rfl⟩ := h
  have hlogging := taken_logging hlog
  have hindexer := @taken_indexer accounts rows index hindex
  have hscoring := @taken_scoring accounts rows score hscore
  cases k with
  | level => exact hlogging.1
  | outputs => exact hlogging.2
  | maxWorkers => exact hindexer.1
  | maxFileSize => exact hindexer.2
  | depthDecay => exact hscoring.1
  | densityWeight => exact hscoring.2.1
  | callBoost => exact hscoring.2.2.1
  | precision => exact hscoring.2.2.2

end Validation

/-! ## Arguments in the usual order -/

namespace Rows

theorem find?_filter_of_forall {k : Key} {keep : Scalar × Value → Bool} {rows : Rows}
    (h : ∀ row ∈ rows, row.1.key = k → keep row) : find? k (rows.filter keep) = find? k rows := by
  induction rows with
  | nil => rfl
  | cons row rest ih =>
    obtain ⟨hrow, hrest⟩ := List.forall_mem_cons.1 h
    by_cases hk : row.1.key = k
    · simp [hrow hk, find?, hk]
    · by_cases hkeep : keep row = true
      · simpa [hkeep, find?, hk] using ih hrest
      · simpa [hkeep, find?, hk] using ih hrest

theorem find?_filter_of_not {k : Key} {keep : Scalar × Value → Bool} {rows : Rows}
    (h : ∀ row ∈ rows, row.1.key = k → ¬ keep row) : find? k (rows.filter keep) = none := by
  rw [find?_eq_none_iff]
  intro hmem
  obtain ⟨row, hrow, hk⟩ := List.mem_map.1 hmem
  obtain ⟨hold, hkeep⟩ := List.mem_filter.1 hrow
  exact h row hold hk hkeep

end Rows

namespace Settings

theorem isSection_iff (name : Scalar) :
    isSection name = true ↔ name.key ∈ Section.all.map fun s => Key.text s.title := by
  cases name with
  | text t =>
    simp only [isSection, List.any_eq_true, decide_eq_true_eq, Scalar.key, List.mem_map,
      Key.text.injEq]
  | null => simp [isSection, Scalar.key]
  | bool b => simp [isSection, Scalar.key]
  | int n => simp [isSection, Scalar.key]
  | float x =>
    simp only [isSection, Scalar.key]
    split <;> simp

theorem find?_titled (arguments : Rows) (k : Key) (sections : List Section) :
    Rows.find? k (sections.filterMap fun s =>
        (arguments.get? s.title).map fun v => (Scalar.text s.title, v)) =
      if k ∈ sections.map (fun s => Key.text s.title) then Rows.find? k arguments else none := by
  induction sections with
  | nil => simp [Rows.find?]
  | cons s rest ih =>
    by_cases hk : Key.text s.title = k
    · subst hk
      cases hs : arguments.get? s.title with
      | none =>
        have hfind : Rows.find? (.text s.title) arguments = none := hs
        simp [hs, ih, hfind]
      | some v =>
        have hfind : Rows.find? (.text s.title) arguments = some v := hs
        simp [hs, hfind, Rows.find?, Scalar.key]
    · have hne : ¬ k = Key.text s.title := fun e => hk e.symm
      cases hs : arguments.get? s.title with
      | none => simp [hs, ih, hne]
      | some v => simp [hs, Rows.find?, Scalar.key, hk, ih, hne]

theorem find?_arrange (arguments : Rows) (k : Key) :
    Rows.find? k (arrange arguments) = Rows.find? k arguments := by
  have hsection : ∀ row : Scalar × Value, row.1.key = k →
      (isSection row.1 = true ↔ k ∈ Section.all.map fun s => Key.text s.title) := by
    intro row hrow
    rw [isSection_iff, hrow]
  rw [arrange, Rows.find?_append, find?_titled]
  split
  · next hk =>
    rw [Rows.find?_filter_of_not fun row _ hrow => by simp [(hsection row hrow).2 hk]]
    simp
  · next hk =>
    rw [Rows.find?_filter_of_forall fun row _ hrow => by simp [mt (hsection row hrow).1 hk]]
    simp

theorem keys_titled (arguments : Rows) (sections : List Section) :
    (Rows.keys (sections.filterMap fun s =>
      (arguments.get? s.title).map fun v => (Scalar.text s.title, v))).Sublist
        (sections.map fun s => Key.text s.title) := by
  induction sections with
  | nil => exact .slnil
  | cons s rest ih =>
    cases hs : arguments.get? s.title with
    | none => simpa [hs] using ih.cons _
    | some v => simpa [hs, Rows.keys, Scalar.key] using ih

theorem distinct_arrange {arguments : Rows} (h : (Value.map arguments).Distinct) :
    (Value.map (arrange arguments)).Distinct := by
  have htitled := keys_titled arguments Section.all
  have hothers : (Rows.keys (arguments.filter fun row => !isSection row.1)).Sublist
      (Rows.keys arguments) := List.filter_sublist.map _
  cases h with
  | map keys values =>
    refine .map ?_ ?_
    · rw [arrange, Rows.keys, List.map_append]
      refine List.Nodup.append (htitled.nodup (by decide)) (hothers.nodup keys) ?_
      intro k hk hk'
      obtain ⟨row, hrow, rfl⟩ := List.mem_map.1 hk'
      have hnot : ¬ isSection row.1 = true := by simpa using (List.mem_filter.1 hrow).2
      exact hnot ((isSection_iff row.1).2 (htitled.subset hk))
    · intro row hrow
      rcases List.mem_append.1 hrow with htitle | hother
      · obtain ⟨s, _, hs⟩ := List.mem_filterMap.1 htitle
        obtain ⟨v, hv, rfl⟩ := Option.map_eq_some_iff.1 hs
        exact (Value.Distinct.map keys values).of_find? hv
      · exact values row (List.mem_filter.1 hother).1

end Settings

/-! ## All sources -/

def Rows.Sectioned (rows : Rows) : Prop :=
  ∀ s ∈ Section.all, ∀ v, rows.get? s.title = some v → ∃ inner, v = .map inner

theorem Rows.Sectioned.opens {rows : Rows} (h : rows.Sectioned) (k : SettingKey) :
    (Value.map rows).Opens k.path := by
  intro v hv
  obtain ⟨inner, rfl⟩ := h k.within k.within_mem v hv
  exact fun _ _ => trivial

theorem Rows.sectioned_of_forall {rows : Rows} (h : ∀ row ∈ rows, ∃ inner, row.2 = .map inner) :
    rows.Sectioned := by
  intro s _ v hv
  obtain ⟨row, hrow, _, rfl⟩ := mem_of_find? hv
  exact h row hrow

namespace Settings

section Loading

variable {src : SettingsSources} {root : Path} {arguments user repository : Rows} {s : Settings}

def mergeOf (user repository environment arguments : Rows) : Rows :=
  Rows.overlay (Rows.overlay user repository) (Rows.overlay environment (arrange arguments))

/-- Loading merges the sources, makes settings of them and reads these again. -/
theorem load_cases (huser : src.read src.userFile = .ok user)
    (hrepository : src.read (repositoryFile root) = .ok repository)
    (h : load src root arguments = .ok s) :
    ∃ environment t,
      Environment.sections (Environment.lowered src.environment) Section.all = .ok environment ∧
      mergedRows src root arguments = .ok (mergeOf user repository environment arguments) ∧
      ofRows src.accounts (mergeOf user repository environment arguments) = .ok t ∧
      s = t.measured := by
  have hfiles : fileRows src root = .ok (Rows.overlay user repository) := by
    simp [fileRows, huser, hrepository]
  unfold load at h
  split at h
  · cases h
  · cases henvironment : Environment.sections (Environment.lowered src.environment) Section.all with
    | error t => simp [mergedRows, hfiles, henvironment] at h
    | ok environment =>
      have hmerged : mergedRows src root arguments =
          .ok (mergeOf user repository environment arguments) := by
        simp [mergedRows, hfiles, henvironment, mergeOf]
      rw [hmerged] at h
      split at h
      · cases h
      · next hrows =>
        cases hrows
        split at h
        · cases h
        · next t ht =>
          rw [(valid_of_ofRows ht).reread src.accounts] at h
          cases h
          exact ⟨environment, t, rfl, hmerged, ht, rfl⟩

theorem at?_mergeOf {environment : Rows} (henvironment : (Value.map environment).Distinct)
    (harguments : (Value.map arguments).Distinct) {p : List Key} (hp : p ≠ []) :
    (Value.map (mergeOf user repository environment arguments)).at? p =
      (((Value.map user).overlay (.map repository)).overlay
        ((Value.map environment).overlay (.map arguments))).at? p := by
  have harranged := distinct_arrange harguments
  refine Value.at?_congr (fun k => ?_) hp
  rw [mergeOf, Rows.find?_overlay k _ (henvironment.overlay harranged).nodup,
    Rows.find?_overlay k _ harranged.nodup, find?_arrange,
    Rows.find?_overlay k _ (henvironment.overlay harguments).nodup,
    Rows.find?_overlay k _ harguments.nodup]

/-- A loaded setting comes from the first of the arguments, the environment, the file of the
repository and the file of the user that sets its key. What only one source says is not hidden by
another, at any depth, and settings once made are read again without a fault or a change. -/
theorem settings_from_first_source (hdistinct : (Value.map arguments).Distinct)
    (harguments : arguments.Sectioned)
    (hvariables : ∀ name ∈ (Environment.lowered src.environment).keys, Environment.Direct name)
    (hrepository : src.read (repositoryFile root) = .ok repository)
    (hsections : repository.Sectioned)
    (huser : src.read src.userFile = .ok user)
    (h : load src root arguments = .ok s) :
    (∀ k : SettingKey, k.Taken src.accounts
      ((Value.map arguments).at? k.path <|>
        Environment.setting? (Environment.lowered src.environment) k.within k.name <|>
        (Value.map repository).at? k.path <|> (Value.map user).at? k.path) (k.of s)) ∧
    (∃ environment merged,
      Environment.sections (Environment.lowered src.environment) Section.all = .ok environment ∧
      mergedRows src root arguments = .ok merged ∧
      Value.Stacks [.map user, .map repository, .map environment, .map arguments] (.map merged)) ∧
    ∀ accounts rows t, ofRows accounts rows = .ok t →
      ∃ t', reread accounts t = .ok t' ∧ ∀ k : SettingKey, k.of t' = k.of t := by
  obtain ⟨environment, t, henvironment, hmerged, ht, rfl⟩ := load_cases huser hrepository h
  have hspeaks := Environment.speaks_sections hvariables (fun _ hs => hs) (by decide) henvironment
  have hrep := SettingsFile.load_distinct hrepository
  have hat : ∀ p : List Key, p ≠ [] →
      (Value.map (mergeOf user repository environment arguments)).at? p = _ :=
    fun p hp => at?_mergeOf hspeaks.distinct hdistinct hp
  refine ⟨fun k => ?_, ⟨environment, _, henvironment, hmerged, ?_⟩, fun accounts rows t ht => ?_⟩
  · have hpath : k.path ≠ [] := by simp [SettingKey.path, Section.path]
    have hvalue := hspeaks.value k.within k.within_mem k.name k.name_mem
    have hopens := hspeaks.opens k.within k.within_mem k.name
    rw [SettingKey.of_measured, ← hvalue]
    refine (Validation.taken_of_sections (sections_of_ofRows ht) k).congr ?_
    rw [hat k.path hpath]
    exact Value.outline_pairs hrep hspeaks.distinct hdistinct (hsections.opens k) hopens
      (harguments.opens k)
  · intro below layer above hlayers p hp hbelow habove
    rw [hat p hp]
    exact Value.stacks_pairs hrep hspeaks.distinct hdistinct below layer above hlayers p hp hbelow
      habove
  · exact ⟨t.measured, (valid_of_ofRows ht).reread accounts, fun k => k.of_measured t⟩

theorem load_of_ofRows {merged : Rows} {t : Settings}
    (hnames : arguments.all (fun row => isText row.1) = true)
    (hmerged : mergedRows src root arguments = .ok merged)
    (ht : ofRows src.accounts merged = .ok t) : load src root arguments = .ok t.measured := by
  simp [load, hnames, hmerged, ht, (valid_of_ofRows ht).reread]

end Loading

namespace Sample

/-! Two files, a variable and an argument that speak of the same sections. -/

def userText : String :=
  "indexer: \x7bmax_workers: 8\x7d\nscoring: \x7bprecision: 3, call_boost: false\x7d"

def repositoryText : String := "indexer: \x7bmax_workers: null\x7d"

def octets (s : String) : List UInt8 := s.toList.map fun c => c.toNat.toUInt8

def source : SettingsSources where
  files := (FileTree.empty.addFile ["u.yaml"] (octets userText)).addFile
    ["r", ".codemap", "config.yaml"] (octets repositoryText)
  current := ⟨.root, []⟩
  userFile := ⟨.root, ["u.yaml"]⟩
  loader := .builtin
  environment := [("CODEMAP__SCORING__PRECISION", "4"), ("HOME", "/h")]
  accounts := ⟨none, []⟩

def root : Path := ⟨.root, ["r"]⟩

def arguments : Rows := [(.text "scoring", .map [(.text "precision", .int 5)])]

def user : Rows :=
  [(.text "indexer", .map [(.text "max_workers", .int 8)]),
   (.text "scoring", .map [(.text "precision", .int 3), (.text "call_boost", .bool false)])]

def repository : Rows := [(.text "indexer", .map [(.text "max_workers", .null)])]

def settings : Settings :=
  ⟨.builtin, .builtin, { ScoringSettings.builtin with callBoost := false, precision := 5 }⟩

theorem load_source : source.loader.load = Yaml.load :=
  rfl

theorem load_user : source.read source.userFile = .ok user := by
  have htokens : Yaml.tokens (Text.unifyNewlines userText.toList) =
      .ok [.blockMappingStart, .key, .scalar true "indexer", .value, .flowMappingStart, .key,
        .scalar true "max_workers", .value, .scalar true "8", .flowMappingEnd, .key,
        .scalar true "scoring", .value, .flowMappingStart, .key, .scalar true "precision", .value,
        .scalar true "3", .flowEntry, .key, .scalar true "call_boost", .value,
        .scalar true "false", .flowMappingEnd, .blockEnd] := by
    decide +kernel
  have hvalue : source.loader.load (Text.unifyNewlines userText.toList) = .ok (.map user) := by
    rw [load_source, Yaml.load, htokens]
    rfl
  have hdecode : Utf8.decode (octets userText) = .ok userText.toList :=
    Utf8.decode_ascii (by decide +kernel)
  exact SettingsFile.load_eq (by decide +kernel) (by decide +kernel) hdecode hvalue (by simp [user])

theorem load_repository : source.read (repositoryFile root) = .ok repository := by
  have htokens : Yaml.tokens (Text.unifyNewlines repositoryText.toList) =
      .ok [.blockMappingStart, .key, .scalar true "indexer", .value, .flowMappingStart, .key,
        .scalar true "max_workers", .value, .scalar true "null", .flowMappingEnd, .blockEnd] := by
    decide +kernel
  have hvalue : source.loader.load (Text.unifyNewlines repositoryText.toList) =
      .ok (.map repository) := by
    rw [load_source, Yaml.load, htokens]
    rfl
  have hdecode : Utf8.decode (octets repositoryText) = .ok repositoryText.toList :=
    Utf8.decode_ascii (by decide +kernel)
  exact SettingsFile.load_eq (by decide +kernel) (by decide +kernel) hdecode hvalue
    (by simp [repository])

theorem load_sample : load source root arguments = .ok settings.measured := by
  let environment : Rows := [(.text "scoring", .map [(.text "precision", .text "4")])]
  have henvironment : Environment.sections (Environment.lowered source.environment) Section.all =
      .ok environment := by
    rfl
  have hmerged : mergedRows source root arguments =
      .ok (mergeOf user repository environment arguments) := by
    simp [mergedRows, fileRows, load_user, load_repository, henvironment, mergeOf]
  exact load_of_ofRows (by decide) hmerged rfl

theorem direct_variables : ∀ name ∈ (Environment.lowered source.environment).keys,
    Environment.Direct name := by
  unfold Environment.Direct
  decide +kernel

theorem distinct_arguments : (Value.map arguments).Distinct := by
  refine .map (by decide) fun row hrow => ?_
  rw [List.mem_singleton.1 hrow]
  refine .map (by decide) fun row hrow => ?_
  rw [List.mem_singleton.1 hrow]
  exact .scalar _

/-- The argument wins over the variable and the file of the user, the null of the repository over
the number of the user, and what only the user says stays. -/
theorem sample_from_first_source :
    load source root arguments = .ok settings.measured ∧
      ∀ k : SettingKey, k.Taken source.accounts
        ((Value.map arguments).at? k.path <|>
          Environment.setting? (Environment.lowered source.environment) k.within k.name <|>
          (Value.map repository).at? k.path <|> (Value.map user).at? k.path)
        (k.of settings.measured) :=
  ⟨load_sample, (settings_from_first_source distinct_arguments
    (Rows.sectioned_of_forall (by simp [arguments])) direct_variables load_repository
    (Rows.sectioned_of_forall (by simp [repository])) load_user load_sample).1⟩

end Sample

end Settings

end SymbolAtlas
