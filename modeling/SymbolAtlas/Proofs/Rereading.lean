import SymbolAtlas.Proofs.Acceptance
import SymbolAtlas.Proofs.Segments
import SymbolAtlas.Settings.Load

/-!
Settings that were accepted are accepted again when they are read from their own document, and
nothing changes but that the built-in size limit is then written as a number.
-/

set_option autoImplicit false

namespace SymbolAtlas

namespace Path

/-! ## Paths that are read back -/

def Plain (p : Path) : Prop := ∀ segment ∈ p.segments, spoken segment.toList = [segment.toList]

theorem plain_ofText (s : String) : (ofText s).Plain := by
  intro segment hsegment
  obtain ⟨piece, hpiece, rfl⟩ := List.mem_map.1 hsegment
  obtain ⟨hsplit, hidle⟩ := List.mem_filter.1 hpiece
  rw [String.toList_ofList]
  exact spoken_plain (slash_not_mem_split hsplit) (by simpa using hidle)

theorem head?_of_spoken {piece : List Char} (h : spoken piece = [piece]) :
    ∃ c rest, piece = c :: rest ∧ c ≠ '/' := by
  have hmem : piece ∈ spoken piece := by simp [h]
  obtain ⟨hsplit, hidle⟩ := List.mem_filter.1 hmem
  cases piece with
  | nil => simp [isIdle] at hidle
  | cons c rest =>
    refine ⟨c, rest, rfl, fun hc => slash_not_mem_split hsplit ?_⟩
    simp [hc]

theorem head?_join {pieces : List (List Char)} (h : ∀ piece ∈ pieces, spoken piece = [piece]) :
    (join pieces).head? ≠ some '/' := by
  cases pieces with
  | nil => simp [join]
  | cons piece rest =>
    obtain ⟨c, more, rfl, hc⟩ := head?_of_spoken (h piece List.mem_cons_self)
    cases rest <;> simpa [join] using hc

theorem anchorOf_append {anchor : Anchor} (hanchor : anchor ≠ .relative) {cs : List Char}
    (h : cs.head? ≠ some '/') : anchorOf (Anchor.text anchor ++ cs) = anchor := by
  cases anchor with
  | relative => exact absurd rfl hanchor
  | root =>
    cases cs with
    | nil => rfl
    | cons c rest =>
      have hc : c ≠ '/' := by simpa using h
      simp [Anchor.text, anchorOf, hc]
  | doubleRoot =>
    cases cs with
    | nil => rfl
    | cons c rest =>
      have hc : c ≠ '/' := by simpa using h
      simp [Anchor.text, anchorOf, hc]

theorem ofText_text {p : Path} (habsolute : p.isAbsolute) (h : p.Plain) : ofText p.text = p := by
  have hanchor : p.anchor ≠ .relative := by simpa [isAbsolute] using habsolute
  have hpieces : ∀ piece ∈ p.segments.map String.toList, spoken piece = [piece] := by
    intro piece hpiece
    obtain ⟨segment, hsegment, rfl⟩ := List.mem_map.1 hpiece
    exact h segment hsegment
  have hwritten : Anchor.text p.anchor ++ join (p.segments.map String.toList) ≠ [] := by
    cases hp : p.anchor with
    | relative => exact absurd hp hanchor
    | root => simp [Anchor.text]
    | doubleRoot => simp [Anchor.text]
  have hspoken : spoken (Anchor.text p.anchor ++ join (p.segments.map String.toList)) =
      p.segments.map String.toList := by
    rw [spoken_anchor, spoken_join, flatMap_spoken _ hpieces]
  have htext : p.text.toList = Anchor.text p.anchor ++ join (p.segments.map String.toList) := by
    simp [text, hwritten]
  rw [ofText, htext, anchorOf_append hanchor (head?_join hpieces)]
  change Path.mk p.anchor ((spoken _).map String.ofList) = p
  rw [hspoken]
  simp

end Path

theorem Accounts.plain_expand {a : Accounts} {p q : Path} (h : a.expand p = some q)
    (hp : p.Plain) : q.Plain := by
  unfold expand at h
  split at h
  · next first rest hanchor hsegments =>
    split at h
    · obtain ⟨home, _, rfl⟩ := Option.map_eq_some_iff.1 h
      intro segment hsegment
      rcases List.mem_append.1 hsegment with hbase | hrest
      · exact Path.plain_ofText home segment hbase
      · exact hp segment (by simp [hsegments, hrest])
    · cases h
      exact hp
  · cases h
    exact hp

theorem Accounts.expand_absolute (a : Accounts) {p : Path} (h : p.isAbsolute) :
    a.expand p = some p := by
  unfold expand
  split
  · next hanchor _ => simp [Path.isAbsolute, hanchor] at h
  · rfl

namespace Verdict

theorem all_eq_accepted_iff {α : Type} {verdicts : List (Verdict α)} {values : List α} :
    all verdicts = .accepted values ↔ verdicts = values.map .accepted := by
  induction verdicts generalizing values with
  | nil => cases values <;> simp [all]
  | cons verdict rest ih =>
    cases values with
    | nil => simp [all]
    | cons value values => simp [all, ih]

end Verdict

/-! ## What accepted settings satisfy -/

/-- A destination that is taken as it is, whoever runs the program. -/
def OutputSettings.Settled (o : OutputSettings) : Prop :=
  ∀ accounts, Validation.destination accounts (.text o.destination) = .accepted o.destination

structure Settings.Valid (s : Settings) : Prop where
  outputs : ∀ o ∈ s.logging.outputs, o.Settled
  workers : ∀ n, s.indexer.maxWorkers = some n → 1 ≤ n
  size : ¬ s.indexer.maxFileSize.megabytes ≤ 0
  decay : 0 < s.scoring.depthDecay ∧ s.scoring.depthDecay < 1
  weight : 0 ≤ s.scoring.densityWeight ∧ s.scoring.densityWeight < Validation.densityLimit s.scoring
  precision : 1 ≤ s.scoring.precision ∧ s.scoring.precision ≤ 15

namespace Validation

theorem destination_again {accounts : Accounts} {v : Value} {d : String}
    (h : destination accounts v = .accepted d) (other : Accounts) :
    destination other (.text d) = .accepted d := by
  unfold destination at h
  split at h
  · cases h
  · next s _ =>
    split at h
    · next hstream =>
      cases h
      have hmem : d ∈ streams := by simpa using hstream
      simp [destination, Coercion.text, hmem]
    · split at h
      · cases h
      · next p hp =>
        split at h
        · next habsolute =>
          cases h
          have hread : Path.ofText p.text = p :=
            Path.ofText_text habsolute (Accounts.plain_expand hp (Path.plain_ofText s))
          -- That no stream is named like this does not matter: its name would stay as well.
          by_cases hstream : p.text ∈ streams
          · simp [destination, Coercion.text, hstream]
          · simp [destination, Coercion.text, hstream, hread,
              Accounts.expand_absolute other habsolute, habsolute]
        · cases h

theorem builtin_settled : OutputSettings.builtin.Settled := fun _ => rfl

theorem builtin_workers (n : Nat) (h : IndexerSettings.builtin.maxWorkers = some n) : 1 ≤ n := by
  cases h

theorem builtin_size : ¬ SizeLimit.builtin.megabytes ≤ 0 := by decide +kernel

theorem builtin_precision :
    1 ≤ ScoringSettings.builtin.precision ∧ ScoringSettings.builtin.precision ≤ 15 := by decide

theorem output_settled {accounts : Accounts} {v : Value} {o : OutputSettings}
    (h : output accounts v = .accepted o) : o.Settled := by
  obtain ⟨rows, _, hfields⟩ := model_accepted h
  simp only [Verdict.map_accepted, Verdict.both_accepted] at hfields
  obtain ⟨⟨format, destination, level⟩, ⟨_, hdestination, _⟩, rfl⟩ := hfields
  rcases field_accepted hdestination with rfl | ⟨v, hv⟩
  · exact builtin_settled
  · exact destination_again hv

theorem outputs_settled {accounts : Accounts} {v : Value} {os : List OutputSettings}
    (h : outputs accounts v = .accepted os) : ∀ o ∈ os, o.Settled := by
  unfold outputs at h
  split at h
  · next items =>
    intro o ho
    rw [Verdict.all_eq_accepted_iff] at h
    have hmem : Verdict.accepted o ∈ os.map Verdict.accepted := List.mem_map_of_mem ho
    rw [← h] at hmem
    obtain ⟨⟨i, item⟩, _, hitem⟩ := List.mem_map.1 hmem
    exact output_settled ((Verdict.inside_accepted ..).1 hitem)
  · cases h

theorem logging_settled {accounts : Accounts} {v : Value} {s : LoggingSettings}
    (h : logging accounts v = .accepted s) : ∀ o ∈ s.outputs, o.Settled := by
  obtain ⟨rows, _, hfields⟩ := model_accepted h
  simp only [Verdict.map_accepted, Verdict.both_accepted] at hfields
  obtain ⟨⟨level, os⟩, ⟨_, houtputs⟩, rfl⟩ := hfields
  rcases field_accepted houtputs with rfl | ⟨v, hv⟩
  · simpa [LoggingSettings.builtin] using builtin_settled
  · exact outputs_settled hv

theorem optional_accepted {α : Type} {check : Value → Verdict α} {v : Value} {o : Option α}
    (h : optional check v = .accepted o) : ∀ a, o = some a → check v = .accepted a := by
  intro a ha
  unfold optional at h
  split at h
  · cases h
    cases ha
  · obtain ⟨b, hb, hsome⟩ := (Verdict.map_accepted ..).1 h
    rw [← hsome] at ha
    cases ha
    exact hb

theorem atLeastOne_ok {n : Int} {m : Nat} (h : atLeastOne n = .ok m) : 1 ≤ m := by
  unfold atLeastOne at h
  split at h
  · cases h
  · cases h
    omega

theorem positive_ok {x : Float} {size : SizeLimit} (h : positive x = .ok size) :
    ¬ size.megabytes ≤ 0 := by
  unfold positive at h
  split at h
  · cases h
  · next hpositive =>
    cases h
    exact hpositive

theorem digits_ok {n : Int} {m : Nat} (h : digits n = .ok m) : 1 ≤ m ∧ m ≤ 15 := by
  unfold digits at h
  split at h
  · cases h
    omega
  · cases h

theorem indexer_valid {v : Value} {s : IndexerSettings} (h : indexer v = .accepted s) :
    (∀ n, s.maxWorkers = some n → 1 ≤ n) ∧ ¬ s.maxFileSize.megabytes ≤ 0 := by
  obtain ⟨rows, _, hfields⟩ := model_accepted h
  simp only [Verdict.map_accepted, Verdict.both_accepted] at hfields
  obtain ⟨⟨workers, size⟩, ⟨hworkers, hsize⟩, rfl⟩ := hfields
  constructor
  · intro n hn
    rcases field_accepted hworkers with rfl | ⟨v, hv⟩
    · exact builtin_workers n hn
    · obtain ⟨_, _, hcount⟩ := checked_accepted (optional_accepted hv n hn)
      exact atLeastOne_ok hcount
  · rcases field_accepted hsize with rfl | ⟨v, hv⟩
    · exact builtin_size
    · obtain ⟨_, _, hx⟩ := checked_accepted hv
      exact positive_ok hx

theorem scoring_precision {v : Value} {s : ScoringSettings} (h : scoring v = .accepted s) :
    1 ≤ s.precision ∧ s.precision ≤ 15 := by
  obtain ⟨rows, _, hfields⟩ := model_accepted h
  simp only [Verdict.bind_accepted, Verdict.map_accepted, Verdict.both_accepted] at hfields
  obtain ⟨t, ⟨⟨decay, weight, boost, precision⟩, ⟨_, _, _, hprecision⟩, rfl⟩, hbound⟩ := hfields
  obtain ⟨rfl, _⟩ := densityBound_accepted hbound
  rcases field_accepted hprecision with rfl | ⟨v, hv⟩
  · exact builtin_precision
  · obtain ⟨_, _, hdigits⟩ := checked_accepted hv
    exact digits_ok hdigits

theorem valid_of_sections {accounts : Accounts} {rows : Rows} {s : Settings}
    (h : sections accounts rows = .accepted s) : s.Valid := by
  have hsettings : settings accounts (.map rows) = .accepted s := h
  have hfields := h
  simp only [sections, Verdict.map_accepted, Verdict.both_accepted] at hfields
  obtain ⟨⟨log, index, score⟩, ⟨hlog, hindex, hscore⟩, hs⟩ := hfields
  subst hs
  have hindexer : (∀ n, index.maxWorkers = some n → 1 ≤ n) ∧ ¬ index.maxFileSize.megabytes ≤ 0 := by
    rcases field_accepted hindex with rfl | ⟨v, hv⟩
    · exact ⟨builtin_workers, builtin_size⟩
    · exact indexer_valid hv
  refine ⟨?_, hindexer.1, hindexer.2, settings_accepted hsettings, settings_weight hsettings, ?_⟩
  · rcases field_accepted hlog with rfl | ⟨v, hv⟩
    · simpa [Settings.builtin, LoggingSettings.builtin] using builtin_settled
    · exact logging_settled hv
  · rcases field_accepted hscore with rfl | ⟨v, hv⟩
    · exact builtin_precision
    · exact scoring_precision hv

/-! ## Reading the document of accepted settings -/

theorem level_again (l : LogLevel) : level (.text l.name) = .accepted l := by
  cases l <;> rfl

theorem format_again (f : LogFormat) : format (.text f.name) = .accepted f := by
  cases f <;> rfl

theorem field_found {α : Type} {rows : Rows} {name : String} {builtin : α}
    {check : Value → Verdict α} {v : Value} {a : α} (hv : rows.get? name = some v)
    (h : check v = .accepted a) : field rows name builtin check = .accepted a := by
  simp [field, hv, h]

theorem output_again (accounts : Accounts) {o : OutputSettings} (h : o.Settled) :
    output accounts o.toValue = .accepted o := by
  have hlevel : optional level ((o.level.map fun l => Value.text l.name).getD .null) =
      .accepted o.level := by
    cases o.level with
    | none => rfl
    | some l => simp [optional, level_again]
  simp only [output, OutputSettings.toValue, Value.record, model, List.map_cons, List.map_nil,
    Verdict.map_accepted, Verdict.both_accepted]
  exact ⟨(o.format, o.destination, o.level), ⟨field_found rfl (format_again o.format),
    field_found rfl (h accounts), field_found rfl hlevel⟩, rfl⟩

theorem outputs_again (accounts : Accounts) {os : List OutputSettings} (h : ∀ o ∈ os, o.Settled) :
    outputs accounts (.list (os.map OutputSettings.toValue)) = .accepted os := by
  rw [outputs, Verdict.all_eq_accepted_iff]
  refine List.ext_getElem (by simp) fun i hi hi' => ?_
  have hlt : i < os.length := by simpa using hi'
  have ho : os[i] ∈ os := List.getElem_mem hlt
  simp [output_again accounts (h _ ho)]

theorem logging_again (accounts : Accounts) {s : LoggingSettings}
    (h : ∀ o ∈ s.outputs, o.Settled) : logging accounts s.toValue = .accepted s := by
  simp only [logging, LoggingSettings.toValue, Value.record, model, List.map_cons, List.map_nil,
    Verdict.map_accepted, Verdict.both_accepted]
  exact ⟨(s.level, s.outputs), ⟨field_found rfl (level_again s.level),
    field_found rfl (outputs_again accounts h)⟩, rfl⟩

end Validation

namespace Settings

/-- Settings with the size limit as a number. -/
def measured (s : Settings) : Settings :=
  { s with indexer := { s.indexer with maxFileSize := .given s.indexer.maxFileSize.megabytes } }

end Settings

namespace Validation

theorem size_again {size : SizeLimit} (h : ¬ size.megabytes ≤ 0) :
    checked Coercion.number positive size.toValue = .accepted (.given size.megabytes) := by
  have hnumber : Coercion.number size.toValue = .ok size.megabytes := by
    cases size with
    | builtin => rfl
    | given megabytes => rfl
  simp [checked, hnumber, positive, h]

theorem workers_again {workers : Option Nat} (h : ∀ n, workers = some n → 1 ≤ n) :
    optional (checked Coercion.integer atLeastOne) ((workers.map Value.ofNat).getD .null) =
      .accepted workers := by
  cases workers with
  | none => rfl
  | some n =>
    have hn : ¬ (n : Int) < 1 := by
      have := h n rfl
      omega
    simp [optional, Value.ofNat, checked, Coercion.integer, atLeastOne, hn]

theorem indexer_again {s : Settings} (h : s.Valid) :
    indexer s.indexer.toValue = .accepted s.measured.indexer := by
  simp only [indexer, IndexerSettings.toValue, Value.record, model, List.map_cons, List.map_nil,
    Verdict.map_accepted, Verdict.both_accepted]
  exact ⟨(s.indexer.maxWorkers, .given s.indexer.maxFileSize.megabytes),
    ⟨field_found rfl (workers_again h.workers), field_found rfl (size_again h.size)⟩, rfl⟩

theorem scoring_again {s : Settings} (h : s.Valid) :
    scoring s.scoring.toValue = .accepted s.scoring := by
  have hdecay : checked Coercion.number properFraction (.float s.scoring.depthDecay) =
      .accepted s.scoring.depthDecay := by
    simp [checked, Coercion.number, properFraction, h.decay]
  have hprecision : checked Coercion.integer digits (.ofNat s.scoring.precision) =
      .accepted s.scoring.precision := by
    have hrange : 1 ≤ (s.scoring.precision : Int) ∧ (s.scoring.precision : Int) ≤ 15 := by
      have := h.precision
      omega
    simp [checked, Coercion.integer, Value.ofNat, digits, hrange]
  simp only [scoring, ScoringSettings.toValue, Value.record, model, List.map_cons, List.map_nil,
    Verdict.bind_accepted, Verdict.map_accepted, Verdict.both_accepted]
  refine ⟨s.scoring, ⟨(s.scoring.depthDecay, s.scoring.densityWeight, s.scoring.callBoost,
    s.scoring.precision), ⟨field_found rfl hdecay, field_found rfl rfl, field_found rfl rfl,
    field_found rfl hprecision⟩, rfl⟩, ?_⟩
  simp [densityBound, h.weight]

end Validation

namespace Settings

/-- Valid settings are read from their own document, whoever runs the program. -/
theorem Valid.reread {s : Settings} (h : s.Valid) (accounts : Accounts) :
    Settings.reread accounts s = .ok s.measured := by
  have hread : Validation.settings accounts s.toValue = .accepted s.measured := by
    simp only [Validation.settings, toValue, Value.record, Validation.model, List.map_cons,
      List.map_nil, Validation.sections, Verdict.map_accepted, Verdict.both_accepted]
    exact ⟨(s.logging, s.measured.indexer, s.scoring),
      ⟨Validation.field_found rfl (Validation.logging_again accounts h.outputs),
        Validation.field_found rfl (Validation.indexer_again h),
        Validation.field_found rfl (Validation.scoring_again h)⟩, rfl⟩
  simp [Settings.reread, hread]

theorem sections_of_ofRows {accounts : Accounts} {rows : Rows} {s : Settings}
    (h : ofRows accounts rows = .ok s) : Validation.sections accounts rows = .accepted s := by
  unfold ofRows at h
  split at h
  · cases h
  · split at h
    · next hboth =>
      cases h
      exact ((Verdict.both_accepted ..).1 hboth).1
    · cases h
    · cases h
    · cases h

theorem valid_of_ofRows {accounts : Accounts} {rows : Rows} {s : Settings}
    (h : ofRows accounts rows = .ok s) : s.Valid :=
  Validation.valid_of_sections (sections_of_ofRows h)

end Settings

end SymbolAtlas
