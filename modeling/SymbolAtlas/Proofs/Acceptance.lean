import SymbolAtlas.Settings.Validation

/-!
What accepted settings are known to satisfy.
-/

set_option autoImplicit false

namespace SymbolAtlas

namespace Verdict

variable {α β : Type}

@[simp] theorem map_accepted (f : α → β) (x : Verdict α) (b : β) :
    x.map f = .accepted b ↔ ∃ a, x = .accepted a ∧ f a = b := by
  cases x <;> simp [map]

@[simp] theorem both_accepted (x : Verdict α) (y : Verdict β) (p : α × β) :
    x.both y = .accepted p ↔ x = .accepted p.1 ∧ y = .accepted p.2 := by
  cases x <;> cases y <;> simp [both, Prod.ext_iff]

@[simp] theorem bind_accepted (x : Verdict α) (f : α → Verdict β) (b : β) :
    x.bind f = .accepted b ↔ ∃ a, x = .accepted a ∧ f a = .accepted b := by
  cases x <;> simp [bind]

@[simp] theorem inside_accepted (step : String) (x : Verdict α) (a : α) :
    x.inside step = .accepted a ↔ x = .accepted a := by
  cases x <;> simp [inside]

end Verdict

namespace Validation

variable {α β : Type}

theorem model_accepted {name : String} {fields : Rows → Verdict α} {v : Value} {a : α}
    (h : model name fields v = .accepted a) :
    ∃ rows, v = .map rows ∧ fields rows = .accepted a := by
  cases v with
  | map rows => exact ⟨rows, rfl, h⟩
  | scalar s => simp [model, Verdict.complain] at h
  | list items => simp [model, Verdict.complain] at h

theorem field_accepted {rows : Rows} {name : String} {builtin : α} {check : Value → Verdict α}
    {a : α} (h : field rows name builtin check = .accepted a) :
    a = builtin ∨ ∃ v, check v = .accepted a := by
  cases hv : rows.get? name with
  | none =>
    left
    simpa [field, hv, eq_comm] using h
  | some v =>
    right
    exact ⟨v, by simpa [field, hv] using h⟩

theorem field_cases {rows : Rows} {name : String} {builtin : α} {check : Value → Verdict α} {a : α}
    (h : field rows name builtin check = .accepted a) :
    rows.get? name = none ∧ a = builtin ∨ ∃ v, rows.get? name = some v ∧ check v = .accepted a := by
  cases hv : rows.get? name with
  | none => exact .inl ⟨rfl, by simpa [field, hv, eq_comm] using h⟩
  | some v => exact .inr ⟨v, rfl, by simpa [field, hv] using h⟩

theorem checked_accepted {coerce : Value → Except Complaint α} {refine : α → Except String β}
    {v : Value} {b : β} (h : checked coerce refine v = .accepted b) :
    ∃ a, coerce v = .ok a ∧ refine a = .ok b := by
  cases hc : coerce v with
  | error complaint => simp [checked, hc, Verdict.complain] at h
  | ok a =>
    cases hr : refine a with
    | error reason => simp [checked, hc, hr, Verdict.complain] at h
    | ok b' =>
      simp only [checked, hc, hr, Verdict.accepted.injEq] at h
      exact ⟨a, rfl, h ▸ hr⟩

theorem builtin_decay :
    0 < ScoringSettings.builtin.depthDecay ∧ ScoringSettings.builtin.depthDecay < 1 :=
  ⟨by decide +kernel, by decide +kernel⟩

theorem densityBound_accepted {input : Value} {s t : ScoringSettings}
    (h : densityBound input t = .accepted s) :
    s = t ∧ 0 ≤ t.densityWeight ∧ t.densityWeight < densityLimit t := by
  simp only [densityBound] at h
  split at h
  · next hrange =>
    cases h
    simpa using hrange
  · simp [Verdict.complain] at h

theorem scoring_accepted {v : Value} {s : ScoringSettings} (h : scoring v = .accepted s) :
    0 < s.depthDecay ∧ s.depthDecay < 1 := by
  obtain ⟨rows, _, hfields⟩ := model_accepted h
  simp only [Verdict.bind_accepted, Verdict.map_accepted, Verdict.both_accepted] at hfields
  obtain ⟨t, ⟨⟨decay, weight, boost, precision⟩, ⟨hdecay, _⟩, rfl⟩, hbound⟩ := hfields
  obtain ⟨rfl, _⟩ := densityBound_accepted hbound
  rcases field_accepted hdecay with hd | ⟨v, hv⟩
  · exact hd ▸ builtin_decay
  · obtain ⟨x, _, hx⟩ := checked_accepted hv
    simp only [properFraction] at hx
    split at hx
    · next hrange =>
      cases hx
      simpa using hrange
    · cases hx

theorem scoring_weight {v : Value} {s : ScoringSettings} (h : scoring v = .accepted s) :
    0 ≤ s.densityWeight ∧ s.densityWeight < densityLimit s := by
  obtain ⟨rows, _, hfields⟩ := model_accepted h
  obtain ⟨t, _, hbound⟩ := (Verdict.bind_accepted ..).1 hfields
  obtain ⟨rfl, hweight⟩ := densityBound_accepted hbound
  exact hweight

theorem settings_scoring {accounts : Accounts} {v : Value} {s : Settings}
    (h : settings accounts v = .accepted s) :
    s.scoring = ScoringSettings.builtin ∨ ∃ v, scoring v = .accepted s.scoring := by
  obtain ⟨rows, _, hfields⟩ := model_accepted h
  simp only [sections, Verdict.map_accepted, Verdict.both_accepted] at hfields
  obtain ⟨⟨logging, indexer, scoring⟩, ⟨_, _, hscoring⟩, rfl⟩ := hfields
  exact field_accepted hscoring

theorem settings_accepted {accounts : Accounts} {v : Value} {s : Settings}
    (h : settings accounts v = .accepted s) :
    0 < s.scoring.depthDecay ∧ s.scoring.depthDecay < 1 := by
  rcases settings_scoring h with hs | ⟨v, hv⟩
  · exact hs ▸ builtin_decay
  · exact scoring_accepted hv

theorem settings_weight {accounts : Accounts} {v : Value} {s : Settings}
    (h : settings accounts v = .accepted s) :
    0 ≤ s.scoring.densityWeight ∧ s.scoring.densityWeight < densityLimit s.scoring := by
  rcases settings_scoring h with hs | ⟨v, hv⟩
  · rw [hs]
    exact ⟨by decide +kernel, by decide +kernel⟩
  · exact scoring_weight hv

end Validation

end SymbolAtlas
