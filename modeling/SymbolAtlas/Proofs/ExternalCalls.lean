import SymbolAtlas.Proofs.Reordering

/-!
Calls from elsewhere, counted twice. The counter that raises scores asks every file for its own
definitions, and caller lists ask for the home of the token. They agree all the same: the list of a
token has every reference to it, and a token without a home is defined in no file, so that all
references to it come from elsewhere.
-/

set_option autoImplicit false

namespace SymbolAtlas

/-! ## Sums over counters -/

namespace Table

variable {κ : Type} [DecidableEq κ]

def total (counts : Table κ Nat) (p : κ → Bool) : Nat :=
  ((counts.entries.filter fun row => p row.1).map Prod.snd).sum

theorem sum_bumpRows (p : κ → Bool) (key : κ) (rows : List (κ × Nat)) :
    (((alterRows key (fun old => old.getD 0 + 1) rows).filter fun row => p row.1).map
        Prod.snd).sum =
      ((rows.filter fun row => p row.1).map Prod.snd).sum + if p key then 1 else 0 := by
  induction rows with
  | nil => cases hp : p key <;> simp [alterRows, hp]
  | cons row rest ih =>
    obtain ⟨k, n⟩ := row
    by_cases hk : k = key
    · subst hk
      cases hp : p k with
      | false => simp [alterRows, hp]
      | true =>
        simp only [alterRows, if_true, List.filter_cons, hp, List.map_cons, List.sum_cons,
          Option.getD_some]
        omega
    · cases hp : p k with
      | false => simpa [alterRows, hk, hp] using ih
      | true =>
        simp only [alterRows, hk, if_false, List.filter_cons, hp, if_true, List.map_cons,
          List.sum_cons, ih]
        omega

theorem total_bump (counts : Table κ Nat) (key : κ) (p : κ → Bool) :
    (counts.bump key).total p = counts.total p + if p key then 1 else 0 :=
  sum_bumpRows p key counts.entries

end Table

namespace Callers

theorem total_foldl_countExternal (p : String → Bool) (f : FileFacts) (refs : List String)
    (counts : Table String Nat) :
    (refs.foldl (countExternal f) counts).total p =
      counts.total p + refs.countP fun t => p t && !f.definitions.contains t := by
  induction refs generalizing counts with
  | nil => rfl
  | cons t rest ih =>
    rw [List.foldl_cons, ih, countExternal, List.countP_cons]
    cases hc : f.definitions.contains t with
    | true => simp
    | false =>
      simp only [Bool.false_eq_true, if_false, Table.total_bump, Bool.not_false, Bool.and_true]
      omega

theorem total_external (p : String → Bool) (facts : List FileFacts) :
    (external facts).total p =
      (facts.map fun f => f.references.countP fun t => p t && !f.definitions.contains t).sum := by
  have hfold : ∀ counts : Table String Nat,
      (facts.foldl (fun counts f => f.references.foldl (countExternal f) counts) counts).total p =
        counts.total p +
          (facts.map fun f =>
            f.references.countP fun t => p t && !f.definitions.contains t).sum := by
    induction facts with
    | nil => simp
    | cons f rest ih =>
      intro counts
      rw [List.foldl_cons, ih, total_foldl_countExternal, List.map_cons, List.sum_cons,
        Nat.add_assoc]
  have hstart : (Table.empty : Table String Nat).total p = 0 := rfl
  rw [external, hfold, hstart, Nat.zero_add]

/-! ## Callers that define the token -/

def defines (facts : List FileFacts) (path token : String) : Bool :=
  facts.any fun f => f.path == path && f.definitions.contains token

theorem defines_path {facts : List FileFacts} (hn : (facts.map FileFacts.path).Nodup)
    {f : FileFacts} (hf : f ∈ facts) (token : String) :
    defines facts f.path token = f.definitions.contains token := by
  rw [Bool.eq_iff_iff, defines, List.any_eq_true]
  simp only [Bool.and_eq_true, beq_iff_eq]
  constructor
  · rintro ⟨g, hg, hpath, hc⟩
    obtain rfl := List.inj_on_of_nodup_map hn hg hf hpath
    exact hc
  · intro hc
    exact ⟨f, hf, rfl, hc⟩

/-- The callers of a token that do not define it are the calls from elsewhere. -/
theorem countP_callers {facts : List FileFacts} (hn : (facts.map FileFacts.path).Nodup)
    (token : String) :
    ((facts.flatMap fun f => List.replicate (f.references.count token) f.path).countP
        fun caller => !defines facts caller token) = externalCount facts token := by
  rw [externalCount_eq, List.countP_flatMap]
  refine congrArg List.sum (List.map_congr_left fun f hf => ?_)
  rw [Function.comp_apply, List.countP_replicate, defines_path hn hf, externalCalls]
  cases f.definitions.contains token <;> rfl

theorem total_external_of_undefined {facts : List FileFacts} {p : String → Bool}
    (h : ∀ token, p token = true → ∀ f ∈ facts, f.definitions.contains token = false) :
    (external facts).total p = (facts.flatMap FileFacts.references).countP p := by
  rw [total_external, List.countP_flatMap]
  refine congrArg List.sum (List.map_congr_left fun f hf => List.countP_congr fun token _ => ?_)
  cases hp : p token with
  | false => simp
  | true => simp [h token hp f hf]

end Callers

open Callers

variable {σ : Type} [BEq σ] [LT σ] [DecidableLT σ] [ScoreArithmetic σ]

/-- The counter of calls from elsewhere agrees with the caller lists. At a token with a home it has
as many calls as the list of the token has callers that do not define it; at the other tokens it has
together as many as references are dropped. -/
theorem external_calls_of_lists (rule : ScoringRule σ) {facts : List FileFacts}
    (hn : (facts.map FileFacts.path).Nodup) {raw : ScoreTable σ}
    (h : Score.ofFacts rule facts = .ok raw) :
    ∃ a, assign raw facts raw.definers = .ok a ∧
      (∀ token home, raw.definers.get? token = some home →
        ∃ list, a.callers.list? home token = some list ∧
          ((external facts).get? token).getD 0 =
            list.countP fun caller => !defines facts caller token) ∧
      (((external facts).entries.filter fun row => (raw.definers.get? row.1).isNone).map
        Prod.snd).sum = a.dropped := by
  obtain ⟨a, ha, hlists⟩ := Atlas.assign_ofFacts hn h
  refine ⟨a, ha, fun token home hd => ?_, ?_⟩
  · refine ⟨_, by rw [hlists.list, if_pos hd], ?_⟩
    rw [countP_callers hn]
    rfl
  · have hundefined : ∀ token, (raw.definers.get? token).isNone = true →
        ∀ f ∈ facts, f.definitions.contains token = false := by
      intro token hnone f hf
      have hhome := (definers_ofFacts hn h token).1
      rw [Bool.eq_false_iff, ne_eq, Table.contains, Table.isSome_get?_iff]
      intro ht
      rw [Option.isNone_iff_eq_none] at hnone
      exact absurd (hhome.2 ⟨f, hf, ht⟩) (by simp [hnone])
    rw [hlists.dropped, ← total_external_of_undefined hundefined]
    rfl

namespace Callers.Sample

def file (path : String) (definitions : List (String × Nat)) (references : List String) :
    FileFacts :=
  { FileFacts.blank path none with
    definitions := Table.ofList definitions, references := references }

/-- Two files define `f` and call it, one of them twice; nobody defines `g`. -/
def batch : List FileFacts :=
  [file "d/b.py" [("f", 1)] ["f", "f"], file "a.py" [("f", 1)] ["f"],
    file "c.py" [] ["g", "f", "g", "f"]]

theorem home_of_batch {raw : ScoreTable ℝ}
    (h : Score.ofFacts Workspace.Sample.rule batch = .ok raw) :
    raw.definers.get? "f" = some "a.py" := by
  refine (Score.get?_definers_exact Workspace.Sample.accepted_rule (by decide) h "f" "a.py").2
    ⟨file "a.py" [("f", 1)] ["f"], by simp [batch], rfl, by decide, ?_⟩
  intro g hg ht
  simp only [batch, List.mem_cons, List.not_mem_nil, or_false] at hg
  rcases hg with rfl | rfl | rfl
  · have hdepth : Path.depth "a.py" < Path.depth "d/b.py" := by decide
    exact (Prod.Lex.toLex_lt_toLex.2 (.inl hdepth)).le
  · exact le_rfl
  · exact absurd ht (by decide)

end Callers.Sample

open Callers.Sample in
/-- Of the five callers of `f` only the last two count, and both references to `g` are dropped. -/
theorem external_calls_of_sample : (batch.map FileFacts.path).Nodup ∧
    ∃ (raw : ScoreTable ℝ) (a : Attribution),
      Score.ofFacts Workspace.Sample.rule batch = .ok raw ∧
      assign raw batch raw.definers = .ok a ∧ raw.definers.get? "f" = some "a.py" ∧
      (∃ list, a.callers.list? "a.py" "f" = some list ∧
        (list.countP fun caller => !defines batch caller "f") = 2) ∧ a.dropped = 2 := by
  have hn : (batch.map FileFacts.path).Nodup := by decide
  obtain ⟨raw, hraw⟩ := Score.ofFacts_exact Workspace.Sample.rule batch
  have hhome := home_of_batch hraw
  have hnone : raw.definers.get? "g" = none := by
    rw [← Option.not_isSome_iff_eq_none, (definers_ofFacts hn hraw "g").1]
    decide
  obtain ⟨a, ha, hlist, hdropped⟩ := external_calls_of_lists Workspace.Sample.rule hn hraw
  obtain ⟨list, hl, hcount⟩ := hlist "f" "a.py" hhome
  refine ⟨hn, raw, a, hraw, ha, hhome, ⟨list, hl, hcount.symm.trans (by decide)⟩, ?_⟩
  have hcalls : (external batch).entries = [("g", 2), ("f", 2)] := by decide
  rw [← hdropped, hcalls]
  simp [hhome, hnone]

end SymbolAtlas
