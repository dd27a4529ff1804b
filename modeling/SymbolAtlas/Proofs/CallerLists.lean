import SymbolAtlas.Callers
import SymbolAtlas.Proofs.Tables

/-!
Caller lists. Opening gives every token one empty list, at its home; counting references then
changes no key of either level and appends to the list of the referred token only. So the lists
of a batch are known token by token.
-/

set_option autoImplicit false

namespace SymbolAtlas

namespace CallerTable

def list? (callers : CallerTable) (path token : String) : Option (List String) :=
  (callers.get? path).bind fun lists => lists.get? token

def layout (callers : CallerTable) : List (String × List String) :=
  callers.entries.map fun row => (row.1, row.2.keys)

theorem keys_eq_layout (callers : CallerTable) : callers.keys = callers.layout.map Prod.fst := by
  simp [Table.keys, layout, List.map_map, Function.comp_def]

theorem mem_layout (callers : CallerTable) (path : String) (tokens : List String) :
    (path, tokens) ∈ callers.layout ↔
      ∃ lists, callers.get? path = some lists ∧ lists.keys = tokens := by
  simp [layout, Table.get?_eq_some_iff]

theorem eq_of_list? {s t : CallerTable} (hl : s.layout = t.layout)
    (h : ∀ path token, s.list? path token = t.list? path token) : s = t := by
  refine Table.eq_of_get? (by rw [keys_eq_layout, keys_eq_layout, hl]) fun path => ?_
  cases hs : s.get? path with
  | none =>
    rw [Table.get?_eq_none_iff, keys_eq_layout, hl, ← keys_eq_layout] at hs
    exact ((Table.get?_eq_none_iff t path).2 hs).symm
  | some lists =>
    obtain ⟨lists', ht, hkeys⟩ :=
      (mem_layout t path lists.keys).1 (hl ▸ (mem_layout s path lists.keys).2 ⟨lists, hs, rfl⟩)
    have hlists : lists = lists' := Table.eq_of_get? hkeys.symm fun token => by
      simpa [list?, hs, ht] using h path token
    rw [ht, hlists]

end CallerTable

namespace Callers

variable {σ : Type} (definers : Table String String)

section Opening

def atHome (path : String) (tokens : List String) : List String :=
  tokens.filter fun token => definers.get? token = some path

def emptyLists (tokens : List String) : Table String (List String) :=
  tokens.foldl (fun lists token => lists.insert token []) Table.empty

theorem entries_emptyLists {tokens : List String} (h : tokens.Nodup) :
    (emptyLists tokens).entries = tokens.map fun token => (token, []) := by
  have hrows := Table.entries_ofList (tokens.map fun token => (token, ([] : List String)))
    (by simpa [List.map_map, Function.comp_def] using h)
  simpa [emptyLists, Table.ofList, List.foldl_map] using hrows

theorem foldl_open (path token : String) (tokens : List String) (callers : CallerTable) :
    (token :: tokens).foldl (fun (callers : CallerTable) token =>
        callers.alter path fun old => (old.getD Table.empty).insert token []) callers =
      callers.alter path fun old =>
        (token :: tokens).foldl (fun lists token => lists.insert token [])
          (old.getD Table.empty) := by
  induction tokens generalizing token callers with
  | nil => rfl
  | cons next rest ih =>
    rw [List.foldl_cons, ih, Table.alter_alter]
    rfl

theorem entries_openFile (callers : CallerTable) (row : String × Table String σ)
    (h : row.1 ∉ callers.keys) :
    (openFile definers callers row).entries = callers.entries ++
      if atHome definers row.1 row.2.keys = [] then []
      else [(row.1, emptyLists (atHome definers row.1 row.2.keys))] := by
  have hfold : openFile definers callers row =
      (atHome definers row.1 row.2.keys).foldl (fun (callers : CallerTable) token =>
        callers.alter row.1 fun old => (old.getD Table.empty).insert token []) callers := by
    simp [openFile, atHome, List.foldl_filter]
  rw [hfold]
  cases hm : atHome definers row.1 row.2.keys with
  | nil => simp
  | cons token rest =>
    rw [foldl_open, if_neg (List.cons_ne_nil token rest)]
    exact Table.alterRows_of_not_mem row.1 _ callers.entries h

theorem entries_foldl_openFile (rows : List (String × Table String σ)) (callers : CallerTable)
    (h : (callers.keys ++ rows.map Prod.fst).Nodup) :
    (rows.foldl (openFile definers) callers).entries = callers.entries ++
      rows.flatMap fun row => if atHome definers row.1 row.2.keys = [] then []
        else [(row.1, emptyLists (atHome definers row.1 row.2.keys))] := by
  induction rows generalizing callers with
  | nil => simp
  | cons row rest ih =>
    have hnew : row.1 ∉ callers.keys := by
      intro hm
      rw [List.nodup_append] at h
      exact h.2.2 _ hm _ (by simp) rfl
    have hentries := entries_openFile definers callers row hnew
    rw [List.foldl_cons, ih, hentries, List.flatMap_cons, List.append_assoc]
    have hsub : ((openFile definers callers row).keys ++ rest.map Prod.fst).Sublist
        (callers.keys ++ (row :: rest).map Prod.fst) := by
      rw [Table.keys, hentries, List.map_append, List.append_assoc]
      apply List.Sublist.append_left
      by_cases hm : atHome definers row.1 row.2.keys = []
      · simp [hm]
      · simp [hm]
    exact hsub.nodup h

theorem entries_opened (scores : ScoreTable σ) :
    (opened scores definers).entries = scores.entries.flatMap fun row =>
      if atHome definers row.1 row.2.keys = [] then []
      else [(row.1, emptyLists (atHome definers row.1 row.2.keys))] := by
  have h := entries_foldl_openFile definers scores.entries Table.empty (by simpa using scores.nodup)
  simpa [opened, Table.empty] using h

theorem keys_emptyLists {tokens : List String} (h : tokens.Nodup) :
    (emptyLists tokens).keys = tokens := by
  simp [Table.keys, entries_emptyLists h, List.map_map, Function.comp_def]

theorem nodup_atHome (path : String) {tokens : List String} (h : tokens.Nodup) :
    (atHome definers path tokens).Nodup :=
  h.filter _

theorem layout_opened (scores : ScoreTable σ) :
    (opened scores definers).layout =
      (scores.entries.map fun row => (row.1, atHome definers row.1 row.2.keys)).filter
        fun row => row.2 ≠ [] := by
  rw [CallerTable.layout, entries_opened]
  induction scores.entries with
  | nil => rfl
  | cons row rest ih =>
    have hkeys := keys_emptyLists (nodup_atHome definers row.1 row.2.nodup_keys)
    by_cases hm : atHome definers row.1 row.2.keys = []
    · simpa [hm] using ih
    · simpa [hm, hkeys] using ih

theorem list?_opened (scores : ScoreTable σ) (path token : String) :
    (opened scores definers).list? path token =
      if definers.get? token = some path ∧ ∃ row, scores.get? path = some row ∧ token ∈ row.keys
      then some [] else none := by
  have hlist : ∀ list, (opened scores definers).list? path token = some list ↔
      (definers.get? token = some path ∧ ∃ row, scores.get? path = some row ∧ token ∈ row.keys) ∧
        list = [] := by
    intro list
    simp only [CallerTable.list?, Option.bind_eq_some_iff, Table.get?_eq_some_iff, entries_opened,
      List.mem_flatMap]
    constructor
    · rintro ⟨lists, ⟨row, hrow, hm⟩, hlist⟩
      by_cases hnil : atHome definers row.1 row.2.keys = []
      · simp [hnil] at hm
      · simp only [hnil, if_false, List.mem_singleton, Prod.mk.injEq] at hm
        obtain ⟨rfl, rfl⟩ := hm
        rw [entries_emptyLists (nodup_atHome definers row.1 row.2.nodup_keys)] at hlist
        simp only [atHome, List.mem_map, List.mem_filter, decide_eq_true_eq, Prod.mk.injEq] at hlist
        obtain ⟨t, ⟨ht, hhome⟩, rfl, hl⟩ := hlist
        exact ⟨⟨(Table.get?_eq_some_iff ..).1 hhome, row.2, hrow, ht⟩, hl.symm⟩
    · rintro ⟨⟨hhome, row, hrow, ht⟩, rfl⟩
      have hm : token ∈ atHome definers path row.keys := by
        simp [atHome, ht, (Table.get?_eq_some_iff ..).2 hhome]
      refine ⟨emptyLists (atHome definers path row.keys), ⟨(path, row), hrow, ?_⟩, ?_⟩
      · rw [if_neg (List.ne_nil_of_mem hm)]
        simp
      · rw [entries_emptyLists (nodup_atHome definers path row.nodup_keys)]
        exact List.mem_map_of_mem hm
  split
  · next h => exact (hlist []).2 ⟨h, rfl⟩
  · next h =>
    rw [Option.eq_none_iff_forall_ne_some]
    exact fun list hl => h ((hlist list).1 hl).1

end Opening

section Counting

def callersOf (refs : List (String × String)) (token : String) : List String :=
  (refs.filter fun ref => ref.2 = token).map Prod.fst

/-- Every token with a home has a list there. -/
def Ready (callers : CallerTable) : Prop :=
  ∀ token home, definers.get? token = some home → (callers.list? home token).isSome

theorem append_ok {callers : CallerTable} {home token : String} {list : List String}
    (h : callers.list? home token = some list) (caller : String) :
    ∃ callers', append callers home token caller = .ok callers' ∧
      callers'.layout = callers.layout ∧
      ∀ path t, callers'.list? path t =
        if path = home ∧ t = token then some (list ++ [caller]) else callers.list? path t := by
  rw [CallerTable.list?, Option.bind_eq_some_iff] at h
  obtain ⟨lists, hlists, hlist⟩ := h
  refine ⟨_, by simp only [append, hlists, hlist]; rfl, ?_, ?_⟩
  · have hkeys : (lists.insert token (list ++ [caller])).keys = lists.keys := by
      rw [Table.keys_insert, if_pos (Table.mem_keys_of_get? hlist)]
    exact Table.map_entries_insert _ callers (by rw [hkeys]) hlists
  · intro path t
    by_cases hp : path = home
    · subst hp
      by_cases ht : t = token
      · simp [CallerTable.list?, Table.get?_insert, ht]
      · have ht' : ¬ token = t := fun e => ht e.symm
        simp [CallerTable.list?, Table.get?_insert, hlists, ht, ht']
    · have hp' : ¬ home = path := fun e => hp e.symm
      simp [CallerTable.list?, Table.get?_insert, hp, hp']

/-- One reference: the list of its token grows at the token's home, or nothing but the counter
changes. -/
theorem refer_ok {a : Attribution} (h : Ready definers a.callers) (ref : String × String) :
    ∃ a', refer definers ref.1 a ref.2 = .ok a' ∧ a'.callers.layout = a.callers.layout ∧
      (∀ path token, a'.callers.list? path token = (a.callers.list? path token).map fun list =>
        list ++ if definers.get? token = some path then callersOf [ref] token else []) ∧
      a'.dropped = a.dropped + [ref].countP fun r => (definers.get? r.2).isNone := by
  obtain ⟨caller, token⟩ := ref
  cases hd : definers.get? token with
  | none =>
    refine ⟨⟨a.callers, a.dropped + 1⟩, by simp [refer, hd], rfl, ?_, by simp [hd]⟩
    intro path t
    by_cases ht : token = t
    · subst ht
      simp [hd]
    · simp [callersOf, ht]
  | some home =>
    obtain ⟨list, hlist⟩ := Option.isSome_iff_exists.1 (h token home hd)
    obtain ⟨callers', happend, hlayout, hlists⟩ := append_ok hlist caller
    refine ⟨⟨callers', a.dropped⟩, by simp [refer, hd, happend], hlayout, ?_, by simp [hd]⟩
    intro path t
    rw [hlists path t]
    by_cases ht : token = t
    · subst ht
      by_cases hp : home = path
      · subst hp
        simp [callersOf, hd, hlist]
      · have hp' : ¬ path = home := fun e => hp e.symm
        simp [hd, hp, hp']
    · have ht' : ¬ t = token := fun e => ht e.symm
      simp [callersOf, ht, ht']

theorem Ready.of_list? {callers callers' : CallerTable}
    {f : String → String → List String → List String} (h : Ready definers callers)
    (hl : ∀ path token, callers'.list? path token = (callers.list? path token).map (f path token)) :
    Ready definers callers' := by
  intro token home hd
  rw [hl, Option.isSome_map]
  exact h token home hd

/-- Any number of references: every list gets the callers of its token, in their order. -/
theorem foldlM_refer (refs : List (String × String)) {a : Attribution}
    (h : Ready definers a.callers) :
    ∃ a', refs.foldlM (fun a ref => refer definers ref.1 a ref.2) a = .ok a' ∧
      a'.callers.layout = a.callers.layout ∧
      (∀ path token, a'.callers.list? path token = (a.callers.list? path token).map fun list =>
        list ++ if definers.get? token = some path then callersOf refs token else []) ∧
      a'.dropped = a.dropped + refs.countP fun r => (definers.get? r.2).isNone := by
  -- Lists grow and never go away, so every state on the way is ready for the next reference.
  induction refs generalizing a with
  | nil => exact ⟨a, rfl, rfl, by simp [callersOf], by simp⟩
  | cons ref rest ih =>
    obtain ⟨b, hb, hlayout, hlist, hdropped⟩ := refer_ok definers h ref
    obtain ⟨c, hc, hlayout', hlist', hdropped'⟩ := ih (h.of_list? definers hlist)
    refine ⟨c, ?_, hlayout'.trans hlayout, ?_, ?_⟩
    · rw [List.foldlM_cons, hb]
      exact hc
    · intro path token
      rw [hlist', hlist, Option.map_map]
      congr 1
      funext list
      by_cases hd : definers.get? token = some path
      · simp [hd, callersOf, ← List.map_append, ← List.filter_append]
      · simp [hd]
    · rw [hdropped', hdropped, Nat.add_assoc, ← List.countP_append]
      rfl

def references (facts : List FileFacts) : List (String × String) :=
  facts.flatMap fun f => f.references.map fun token => (f.path, token)

theorem foldlM_referAll (facts : List FileFacts) (a : Attribution) :
    facts.foldlM (referAll definers) a =
      (references facts).foldlM (fun a ref => refer definers ref.1 a ref.2) a := by
  induction facts generalizing a with
  | nil => rfl
  | cons f rest ih =>
    simp only [List.foldlM_cons, references, List.flatMap_cons, List.foldlM_append,
      List.foldlM_map, referAll]
    exact bind_congr fun b => ih b

theorem callersOf_references (facts : List FileFacts) (token : String) :
    callersOf (references facts) token =
      facts.flatMap fun f => List.replicate (f.references.count token) f.path := by
  have hfile : ∀ (path : String) (tokens : List String),
      callersOf (tokens.map fun t => (path, t)) token =
        List.replicate (tokens.count token) path := by
    intro path tokens
    induction tokens with
    | nil => rfl
    | cons t rest ih =>
      by_cases ht : t = token
      · simpa [callersOf, ht, List.replicate_succ] using ih
      · simpa [callersOf, ht] using ih
  induction facts with
  | nil => rfl
  | cons f rest ih =>
    have happend := hfile f.path f.references
    simp only [callersOf, references, List.flatMap_cons, List.filter_append,
      List.map_append] at ih happend ⊢
    rw [happend, ih]

/-- The lists of a batch, provided every home scores the tokens that are at home there. -/
theorem assign_ok (scores : ScoreTable σ) (facts : List FileFacts)
    (h : ∀ token home, definers.get? token = some home →
      ∃ row, scores.get? home = some row ∧ token ∈ row.keys) :
    ∃ a, assign scores facts definers = .ok a ∧
      a.callers.layout = (opened scores definers).layout ∧
      (∀ path token, a.callers.list? path token =
        if definers.get? token = some path then
          some (facts.flatMap fun f => List.replicate (f.references.count token) f.path)
        else none) ∧
      a.dropped = (facts.flatMap FileFacts.references).countP fun t =>
        (definers.get? t).isNone := by
  have hlist : ∀ path token, (opened scores definers).list? path token =
      if definers.get? token = some path then some [] else none := by
    intro path token
    rw [list?_opened]
    by_cases hd : definers.get? token = some path
    · simp [hd, h token path hd]
    · simp [hd]
  have hready : Ready definers (opened scores definers) := by
    intro token home hd
    simp [hlist, hd]
  obtain ⟨a, ha, hlayout, hlists, hdropped⟩ :=
    foldlM_refer definers (references facts) (a := ⟨opened scores definers, 0⟩) hready
  refine ⟨a, ?_, hlayout, ?_, ?_⟩
  · rw [assign, foldlM_referAll]
    exact ha
  · intro path token
    rw [hlists, hlist, callersOf_references]
    by_cases hd : definers.get? token = some path
    · simp [hd]
    · simp [hd]
  · have htokens : facts.flatMap FileFacts.references = (references facts).map Prod.snd := by
      simp [references, List.map_flatMap, Function.comp_def]
    rw [hdropped, htokens, List.countP_map, Nat.zero_add]
    rfl

end Counting

end Callers

end SymbolAtlas
