import SymbolAtlas.Value.Distinct
import SymbolAtlas.Yaml.Document

/-!
Readers of YAML texts. Which one settings are read with is a choice of the caller; it has to give
values in which no key comes twice.

The reader of the library takes dates for texts. It has no values for the tags of octets, sets,
pairs and ordered mappings, refuses an alias within the node that it names, and goes as deep as the
text does.
-/

set_option autoImplicit false

namespace SymbolAtlas

theorem exceptMap_eq_ok {ε α β : Type} {f : α → β} {x : Except ε α} {b : β}
    (h : x.map f = .ok b) : ∃ a, x = .ok a ∧ f a = b := by
  cases x with
  | error e => cases h
  | ok a =>
    cases h
    exact ⟨a, rfl, rfl⟩

namespace Yaml

variable {α β : Type}

theorem both_ok {x : Except Placed α} {y : Except Placed β} {p : α × β} (h : both x y = .ok p) :
    x = .ok p.1 ∧ y = .ok p.2 := by
  cases x <;> cases y <;> simp [both] at h
  subst h
  exact ⟨rfl, rfl⟩

theorem each_ok {f : α → Except Placed β} {items : List α} {out : List β}
    (h : each f items = .ok out) : ∀ b ∈ out, ∃ a ∈ items, f a = .ok b := by
  induction items generalizing out with
  | nil =>
    cases h
    simp
  | cons a rest ih =>
    rw [each] at h
    cases hboth : both (f a) (each f rest) with
    | error e => simp [hboth, Except.map] at h
    | ok p =>
      rw [hboth] at h
      cases h
      obtain ⟨hhead, hrest⟩ := both_ok hboth
      intro b hb
      rcases List.mem_cons.1 hb with rfl | hb
      · exact ⟨a, List.mem_cons_self, hhead⟩
      · obtain ⟨a', hmem, ha'⟩ := ih hrest b hb
        exact ⟨a', List.mem_cons_of_mem a hmem, ha'⟩

theorem nodeValue_distinct {fuel depth : Nat} {n : Node} {v : Value}
    (h : nodeValue fuel depth n = .ok v) : v.Distinct := by
  induction fuel generalizing depth n v with
  | zero => simp [nodeValue] at h
  | succ fuel ih =>
    cases n with
    | scalar t text =>
      rw [nodeValue] at h
      obtain ⟨s, _, rfl⟩ := exceptMap_eq_ok h
      exact .scalar s
    | sequence tag items =>
      rw [nodeValue] at h
      split at h
      · cases h
      · obtain ⟨values, _, rfl⟩ := exceptMap_eq_ok h
        exact .list values
    | mapping tag rows =>
      rw [nodeValue] at h
      split at h
      · cases h
      · split at h
        · cases h
        · obtain ⟨out, hout, rfl⟩ := exceptMap_eq_ok h
          refine .ofList fun row hmem => ?_
          obtain ⟨nodes, _, hrow⟩ := each_ok hout row hmem
          exact ih (both_ok hrow).2

theorem load_distinct {cs : List Char} {v : Value} (h : load cs = .ok v) : v.Distinct := by
  unfold load at h
  split at h
  · cases h
  · split at h
    · cases h
    · cases h
      exact .scalar .null
    · split at h
      · cases h
      · next hvalue =>
        cases h
        exact nodeValue_distinct hvalue

structure Loader where
  load : List Char → Except Fault Value
  distinct : ∀ {cs : List Char} {v : Value}, load cs = .ok v → v.Distinct

def Loader.builtin : Loader := ⟨Yaml.load, load_distinct⟩

end Yaml

end SymbolAtlas
