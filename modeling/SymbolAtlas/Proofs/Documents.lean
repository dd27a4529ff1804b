import SymbolAtlas.Proofs.Overlays
import SymbolAtlas.Settings.Load

/-!
Documents that are read have no key twice in any mapping that a path leads to, and octets below 128
are read as they stand.
-/

set_option autoImplicit false

namespace SymbolAtlas

namespace Json

theorem readMagnitude_scalar {negative : Bool} {cs rest : List Char} {v : Value}
    (h : readMagnitude negative cs = some (v, rest)) : ∃ s, v = .scalar s := by
  unfold readMagnitude at h
  split at h
  · cases h
  · dsimp only at h
    split at h
    · cases h
      exact ⟨_, rfl⟩
    · split at h
      · cases h
        exact ⟨_, rfl⟩
      · split at h
        · cases h
        · cases h
          exact ⟨_, rfl⟩

theorem readAtom_distinct {cs rest : List Char} {v : Value}
    (h : readAtom cs = some (v, rest)) : v.Distinct := by
  have hwords : ∀ row ∈ words, ∃ s, row.2 = Value.scalar s := by
    simp [words]
  have hscalar : ∃ s, v = .scalar s := by
    unfold readAtom at h
    split at h
    · next found hfound =>
      cases h
      obtain ⟨row, hrow, hmap⟩ := List.exists_of_findSome?_eq_some hfound
      obtain ⟨_, _, hv⟩ := Option.map_eq_some_iff.1 hmap
      exact (Prod.mk.inj hv).1 ▸ hwords row hrow
    · split at h
      · exact readMagnitude_scalar h
      · exact readMagnitude_scalar h
  obtain ⟨s, rfl⟩ := hscalar
  exact .scalar s

theorem readValue_distinct {fuel : Nat} {cs rest : List Char} {v : Value}
    (hrows : ∀ cs rows rest, readRows fuel cs = some (rows, rest) → ∀ row ∈ rows, row.2.Distinct)
    (h : readValue (fuel + 1) cs = some (v, rest)) : v.Distinct := by
  rw [readValue.eq_def] at h
  dsimp only at h
  split at h
  · obtain ⟨_, _, hv⟩ := Option.map_eq_some_iff.1 h
    cases hv
    exact .scalar _
  · split at h
    · cases h
      exact .list []
    · obtain ⟨_, _, hv⟩ := Option.map_eq_some_iff.1 h
      cases hv
      exact .list _
  · split at h
    · cases h
      exact .nil
    · obtain ⟨out, hout, hv⟩ := Option.map_eq_some_iff.1 h
      cases hv
      exact .ofList (hrows _ _ _ hout)
  · exact readAtom_distinct h

theorem readRows_distinct {fuel : Nat} {cs rest : List Char} {rows : List (Scalar × Value)}
    (hvalue : ∀ cs v rest, readValue fuel cs = some (v, rest) → v.Distinct)
    (hrows : ∀ cs rows rest, readRows fuel cs = some (rows, rest) → ∀ row ∈ rows, row.2.Distinct)
    (h : readRows (fuel + 1) cs = some (rows, rest)) : ∀ row ∈ rows, row.2.Distinct := by
  rw [readRows.eq_def] at h
  dsimp only at h
  split at h
  · split at h
    · cases h
    · split at h
      · split at h
        · cases h
        · next v _ hv =>
          split at h
          · cases h
            simpa using hvalue _ _ _ hv
          · obtain ⟨out, hout, heq⟩ := Option.map_eq_some_iff.1 h
            cases heq
            exact List.forall_mem_cons.2 ⟨hvalue _ _ _ hv, hrows _ _ _ hout⟩
          · cases h
      · cases h
  · cases h

theorem readers_distinct (fuel : Nat) :
    (∀ cs v rest, readValue fuel cs = some (v, rest) → v.Distinct) ∧
      ∀ cs rows rest, readRows fuel cs = some (rows, rest) → ∀ row ∈ rows, row.2.Distinct := by
  induction fuel with
  | zero => exact ⟨fun _ _ _ h => by simp [readValue] at h, fun _ _ _ h => by simp [readRows] at h⟩
  | succ fuel ih =>
    exact ⟨fun _ _ _ h => readValue_distinct ih.2 h, fun _ _ _ h => readRows_distinct ih.1 ih.2 h⟩

theorem read_distinct {s : String} {v : Value} (h : read s = some v) : v.Distinct := by
  unfold read at h
  dsimp only at h
  split at h
  · next hvalue =>
    split at h
    · cases h
      exact (readers_distinct _).1 _ _ _ hvalue
    · cases h
  · cases h

end Json

namespace Utf8

theorem piece_ascii {c : Char} (hc : c.toNat < 128) (rest : List UInt8) :
    piece c.toNat.toUInt8 rest = (.char c, 0) := by
  have hoctet : c.toNat.toUInt8.toNat = c.toNat := by
    rw [Nat.toUInt8_eq, UInt8.toNat_ofNat']
    omega
  simp [piece, lead?, hoctet, hc, follow]

theorem pieces_ascii {cs : List Char} (h : ∀ c ∈ cs, c.toNat < 128) :
    pieces (cs.map fun c => c.toNat.toUInt8) = cs.map .char := by
  induction cs with
  | nil => simp [pieces]
  | cons c rest ih =>
    obtain ⟨hc, hrest⟩ := List.forall_mem_cons.1 h
    rw [List.map_cons, pieces, piece_ascii hc, List.drop_zero, ih hrest, List.map_cons]

/-- A text of characters below 128 is read as it stands. -/
theorem decode_ascii {cs : List Char} (h : (cs.all fun c => c.toNat < 128) = true) :
    decode (cs.map fun c => c.toNat.toUInt8) = .ok cs := by
  have hcollect : ∀ (position : Nat) (cs : List Char),
      collect position (cs.map .char) = .ok cs := by
    intro position cs
    induction cs generalizing position with
    | nil => rfl
    | cons c rest ih => simp [collect, ih]
  rw [decode, pieces_ascii (by simpa using h), hcollect]

end Utf8

namespace SettingsFile

variable {loader : Yaml.Loader}

theorem parse_distinct {path : Path} {cs : List Char} {rows : Rows}
    (h : parse loader path cs = .ok rows) : (Value.map rows).Distinct := by
  unfold parse at h
  split at h
  · cases h
  · next hvalue =>
    split at h
    · cases h
      exact .nil
    · split at h
      · cases h
        exact loader.distinct hvalue
      · cases h

theorem load_distinct {files : FileTree} {current path : Path} {rows : Rows}
    (h : load loader files current path = .ok rows) : (Value.map rows).Distinct := by
  unfold load at h
  split at h
  · cases h
    exact .nil
  · split at h
    · cases h
      exact .nil
    · cases h
      exact .nil
    · cases h
    · unfold decode at h
      split at h
      · cases h
      · exact parse_distinct h

theorem load_eq {files : FileTree} {current path : Path} {octets : List UInt8} {cs : List Char}
    {rows : Rows} (hnul : holdsNul path.text = false)
    (hread : files.read (current.below path) = .ok octets) (hdecode : Utf8.decode octets = .ok cs)
    (hvalue : loader.load (Text.unifyNewlines cs) = .ok (.map rows)) (hrows : rows ≠ []) :
    load loader files current path = .ok rows := by
  simp [load, hnul, hread, decode, hdecode, parse, hvalue, Value.isEmpty, hrows]

end SettingsFile

end SymbolAtlas
