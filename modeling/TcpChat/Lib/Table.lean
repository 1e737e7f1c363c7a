import Mathlib.Data.List.AList

/-!
# Finite maps with in-place modification

The operations of a hash map that Mathlib's `AList` lacks: a change of all values, a change of the value at one
key, and an insertion that keeps a value that is already there.
-/

namespace TcpChat.Lib

/-- A finite map. -/
abbrev Table (κ ν : Type) := AList fun _ : κ => ν

namespace Table

variable {κ ν : Type} [DecidableEq κ] {m : Table κ ν} {k k' : κ} {v : ν}

/-- Changes every value. -/
def update (m : Table κ ν) (f : κ → ν → ν) : Table κ ν :=
  ⟨m.entries.map (.map id f), m.nodupKeys.map₂ f⟩

@[simp] theorem lookup_update (f : κ → ν → ν) : (m.update f).lookup k = (m.lookup k).map (f k) :=
  List.dlookup_map₂ k

omit [DecidableEq κ] in
@[simp] theorem keys_update (f : κ → ν → ν) : (m.update f).keys = m.keys :=
  List.map₂_keys f m.entries

/-- Changes the value at the key `k`, if there is one. -/
def modify (m : Table κ ν) (k : κ) (f : ν → ν) : Table κ ν := m.update fun k' v => if k' = k then f v else v

@[simp] theorem lookup_modify (f : ν → ν) :
    (m.modify k f).lookup k' = (m.lookup k').map fun v => if k' = k then f v else v :=
  lookup_update _

/-- `emplace`: a value that is already there stays. -/
def emplace (m : Table κ ν) (k : κ) (v : ν) : Table κ ν := if k ∈ m then m else m.insert k v

theorem lookup_emplace_of_notMem (h : k ∉ m) :
    (m.emplace k v).lookup k' = if k' = k then some v else m.lookup k' := by
  rw [emplace, if_neg h]
  split
  next hk => rw [hk, AList.lookup_insert]
  next hk => rw [AList.lookup_insert_ne hk]

/-- After an `emplace` an entry is the new one or was there before. -/
theorem lookup_emplace {w : ν} (h : (m.emplace k v).lookup k' = some w) :
    m.lookup k' = some w ∨ k' = k ∧ w = v := by
  by_cases hk : k ∈ m
  · rw [emplace, if_pos hk] at h
    exact .inl h
  · rw [lookup_emplace_of_notMem hk] at h
    split at h
    next he => exact .inr ⟨he, (Option.some.inj h).symm⟩
    next => exact .inl h

/-- What is left after an `erase` was there before, under another key. -/
theorem lookup_erase_eq_some {w : ν} : (m.erase k).lookup k' = some w ↔ k' ≠ k ∧ m.lookup k' = some w := by
  by_cases hk : k' = k
  · subst hk
    simp [AList.lookup_erase]
  · simp [AList.lookup_erase_ne hk, hk]

end Table

end TcpChat.Lib
