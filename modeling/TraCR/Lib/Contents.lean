import Mathlib.Data.List.AList

/-!
# What the values of a finite map hold

`contents f t` puts together what `f` finds in the values of the map `t`.  A write
takes away what the old value of the key held and adds what the new value holds.
-/

namespace TraCR.Lib.Contents

variable {κ α γ : Type} [DecidableEq κ] {t : AList fun _ : κ => α} {k : κ} {v : α}

def contents (f : α → List γ) (t : AList fun _ : κ => α) : List γ :=
  t.entries.flatMap fun e => f e.2

def contentsAt (f : α → List γ) (t : AList fun _ : κ => α) (k : κ) : List γ :=
  ((t.lookup k).map f).getD []

/-! ## Lookups after a write -/

section Lookup

variable {k' : κ} {v' : α}

theorem lookup_insert_eq_some_iff :
    (t.insert k v).lookup k' = some v' ↔
      (k' = k ∧ v' = v) ∨ (k' ≠ k ∧ t.lookup k' = some v') := by
  by_cases hkey : k' = k
  · subst hkey
    rw [AList.lookup_insert]
    simp [eq_comm]
  · rw [AList.lookup_insert_ne hkey]
    simp [hkey]

theorem lookup_erase_eq_some_iff :
    (t.erase k).lookup k' = some v' ↔ k' ≠ k ∧ t.lookup k' = some v' := by
  by_cases hkey : k' = k
  · subst hkey
    simp
  · rw [AList.lookup_erase_ne hkey]
    simp [hkey]

theorem lookup_erase_eq_none_iff :
    (t.erase k).lookup k' = none ↔ k' = k ∨ t.lookup k' = none := by
  by_cases hkey : k' = k
  · subst hkey
    simp
  · rw [AList.lookup_erase_ne hkey]
    simp [hkey]

end Lookup

/-! ## Entries -/

theorem entries_perm_of_lookup (h : t.lookup k = some v) :
    t.entries.Perm (⟨k, v⟩ :: (t.erase k).entries) := by
  have hmem : k ∈ t.entries.keys := AList.lookup_isSome.mp (h ▸ rfl)
  obtain ⟨v', l₁, l₂, -, hsplit, hrest⟩ := List.exists_of_kerase hmem
  have hin : (⟨k, v'⟩ : Sigma fun _ : κ => α) ∈ t.entries := by
    rw [hsplit]
    exact List.mem_append_right _ List.mem_cons_self
  obtain rfl : v' = v := Option.some.inj ((AList.mem_lookup_iff.mpr hin).symm.trans h)
  have herase : (t.erase k).entries = l₁ ++ l₂ := hrest
  rw [herase, hsplit]
  exact List.perm_middle

theorem entries_erase_of_lookup (h : t.lookup k = none) : (t.erase k).entries = t.entries :=
  List.kerase_of_notMem_keys (AList.lookup_eq_none.mp h)

theorem length_entries_of_lookup (h : t.lookup k = some v) :
    t.entries.length = (t.erase k).entries.length + 1 :=
  (entries_perm_of_lookup h).length_eq

theorem length_entries_insert_of_lookup {v' : α} (h : t.lookup k = some v) :
    (t.insert k v').entries.length = t.entries.length :=
  (length_entries_of_lookup h).symm

theorem contents_insert (f : α → List γ) :
    contents f (t.insert k v) = f v ++ contents f (t.erase k) := rfl

theorem contents_perm (f : α → List γ) (t : AList fun _ : κ => α) (k : κ) :
    (contents f t).Perm (contentsAt f t k ++ contents f (t.erase k)) := by
  unfold contentsAt contents
  cases h : t.lookup k with
  | none =>
      rw [entries_erase_of_lookup h]
      exact .refl _
  | some v => exact (entries_perm_of_lookup h).flatMap_right _

/-- The entries of a class of keys, where one key of the class has a value. -/
theorem filter_entries_eq_singleton {p : κ → Bool} (h : t.lookup k = some v) (hk : p k = true)
    (hother : ∀ k', p k' = true → k' ≠ k → t.lookup k' = none) :
    (t.entries.filter fun e => p e.1) = [⟨k, v⟩] := by
  have hperm := (entries_perm_of_lookup h).filter fun e => p e.1
  have hrest : ((t.erase k).entries.filter fun e => p e.1) = [] := by
    rw [List.filter_eq_nil_iff]
    intro e he hpe
    obtain ⟨hne, hlookup⟩ := lookup_erase_eq_some_iff.mp (AList.mem_lookup_iff.mpr he)
    rw [hother e.1 hpe hne] at hlookup
    cases hlookup
  rw [List.filter_cons_of_pos (by exact hk), hrest] at hperm
  exact List.perm_singleton.mp hperm

end TraCR.Lib.Contents
