import Mathlib.Algebra.BigOperators.Group.Finset.Basic
import Mathlib.Algebra.Ring.Parity

/-!
# Tallies

Counting a list by key.  The counts of distinct keys that cover the list add up to its
length.  A set that takes a key in and out in turn holds the keys that occur an odd
number of times.
-/

namespace TraCR.Lib.Tally

variable {α κ : Type}

theorem nodup_map_fst_filterMap {β : Type} {g : κ → Option (κ × β)} {keys : List κ}
    (hkey : ∀ k x, g k = some x → x.1 = k) (hnodup : keys.Nodup) :
    ((keys.filterMap g).map Prod.fst).Nodup := by
  have hsublist : ((keys.filterMap g).map Prod.fst).Sublist keys := by
    induction keys with
    | nil => exact .slnil
    | cons k keys ih =>
        have hrest := ih (List.nodup_cons.mp hnodup).2
        cases hk : g k with
        | none =>
            rw [List.filterMap_cons_none hk]
            exact hrest.cons k
        | some x =>
            rw [List.filterMap_cons_some hk, List.map_cons, hkey k x hk]
            exact hrest.cons_cons k
  exact hsublist.nodup hnodup

variable [DecidableEq κ]

/-- Counts over distinct keys that cover a list. -/
theorem sum_map_count {keys l : List κ} (hnodup : keys.Nodup) (hcover : ∀ k ∈ l, k ∈ keys) :
    (keys.map fun k => l.count k).sum = l.length := by
  have hcard : ∑ k ∈ keys.toFinset, Multiset.count k (l : Multiset κ) =
      Multiset.card (l : Multiset κ) := by
    apply Multiset.sum_count_eq_card
    intro k hk
    exact List.mem_toFinset.mpr (hcover k hk)
  rw [List.sum_toFinset _ hnodup] at hcard
  simpa using hcard

theorem sum_map_length_filter {f : α → κ} {keys : List κ} {l : List α} (hnodup : keys.Nodup)
    (hcover : ∀ a ∈ l, f a ∈ keys) :
    (keys.map fun k => (l.filter fun a => f a = k).length).sum = l.length := by
  have hcount : ∀ k, (l.filter fun a => f a = k).length = (l.map f).count k := by
    intro k
    rw [List.count_eq_countP, List.countP_map, List.countP_eq_length_filter]
    rfl
  simp only [hcount]
  rw [sum_map_count hnodup (List.forall_mem_map.mpr hcover), List.length_map]

/-! ## Taking in and out -/

/-- Take out a key that is in the set, put in one that is not. -/
def toggle (s : Finset κ) (k : κ) : Finset κ :=
  if k ∈ s then s.erase k else insert k s

theorem mem_toggle {s : Finset κ} {k k' : κ} :
    k' ∈ toggle s k ↔ if k' = k then k' ∉ s else k' ∈ s := by
  rw [toggle]
  by_cases hkey : k' = k
  · subst hkey
    by_cases hmem : k' ∈ s <;> simp [hmem]
  · by_cases hmem : k ∈ s <;> simp [hmem, hkey]

/-- In turn in and out: what is left occurs an odd number of times. -/
theorem mem_foldl_toggle {l : List κ} {k : κ} :
    k ∈ l.foldl toggle ∅ ↔ Odd (l.count k) := by
  induction l using List.reverseRecOn with
  | nil => simp
  | append_singleton l a ih =>
      rw [List.foldl_append, List.foldl_cons, List.foldl_nil, mem_toggle, List.count_append,
        List.count_singleton]
      by_cases hkey : k = a
      · subst hkey
        rw [if_pos rfl, if_pos (beq_self_eq_true k), Nat.odd_add_one, ih]
      · rw [if_neg hkey, if_neg (by simpa using Ne.symm hkey), Nat.add_zero, ih]

theorem foldl_toggle_eq_empty_iff {l : List κ} :
    l.foldl toggle ∅ = ∅ ↔ ∀ k, Even (l.count k) := by
  rw [Finset.eq_empty_iff_forall_notMem]
  apply forall_congr'
  intro k
  rw [mem_foldl_toggle, Nat.not_odd_iff_even]

theorem even_length_of_even_count {l : List κ} (h : ∀ k, Even (l.count k)) :
    Even l.length := by
  rw [← sum_map_count l.nodup_dedup fun k hk => List.mem_dedup.mpr hk]
  induction l.dedup with
  | nil => simp
  | cons k keys ih =>
      rw [List.map_cons, List.sum_cons]
      exact (h k).add ih

theorem even_count_add_length {l : List κ} {a : κ} (h : ∀ k, k ≠ a → Even (l.count k)) :
    Even (l.count a + l.length) := by
  have hothers : Even (l.filter fun k => !(k == a)).length := by
    apply even_length_of_even_count
    intro k
    by_cases hka : k = a
    · have hnone : (l.filter fun k => !(k == a)).count k = 0 := by
        rw [List.count_eq_zero, List.mem_filter]
        simp [hka]
      rw [hnone]
      exact Even.zero
    · rw [List.count_filter (by simpa using hka)]
      exact h k hka
  have hsplit := List.length_eq_countP_add_countP (fun k => k == a) (l := l)
  rw [hsplit, ← List.count_eq_countP, ← Nat.add_assoc]
  refine (Even.add_self _).add ?_
  rw [List.countP_eq_length_filter]
  simpa only [decide_not, Bool.decide_eq_true] using hothers

end TraCR.Lib.Tally
