import Mathlib.Data.List.Sort
import Mathlib.Order.Defs.LinearOrder

/-!
# Lists sorted by a key

A list sorted by a key is determined by its blocks of equal keys.  The stable
sort keeps every block, so it commutes with filtering and leaves a sorted list
alone.
-/

namespace TraCR.Lib.SortedList

variable {α κ : Type} [LinearOrder κ]

def SortedBy (key : α → κ) (l : List α) : Prop :=
  l.Pairwise fun a b => key a ≤ key b

instance (key : α → κ) (l : List α) : Decidable (SortedBy key l) :=
  inferInstanceAs (Decidable (l.Pairwise fun a b => key a ≤ key b))

/-- The elements whose key is `k`, in list order. -/
def block (key : α → κ) (k : κ) (l : List α) : List α :=
  l.filter fun a => key a = k

variable {key : α → κ} {l l₁ l₂ : List α} {k : κ}

theorem mem_block {a : α} : a ∈ block key k l ↔ a ∈ l ∧ key a = k := by
  simp [block]

theorem SortedBy.nil : SortedBy key ([] : List α) := List.Pairwise.nil

theorem SortedBy.tail {a : α} (h : SortedBy key (a :: l)) : SortedBy key l :=
  (List.pairwise_cons.mp h).2

theorem SortedBy.head_le {a b : α} (h : SortedBy key (a :: l)) (hb : b ∈ a :: l) :
    key a ≤ key b := by
  rcases List.mem_cons.mp hb with rfl | hb
  · exact le_refl _
  · exact (List.pairwise_cons.mp h).1 b hb

theorem SortedBy.sublist (h : SortedBy key l₂) (hs : l₁.Sublist l₂) :
    SortedBy key l₁ :=
  List.Pairwise.sublist hs h

theorem SortedBy.filter (p : α → Bool) (h : SortedBy key l) :
    SortedBy key (l.filter p) :=
  List.Pairwise.filter p h

theorem SortedBy.le_getLast {a : α} (h : SortedBy key l) (hne : l ≠ []) (ha : a ∈ l) :
    key a ≤ key (l.getLast hne) := by
  rw [← List.dropLast_append_getLast hne] at ha
  rcases List.mem_append.mp ha with ha | ha
  · have hsplit : SortedBy key (l.dropLast ++ [l.getLast hne]) := by
      rwa [List.dropLast_append_getLast hne]
    exact (List.pairwise_append.mp hsplit).2.2 a ha _ (by simp)
  · exact le_of_eq (congrArg key (List.mem_singleton.mp ha))

theorem eq_of_block_eq (s₁ : SortedBy key l₁) (s₂ : SortedBy key l₂)
    (h : ∀ k, block key k l₁ = block key k l₂) : l₁ = l₂ := by
  induction l₁ generalizing l₂ with
  | nil =>
      cases l₂ with
      | nil => rfl
      | cons b l₂ =>
          have hb := h (key b)
          simp [block] at hb
  | cons a l₁ ih =>
      cases l₂ with
      | nil =>
          have ha := h (key a)
          simp [block] at ha
      | cons b l₂ =>
          have ha : a ∈ b :: l₂ :=
            (mem_block.mp (h (key a) ▸ mem_block.mpr ⟨by simp, rfl⟩)).1
          have hb : b ∈ a :: l₁ :=
            (mem_block.mp ((h (key b)).symm ▸ mem_block.mpr ⟨by simp, rfl⟩)).1
          have hkey : key a = key b := le_antisymm (s₁.head_le hb) (s₂.head_le ha)
          have hhead : a :: block key (key a) l₁ = b :: block key (key a) l₂ := by
            simpa [block, hkey] using h (key a)
          obtain ⟨rfl, -⟩ := List.cons.inj hhead
          congr 1
          apply ih s₁.tail s₂.tail
          intro k
          have hk := h k
          by_cases hak : key a = k <;> simpa [block, hak] using hk

theorem block_filter (p : α → Bool) :
    block key k (l.filter p) = (block key k l).filter p := by
  simp only [block, List.filter_filter, Bool.and_comm]

/-! ## The stable sort -/

/-- Insertion sort by the key: elements with equal keys keep their order. -/
def stableSort (key : α → κ) (l : List α) : List α :=
  l.insertionSort fun a b => key a ≤ key b

theorem stableSort_perm (l : List α) : (stableSort key l).Perm l :=
  List.perm_insertionSort _ l

@[simp] theorem mem_stableSort {a : α} : a ∈ stableSort key l ↔ a ∈ l :=
  (stableSort_perm l).mem_iff

theorem stableSort_sorted (l : List α) : SortedBy key (stableSort key l) := by
  have : Std.Total (fun a b : α => key a ≤ key b) := ⟨fun a b => le_total _ _⟩
  have : IsTrans α (fun a b : α => key a ≤ key b) := ⟨fun _ _ _ => le_trans⟩
  exact List.pairwise_insertionSort _ l

private theorem block_orderedInsert (a : α) (l : List α) :
    block key k (l.orderedInsert (fun a b => key a ≤ key b) a) =
      block key k (a :: l) := by
  induction l with
  | nil => rfl
  | cons b l ih =>
      rw [List.orderedInsert_cons]
      by_cases hab : key a ≤ key b
      · rw [if_pos hab]
      · rw [if_neg hab]
        have hne : ¬(key a = k ∧ key b = k) := by
          rintro ⟨ha, hb⟩
          exact hab (by rw [ha, hb])
        simp only [block, List.filter_cons] at ih ⊢
        rw [ih]
        by_cases ha : key a = k
        · have hb : key b ≠ k := fun hb => hne ⟨ha, hb⟩
          simp [ha, hb]
        · simp [ha]

/-- Stability: sorting keeps the order inside every block. -/
theorem block_stableSort (l : List α) :
    block key k (stableSort key l) = block key k l := by
  induction l with
  | nil => rfl
  | cons a l ih =>
      have hstep : stableSort key (a :: l) =
          (stableSort key l).orderedInsert (fun a b => key a ≤ key b) a := rfl
      rw [hstep, block_orderedInsert]
      simp only [block, List.filter_cons] at ih ⊢
      rw [ih]

theorem stableSort_eq_self (h : SortedBy key l) : stableSort key l = l :=
  eq_of_block_eq (stableSort_sorted l) h fun _ => block_stableSort l

theorem filter_stableSort (p : α → Bool) (l : List α) :
    (stableSort key l).filter p = stableSort key (l.filter p) := by
  apply eq_of_block_eq ((stableSort_sorted l).filter p) (stableSort_sorted _)
  intro k
  rw [block_filter, block_stableSort, block_stableSort, block_filter]

/-- A list is determined by its keys and its blocks. -/
theorem eq_of_map_eq_of_block_eq (hkeys : l₁.map key = l₂.map key)
    (h : ∀ k, block key k l₁ = block key k l₂) : l₁ = l₂ := by
  induction l₁ generalizing l₂ with
  | nil => exact (List.map_eq_nil_iff.mp hkeys.symm).symm
  | cons a l₁ ih =>
      cases l₂ with
      | nil => cases hkeys
      | cons b l₂ =>
          obtain ⟨hab, hrest⟩ := List.cons.inj hkeys
          have hhead := h (key a)
          simp only [block, List.filter_cons, decide_true, if_true, ← hab] at hhead
          obtain ⟨rfl, -⟩ := List.cons.inj hhead
          congr 1
          apply ih hrest
          intro k
          have hk := h k
          by_cases hak : key a = k <;> simpa [block, hak] using hk

theorem eq_of_stableSort_eq (hkeys : l₁.map key = l₂.map key)
    (h : stableSort key l₁ = stableSort key l₂) : l₁ = l₂ := by
  apply eq_of_map_eq_of_block_eq hkeys
  intro k
  rw [← block_stableSort l₁, h, block_stableSort]

/-! ## Sorting without stability -/

/-- A sort that promises order but not the order of equal keys (`std::sort`). -/
structure Sorter (key : α → κ) where
  sort : List α → List α
  perm : ∀ l, (sort l).Perm l
  sorted : ∀ l, SortedBy key (sort l)

def Sorter.stable (key : α → κ) : Sorter key where
  sort := stableSort key
  perm := stableSort_perm
  sorted := stableSort_sorted

/-- With distinct keys every sort of every rearrangement gives the same list. -/
theorem Sorter.sort_unique (s₁ s₂ : Sorter key) (hperm : l₁.Perm l₂)
    (hnodup : (l₁.map key).Nodup) : s₁.sort l₁ = s₂.sort l₂ := by
  have hsorted : (s₁.sort l₁).Perm (s₂.sort l₂) :=
    (s₁.perm l₁).trans (hperm.trans (s₂.perm l₂).symm)
  refine hsorted.eq_of_pairwise ?_ (s₁.sorted l₁) (s₂.sorted l₂)
  intro a b ha hb hab hba
  have hab' : key a = key b := le_antisymm hab hba
  exact List.inj_on_of_nodup_map hnodup ((s₁.perm l₁).mem_iff.mp ha)
    (hperm.mem_iff.mpr ((s₂.perm l₂).mem_iff.mp hb)) hab'

end TraCR.Lib.SortedList
