import Mathlib.Order.MinMax
import Mathlib.Order.Defs.LinearOrder

/-!
# Running minima and maxima

A loop that folds `min` over a list ends with a lower bound of the start value
and of the list, and the bound is attained; dually for `max`.  Unsigned 64-bit
words are ordered as numbers, and a difference in that order does not wrap.
-/

namespace TraCR.Lib.Extrema

variable {α : Type} [LinearOrder α]

theorem le_foldl_min_iff {a init : α} {l : List α} :
    a ≤ l.foldl min init ↔ a ≤ init ∧ ∀ x ∈ l, a ≤ x := by
  induction l generalizing init with
  | nil => simp
  | cons x l ih =>
      rw [List.foldl_cons, ih, le_min_iff, List.forall_mem_cons, and_assoc]

theorem foldl_max_le_iff {a init : α} {l : List α} :
    l.foldl max init ≤ a ↔ init ≤ a ∧ ∀ x ∈ l, x ≤ a := by
  induction l generalizing init with
  | nil => simp
  | cons x l ih =>
      rw [List.foldl_cons, ih, max_le_iff, List.forall_mem_cons, and_assoc]

theorem foldl_min_le {x init : α} {l : List α} (hx : x ∈ l) : l.foldl min init ≤ x :=
  (le_foldl_min_iff.mp le_rfl).2 x hx

theorem le_foldl_max {x init : α} {l : List α} (hx : x ∈ l) : x ≤ l.foldl max init :=
  (foldl_max_le_iff.mp le_rfl).2 x hx

theorem foldl_min_mem (init : α) (l : List α) :
    l.foldl min init = init ∨ l.foldl min init ∈ l := by
  induction l generalizing init with
  | nil => exact .inl rfl
  | cons x l ih =>
      rcases ih (min init x) with heq | hmem
      · rw [List.foldl_cons, heq]
        rcases min_choice init x with h | h
        · exact .inl h
        · exact .inr (by simp [h])
      · exact .inr (List.mem_cons_of_mem _ hmem)

theorem foldl_min_perm {init : α} {l l' : List α} (h : l.Perm l') :
    l.foldl min init = l'.foldl min init := by
  apply eq_of_forall_le_iff
  intro a
  simp only [le_foldl_min_iff, h.mem_iff]

theorem foldl_max_perm {init : α} {l l' : List α} (h : l.Perm l') :
    l.foldl max init = l'.foldl max init := by
  apply eq_of_forall_ge_iff
  intro a
  simp only [foldl_max_le_iff, h.mem_iff]

/-! ## Words -/

instance linearOrderUInt64 : LinearOrder UInt64 where
  le_refl a := UInt64.le_iff_toNat_le.mpr le_rfl
  le_trans a b c hab hbc := by
    rw [UInt64.le_iff_toNat_le] at hab hbc ⊢
    omega
  le_antisymm a b hab hba := by
    rw [UInt64.le_iff_toNat_le] at hab hba
    exact UInt64.toNat_inj.mp (by omega)
  lt_iff_le_not_ge a b := by
    rw [UInt64.le_iff_toNat_le, UInt64.le_iff_toNat_le, UInt64.lt_iff_toNat_lt]
    omega
  le_total a b := by
    rw [UInt64.le_iff_toNat_le, UInt64.le_iff_toNat_le]
    omega
  toDecidableLE := inferInstance
  toDecidableEq := inferInstance
  toDecidableLT := inferInstance

theorem toNat_sub {a b : UInt64} (h : b ≤ a) : (a - b).toNat = a.toNat - b.toNat :=
  UInt64.toNat_sub_of_le a b h

/-- Differences from one base compare as the words do. -/
theorem sub_le_sub {a b base : UInt64} (ha : base ≤ a) (hab : a ≤ b) :
    a - base ≤ b - base := by
  rw [UInt64.le_iff_toNat_le, toNat_sub ha, toNat_sub (le_trans ha hab)]
  rw [UInt64.le_iff_toNat_le] at ha hab
  omega

end TraCR.Lib.Extrema
