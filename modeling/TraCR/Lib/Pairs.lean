import Mathlib.Data.List.Forall2
import TraCR.Lib.SortedList

/-!
# Consecutive pairs

`consecutive l` lists the neighbours of `l`.  A machine that remembers the last
element and lets out one pair for each further element computes exactly this
list, so statements about such machines become statements about neighbours.
-/

namespace TraCR.Lib.Pairs

open TraCR.Lib.SortedList

variable {α β κ : Type}

def consecutive (l : List α) : List (α × α) := l.zip l.tail

@[simp] theorem consecutive_nil : consecutive ([] : List α) = [] := rfl

@[simp] theorem consecutive_singleton (a : α) : consecutive [a] = [] := rfl

@[simp] theorem consecutive_cons_cons (a b : α) (l : List α) :
    consecutive (a :: b :: l) = (a, b) :: consecutive (b :: l) := rfl

theorem consecutive_map (f : α → β) (l : List α) :
    consecutive (l.map f) = (consecutive l).map (Prod.map f f) := by
  rw [consecutive, ← List.map_tail, List.zip_map]
  rfl

theorem forall₂_consecutive {R : α → β → Prop} {l : List α} {l' : List β}
    (h : List.Forall₂ R l l') :
    List.Forall₂ (fun x y => R x.1 y.1 ∧ R x.2 y.2) (consecutive l) (consecutive l') := by
  induction h with
  | nil => exact .nil
  | @cons a b l l' hab hrest ih =>
      cases hrest with
      | nil => exact .nil
      | cons hcd _ => exact .cons ⟨hab, hcd⟩ ih

theorem mem_consecutive {a b : α} {l : List α} (h : (a, b) ∈ consecutive l) :
    ∃ pre post, l = pre ++ a :: b :: post := by
  induction l with
  | nil => cases h
  | cons c l ih =>
      cases l with
      | nil => cases h
      | cons d l =>
          rw [consecutive_cons_cons, List.mem_cons] at h
          rcases h with heq | h
          · obtain ⟨rfl, rfl⟩ := Prod.mk.inj heq
            exact ⟨[], l, rfl⟩
          · obtain ⟨pre, post, hl⟩ := ih h
            exact ⟨c :: pre, post, by rw [hl]; rfl⟩

theorem fst_mem_of_mem_consecutive {a b : α} {l : List α}
    (h : (a, b) ∈ consecutive l) : a ∈ l := by
  obtain ⟨pre, post, rfl⟩ := mem_consecutive h
  simp

theorem snd_mem_of_mem_consecutive {a b : α} {l : List α}
    (h : (a, b) ∈ consecutive l) : b ∈ l := by
  obtain ⟨pre, post, rfl⟩ := mem_consecutive h
  simp

theorem key_le_of_mem_consecutive [LinearOrder κ] {key : α → κ} {l : List α}
    (hsort : SortedBy key l) {a b : α} (h : (a, b) ∈ consecutive l) :
    key a ≤ key b := by
  obtain ⟨pre, post, rfl⟩ := mem_consecutive h
  have hsuffix : SortedBy key (a :: b :: post) := (List.pairwise_append.mp hsort).2.1
  exact hsuffix.head_le (by simp)

/-- In a sorted list a pair ends no later than any further pair begins. -/
theorem pairwise_consecutive [LinearOrder κ] {key : α → κ} {l : List α}
    (hsort : SortedBy key l) :
    (consecutive l).Pairwise fun x y => key x.2 ≤ key y.1 := by
  induction l with
  | nil => exact .nil
  | cons a l ih =>
      cases l with
      | nil => exact .nil
      | cons b l =>
          rw [consecutive_cons_cons, List.pairwise_cons]
          constructor
          · rintro ⟨c, d⟩ hcd
            exact hsort.tail.head_le (fst_mem_of_mem_consecutive hcd)
          · exact ih hsort.tail

/-! ## Cutting a list

The pairs of a suffix are the pairs that open in it; the pairs of a prefix are
the pairs that close in it. -/

theorem consecutive_suffix (p : α → Bool) {l₁ l₂ : List α}
    (h₁ : ∀ a ∈ l₁, p a = false) (h₂ : ∀ a ∈ l₂, p a = true) :
    (consecutive (l₁ ++ l₂)).filter (fun x => p x.1) = consecutive l₂ := by
  induction l₁ with
  | nil =>
      rw [List.nil_append, List.filter_eq_self]
      rintro ⟨a, b⟩ hab
      exact h₂ a (fst_mem_of_mem_consecutive hab)
  | cons a l₁ ih =>
      have hrest := ih fun b hb => h₁ b (by simp [hb])
      have ha : p a = false := h₁ a (by simp)
      cases hl : l₁ ++ l₂ with
      | nil =>
          rw [hl] at hrest
          simpa [hl] using hrest
      | cons b l =>
          rw [hl] at hrest
          simpa [hl, ha] using hrest

theorem consecutive_prefix (p : α → Bool) {l₁ l₂ : List α}
    (h₁ : ∀ a ∈ l₁, p a = true) (h₂ : ∀ a ∈ l₂, p a = false) :
    (consecutive (l₁ ++ l₂)).filter (fun x => p x.2) = consecutive l₁ := by
  induction l₁ with
  | nil =>
      rw [List.nil_append, consecutive_nil, List.filter_eq_nil_iff]
      rintro ⟨a, b⟩ hab
      simp [h₂ b (snd_mem_of_mem_consecutive hab)]
  | cons a l₁ ih =>
      have hrest := ih fun b hb => h₁ b (by simp [hb])
      cases l₁ with
      | nil =>
          cases l₂ with
          | nil => rfl
          | cons b l₂ =>
              have hb : p b = false := h₂ b (by simp)
              simpa [hb] using hrest
      | cons b l₁ =>
          have hb : p b = true := h₁ b (by simp)
          simpa [hb] using hrest

theorem consecutive_isPrefix {l l' : List α} (h : l' <+: l) :
    consecutive l' <+: consecutive l := by
  induction l' generalizing l with
  | nil => exact List.nil_prefix
  | cons a l' ih =>
      obtain ⟨rest, rfl⟩ := h
      cases l' with
      | nil => exact List.nil_prefix
      | cons b l' =>
          simp only [List.cons_append, consecutive_cons_cons, List.prefix_cons_inj]
          exact ih ⟨rest, rfl⟩

end TraCR.Lib.Pairs
