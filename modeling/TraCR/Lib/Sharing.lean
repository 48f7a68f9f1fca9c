import Mathlib.Logic.Function.Basic
import TraCR.Lib.Interleaving

/-!
# Workers that share a resource

Workers take turns; a turn of one may change the resource that all of them use.
`together` runs them in the order of the turns, `alone` one of them with a resource that
nobody else touches.  The rules say when a worker cannot tell the two apart.
-/

namespace TraCR.Lib.Sharing

open TraCR.Lib.Interleaving

variable {ι α β ρ ν : Type} [DecidableEq ι] {σ : ι → Type}

/-- The inputs of one worker; each shows something and leaves a state of the worker and one
of the resource. -/
def alone (step : ∀ i, σ i → ρ → α → β × σ i × ρ) (i : ι) :
    σ i → ρ → List α → List β × σ i × ρ
  | s, r, [] => ([], s, r)
  | s, r, a :: as =>
      let next := step i s r a
      let rest := alone step i next.2.1 next.2.2 as
      (next.1 :: rest.1, rest.2)

/-- The inputs of all workers, each tagged with the worker whose turn it is. -/
def together (step : ∀ i, σ i → ρ → α → β × σ i × ρ) :
    (∀ i, σ i) → ρ → List (α × ι) → List (β × ι) × (∀ i, σ i) × ρ
  | states, r, [] => ([], states, r)
  | states, r, (a, i) :: turns =>
      let next := step i (states i) r a
      let rest := together step (Function.update states i next.2.1) next.2.2 turns
      ((next.1, i) :: rest.1, rest.2)

variable {step : ∀ i, σ i → ρ → α → β × σ i × ρ}

/-- The simulation rule.  `Rel` relates the workers, the resource each of them would have on
its own, and the one they share.  If every turn keeps it, and shows and leaves the same on
both sides, then every worker sees what it would see alone. -/
theorem together_of_step {Rel : (∀ i, σ i) → (ι → ρ) → ρ → Prop}
    (hstep : ∀ states owned r, Rel states owned r → ∀ i a,
      (step i (states i) (owned i) a).1 = (step i (states i) r a).1 ∧
        (step i (states i) (owned i) a).2.1 = (step i (states i) r a).2.1 ∧
        Rel (Function.update states i (step i (states i) r a).2.1)
          (Function.update owned i (step i (states i) (owned i) a).2.2)
          (step i (states i) r a).2.2)
    {states : ∀ i, σ i} {owned : ι → ρ} {r : ρ} (h : Rel states owned r)
    (turns : List (α × ι)) :
    ∃ owned', (∀ i, alone step i (states i) (owned i) (source i turns) =
        (source i (together step states r turns).1, (together step states r turns).2.1 i,
          owned' i)) ∧
      Rel (together step states r turns).2.1 owned' (together step states r turns).2.2 := by
  induction turns generalizing states owned r with
  | nil => exact ⟨owned, fun _ => rfl, h⟩
  | cons turn turns ih =>
      obtain ⟨a, i⟩ := turn
      obtain ⟨hshown, hstate, hnext⟩ := hstep states owned r h i a
      obtain ⟨owned', halone, hlast⟩ := ih hnext
      refine ⟨owned', fun j => ?_, hlast⟩
      have hj := halone j
      by_cases hij : i = j
      · subst hij
        rw [Function.update_self, Function.update_self] at hj
        rw [source_cons_self, alone, hstate, hj, hshown]
        simp only [together, source_cons_self]
      · rw [Function.update_of_ne (Ne.symm hij), Function.update_of_ne (Ne.symm hij)] at hj
        rw [source_cons_ne hij, hj]
        simp only [together, source_cons_ne hij]

/-- The invariant rule for the workers and the resource. -/
theorem together_invariant {I : ∀ i, σ i → Prop} {P : ρ → Prop}
    (hstep : ∀ i s r a, I i s → P r → I i (step i s r a).2.1 ∧ P (step i s r a).2.2)
    {states : ∀ i, σ i} {r : ρ} (hstates : ∀ i, I i (states i)) (hr : P r)
    (turns : List (α × ι)) :
    (∀ i, I i ((together step states r turns).2.1 i)) ∧
      P (together step states r turns).2.2 := by
  induction turns generalizing states r with
  | nil => exact ⟨hstates, hr⟩
  | cons turn turns ih =>
      obtain ⟨a, i⟩ := turn
      obtain ⟨hstate, hnext⟩ := hstep i (states i) r a (hstates i) hr
      refine ih (fun j => ?_) hnext
      by_cases hij : j = i
      · subst hij
        rwa [Function.update_self]
      · rw [Function.update_of_ne hij]
        exact hstates j

/-- Each worker has a part of the resource, its view.  As long as its state meets `I` it
reads and changes nothing else. -/
structure Separate (step : ∀ i, σ i → ρ → α → β × σ i × ρ) (I : ∀ i, σ i → Prop)
    (view : ι → ρ → ν) : Prop where
  keeps : ∀ i s r a, I i s → I i (step i s r a).2.1
  reads : ∀ i s r r' a, I i s → view i r = view i r' →
    (step i s r a).1 = (step i s r' a).1 ∧ (step i s r a).2.1 = (step i s r' a).2.1 ∧
      view i (step i s r a).2.2 = view i (step i s r' a).2.2
  leaves : ∀ i j s r a, I i s → i ≠ j → view j (step i s r a).2.2 = view j r

/-- The frame rule.  Workers with parts of their own cannot tell whether they share the
resource, and leave in it what each of them leaves in its part alone. -/
theorem Separate.together {I : ∀ i, σ i → Prop} {view : ι → ρ → ν}
    (hsep : Separate step I view) {states : ∀ i, σ i} (hstates : ∀ i, I i (states i)) (r : ρ)
    (turns : List (α × ι)) (i : ι) :
    ∃ r', alone step i (states i) r (source i turns) =
        (source i (Sharing.together step states r turns).1,
          (Sharing.together step states r turns).2.1 i, r') ∧
      view i r' = view i (Sharing.together step states r turns).2.2 := by
  let Rel : (∀ i, σ i) → (ι → ρ) → ρ → Prop := fun states owned r =>
    ∀ i, I i (states i) ∧ view i (owned i) = view i r
  have hstep : ∀ states owned r, Rel states owned r → ∀ i a,
      (step i (states i) (owned i) a).1 = (step i (states i) r a).1 ∧
        (step i (states i) (owned i) a).2.1 = (step i (states i) r a).2.1 ∧
        Rel (Function.update states i (step i (states i) r a).2.1)
          (Function.update owned i (step i (states i) (owned i) a).2.2)
          (step i (states i) r a).2.2 := by
    intro states owned r h i a
    obtain ⟨hstate, hview⟩ := h i
    obtain ⟨hshown, hnext, hview⟩ := hsep.reads i _ _ _ a hstate hview
    refine ⟨hshown, hnext, fun j => ?_⟩
    by_cases hij : j = i
    · subst hij
      rw [Function.update_self, Function.update_self]
      exact ⟨hsep.keeps j _ r a hstate, hview⟩
    · rw [Function.update_of_ne hij, Function.update_of_ne hij]
      exact ⟨(h j).1, (h j).2.trans (hsep.leaves i j _ r a hstate (Ne.symm hij)).symm⟩
  have hrel : Rel states (fun _ => r) r := fun i => ⟨hstates i, rfl⟩
  obtain ⟨owned', halone, hlast⟩ := together_of_step hstep hrel turns
  exact ⟨owned' i, halone i, (hlast i).2⟩

end TraCR.Lib.Sharing
