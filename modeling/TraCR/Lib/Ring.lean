import Mathlib.Data.List.Basic
import Mathlib.Data.Nat.ModEq

/-!
# Ring buffers

A ring buffer is an array written at a running index modulo its capacity.  The
array holds the last `cap` elements ever written; reading it from the oldest
slot to the end and then from the start gives them in the order of writing.
-/

namespace TraCR.Lib.Ring

variable {α : Type} {cap : Nat}

def write (hcap : 0 < cap) (slots : Vector α cap) (n : Nat) (x : α) : Vector α cap :=
  slots.set (n % cap) x (Nat.mod_lt n hcap)

/-- The array holds the last `cap` elements of `xs`, each in the slot of its
running index. -/
def Holds (slots : Vector α cap) (xs : List α) : Prop :=
  ∀ j (_ : j < xs.length) (_ : j % cap < cap), xs.length ≤ j + cap →
    slots[j % cap] = xs[j]

variable {slots : Vector α cap} {xs : List α}

theorem holds_nil : Holds slots [] := by
  intro j hj
  simp at hj

private theorem mod_ne {j n : Nat} (hlt : j < n) (hturn : n < j + cap) :
    n % cap ≠ j % cap := by
  intro heq
  have hdvd : cap ∣ n - j := (Nat.modEq_iff_dvd' (by omega)).mp heq.symm
  have hle : cap ≤ n - j := Nat.le_of_dvd (by omega) hdvd
  omega

theorem Holds.write (hcap : 0 < cap) (h : Holds slots xs) (x : α) :
    Holds (Ring.write hcap slots xs.length x) (xs ++ [x]) := by
  intro j hj hslot hturn
  simp only [List.length_append, List.length_singleton] at hj hturn
  simp only [Ring.write, Vector.getElem_set]
  by_cases hlast : j = xs.length
  · subst hlast
    simp
  · have hold : j < xs.length := by omega
    rw [if_neg (mod_ne hold (by omega)), h j hold hslot (by omega)]
    simp [hold]

/-- Before the first wrap the array starts with everything written. -/
theorem Holds.take_eq (h : Holds slots xs) (hfit : xs.length ≤ cap) :
    slots.toList.take xs.length = xs := by
  apply List.ext_getElem
  · simp [hfit]
  · intro i hi hi'
    have hslot := h i hi' (Nat.mod_lt i (by omega)) (by omega)
    have hmod : i % cap = i := Nat.mod_eq_of_lt (by omega)
    simpa [hmod] using hslot

/-- After a wrap the oldest slot is the next one to be written. -/
theorem Holds.rotate_eq (hcap : 0 < cap) (h : Holds slots xs) (hwrap : cap ≤ xs.length) :
    (slots.toList.drop (xs.length % cap)).take (cap - xs.length % cap) ++
        slots.toList.take (xs.length % cap) =
      xs.drop (xs.length - cap) := by
  have hlt : xs.length % cap < cap := Nat.mod_lt _ hcap
  have hdiv : cap * (xs.length / cap) + xs.length % cap = xs.length :=
    Nat.div_add_mod xs.length cap
  have hpos : 1 ≤ xs.length / cap := (Nat.one_le_div_iff hcap).mpr hwrap
  -- `k` steps after the oldest element the slot index is `k` past the oldest slot
  have hindex : ∀ k, k < cap → (xs.length - cap + k) % cap =
      if k < cap - xs.length % cap then xs.length % cap + k
      else k - (cap - xs.length % cap) := by
    intro k hk
    obtain ⟨q, hq⟩ : ∃ q, xs.length / cap = q + 1 := ⟨xs.length / cap - 1, by omega⟩
    rw [hq, Nat.mul_succ] at hdiv
    split
    · have hsum : xs.length - cap + k = (xs.length % cap + k) + cap * q := by omega
      rw [hsum, Nat.add_mul_mod_self_left, Nat.mod_eq_of_lt (by omega)]
    · have hsum : xs.length - cap + k =
          (k - (cap - xs.length % cap)) + cap * (q + 1) := by
        rw [Nat.mul_succ]
        omega
      rw [hsum, Nat.add_mul_mod_self_left, Nat.mod_eq_of_lt (by omega)]
  apply List.ext_getElem
  · simp
    omega
  · intro k hk hk'
    have hkcap : k < cap := by
      simp at hk'
      omega
    have hslot := h (xs.length - cap + k) (by simp at hk'; omega)
      (Nat.mod_lt _ hcap) (by omega)
    simp only [hindex k hkcap] at hslot
    rw [List.getElem_drop, ← hslot, List.getElem_append]
    by_cases hfirst : k < cap - xs.length % cap
    · simp [hfirst]
    · simp [hfirst]

end TraCR.Lib.Ring
