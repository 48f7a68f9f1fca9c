import Mathlib.Data.List.Basic
import TraCR.Lib.SortedList

/-!
# Interleavings of tagged sequences

An interleaving of a family of lists is a list of tagged elements whose elements
with tag `i` are, in order, the `i`-th list.  It says what a merge does without
saying how: nothing is lost, duplicated, reordered within a source or attributed
to another source.  The last section shows when the order across sources is
determined as well.
-/

namespace TraCR.Lib.Interleaving

open TraCR.Lib.SortedList

variable {α ι κ : Type} [DecidableEq ι]

def source (i : ι) (out : List (α × ι)) : List α :=
  (out.filter fun x => x.2 = i).map Prod.fst

/-- Restricted to any source, `out` is that source. -/
def Interleaves (files : ι → List α) (out : List (α × ι)) : Prop :=
  ∀ i, source i out = files i

variable {files : ι → List α} {out : List (α × ι)}

@[simp] theorem source_nil (i : ι) : source i ([] : List (α × ι)) = [] := rfl

@[simp] theorem source_cons_self (i : ι) (a : α) (out : List (α × ι)) :
    source i ((a, i) :: out) = a :: source i out := by
  simp [source]

theorem source_cons_ne {i j : ι} (h : j ≠ i) (a : α) (out : List (α × ι)) :
    source i ((a, j) :: out) = source i out := by
  simp [source, h]

theorem source_append (i : ι) (out out' : List (α × ι)) :
    source i (out ++ out') = source i out ++ source i out' := by
  simp [source]

theorem mem_source {i : ι} {a : α} : a ∈ source i out ↔ (a, i) ∈ out := by
  simp [source]

theorem source_filter (p : α → Bool) (i : ι) (out : List (α × ι)) :
    source i (out.filter fun x => p x.1) = (source i out).filter p := by
  simp only [source, List.filter_filter, List.filter_map]
  congr 1
  apply List.filter_congr
  intro x _
  simp [Bool.and_comm]

theorem source_filterMap {β : Type} (f : α → Option β) (i : ι) (out : List (α × ι)) :
    source i (out.filterMap fun x => (f x.1).map fun b => (b, x.2)) =
      (source i out).filterMap f := by
  induction out with
  | nil => rfl
  | cons x out ih =>
      obtain ⟨a, j⟩ := x
      by_cases hij : j = i
      · subst hij
        rw [source_cons_self]
        cases hf : f a with
        | none => simp [hf, ih]
        | some b => simp [hf, ih]
      · rw [source_cons_ne hij]
        cases hf : f a with
        | none => simp [hf, ih]
        | some b => simp [hf, source_cons_ne hij, ih]

theorem flatMap_source_perm {order : List ι} (hnodup : order.Nodup) {out : List (α × ι)}
    (hcover : ∀ x ∈ out, x.2 ∈ order) :
    (order.flatMap fun i => (source i out).map fun a => (a, i)).Perm out := by
  have hsource : ∀ i (out : List (α × ι)), (source i out).map (fun a => (a, i)) =
      out.filter fun x => x.2 = i := by
    intro i out
    rw [source, List.map_map]
    refine (List.map_congr_left fun x hx => ?_).trans (List.map_id _)
    have hi : x.2 = i := by simpa using (List.mem_filter.mp hx).2
    exact Prod.ext rfl hi.symm
  simp only [hsource]
  induction order generalizing out with
  | nil =>
      have hnil : out = [] := List.eq_nil_iff_forall_not_mem.mpr fun x hx => by
        cases hcover x hx
      rw [hnil]
      exact .refl _
  | cons i order ih =>
      obtain ⟨hfresh, hrest⟩ := List.nodup_cons.mp hnodup
      -- the elements of the other sources
      let others := out.filter fun x => ¬x.2 = i
      have hothers : order.flatMap (fun j => out.filter fun x => x.2 = j) =
          order.flatMap fun j => others.filter fun x => x.2 = j := by
        refine List.flatMap_congr fun j hj => ?_
        rw [List.filter_filter]
        refine List.filter_congr fun x _ => ?_
        by_cases hx : x.2 = j
        · have hne : x.2 ≠ i := fun heq => hfresh (heq ▸ hx ▸ hj)
          simp [hx, hx ▸ hne]
        · simp [hx]
      have hperm : (order.flatMap fun j => others.filter fun x => x.2 = j).Perm others := by
        refine ih hrest fun x hx => ?_
        obtain ⟨hmem, hne⟩ := List.mem_filter.mp hx
        exact (List.mem_cons.mp (hcover x hmem)).resolve_left (by simpa using hne)
      rw [List.flatMap_cons, hothers]
      refine (hperm.append_left _).trans ?_
      simpa [others] using List.filter_append_perm (fun x : α × ι => decide (x.2 = i)) out

namespace Interleaves

theorem mem_iff (h : Interleaves files out) {a : α} {i : ι} :
    (a, i) ∈ out ↔ a ∈ files i := by
  rw [← h i, mem_source]

theorem cons {a : α} {i : ι} {rest : ι → List α} (hi : files i = a :: rest i)
    (hother : ∀ j, j ≠ i → files j = rest j) (h : Interleaves rest out) :
    Interleaves files ((a, i) :: out) := by
  intro j
  by_cases hj : j = i
  · subst hj
    rw [source_cons_self, h j, hi]
  · rw [source_cons_ne (Ne.symm hj), h j, hother j hj]

theorem filter (p : α → Bool) (h : Interleaves files out) :
    Interleaves (fun i => (files i).filter p) (out.filter fun x => p x.1) := by
  intro i
  rw [source_filter, h i]

theorem eq_single {i : ι} (h : Interleaves files out) (hi : ∀ j, j ≠ i → files j = []) :
    out.map Prod.fst = files i := by
  rw [← h i, source]
  congr 1
  rw [List.filter_eq_self.mpr]
  rintro ⟨a, j⟩ hmem
  by_contra hne
  have hj : j ≠ i := by simpa using hne
  have hnil : a ∈ files j := h.mem_iff.mp hmem
  simp [hi j hj] at hnil

/-- Restricted to a class met by one source alone, the interleaving is that
source restricted to the class. -/
theorem filter_eq_single (h : Interleaves files out) (p : α → Bool) {i : ι}
    (hi : ∀ j, j ≠ i → ∀ a ∈ files j, p a = false) :
    (out.map Prod.fst).filter p = (files i).filter p := by
  have hnil : ∀ j, j ≠ i → (files j).filter p = [] := by
    intro j hj
    rw [List.filter_eq_nil_iff]
    intro a ha
    simp [hi j hj a ha]
  rw [List.filter_map]
  exact (h.filter p).eq_single hnil

end Interleaves

/-! ## When the order is determined

Two elements of the class `p` with equal keys come from one source.  Then every
sorted interleaving restricted to the class is the same list. -/

section Determined

variable [LinearOrder κ]

/-- Elements of the class `p` with equal keys come from one source. -/
def Separated (key : α → κ) (p : α → Bool) (files : ι → List α) : Prop :=
  ∀ i j, i ≠ j → ∀ a ∈ files i, ∀ b ∈ files j, p a → p b → key a ≠ key b

variable {key : α → κ} {p : α → Bool}

theorem block_eq_source (h : Interleaves files out) (hsep : Separated key p files)
    {i : ι} {a : α} (ha : a ∈ files i) (hp : p a) :
    block key (key a) ((out.map Prod.fst).filter p) =
      block key (key a) ((files i).filter p) := by
  have hclass := h.filter_eq_single (fun b => p b && decide (key b = key a)) (i := i) (by
    intro j hj b hb
    by_contra hpb
    have hpb' : p b = true ∧ key b = key a := by simpa using hpb
    exact hsep i j (Ne.symm hj) a ha b hb hp hpb'.1 hpb'.2.symm)
  simp only [block, List.filter_filter]
  simpa only [Bool.and_comm] using hclass

/-- The order inside a separated class does not depend on the interleaving. -/
theorem filter_unique {ι' : Type} [DecidableEq ι'] {files' : ι' → List α}
    {out' : List (α × ι')} (h : Interleaves files out) (h' : Interleaves files' out')
    (hsub : ∀ i, ∃ i', files i = files' i') (hsup : ∀ i', ∃ i, files' i' = files i)
    (hsep : Separated key p files) (hsep' : Separated key p files')
    (hsort : SortedBy key (out.map Prod.fst))
    (hsort' : SortedBy key (out'.map Prod.fst)) :
    (out.map Prod.fst).filter p = (out'.map Prod.fst).filter p := by
  apply eq_of_block_eq (hsort.filter p) (hsort'.filter p)
  intro k
  by_cases hk : ∃ i, ∃ a ∈ files i, p a ∧ key a = k
  · obtain ⟨i, a, ha, hp, rfl⟩ := hk
    obtain ⟨i', hi'⟩ := hsub i
    rw [block_eq_source h hsep ha hp, hi', block_eq_source h' hsep' (hi' ▸ ha) hp]
  · have hnone : ∀ b, (∃ i, b ∈ files i) → p b → key b ≠ k :=
      fun b hb hp heq => hk ⟨hb.choose, b, hb.choose_spec, hp, heq⟩
    have hleft : block key k ((out.map Prod.fst).filter p) = [] := by
      rw [block, List.filter_eq_nil_iff]
      intro b hb
      obtain ⟨hmem, hp⟩ := List.mem_filter.mp hb
      obtain ⟨⟨b', i⟩, hbi, rfl⟩ := List.mem_map.mp hmem
      simpa using hnone b' ⟨i, h.mem_iff.mp hbi⟩ hp
    have hright : block key k ((out'.map Prod.fst).filter p) = [] := by
      rw [block, List.filter_eq_nil_iff]
      intro b hb
      obtain ⟨hmem, hp⟩ := List.mem_filter.mp hb
      obtain ⟨⟨b', i'⟩, hbi, rfl⟩ := List.mem_map.mp hmem
      obtain ⟨i, hi⟩ := hsup i'
      simpa using hnone b' ⟨i, hi ▸ h'.mem_iff.mp hbi⟩ hp
    rw [hleft, hright]

end Determined

/-! ## The last element of a class -/

section Last

variable {p : α → Bool} {l : List α}

/-- After `a` come only elements of other classes and elements that do not count. -/
def LastOf (key : α → κ) (p : α → Bool) (a : α) (post : List α) : Prop :=
  ∀ b ∈ post, key b = key a → p b = false

theorem find?_reverse_eq_some_iff {a : α} :
    l.reverse.find? p = some a ↔
      ∃ pre post, l = pre ++ a :: post ∧ p a = true ∧ ∀ b ∈ post, p b = false := by
  rw [List.find?_eq_some_iff_append]
  constructor
  · rintro ⟨ha, post, pre, hsplit, hpost⟩
    refine ⟨pre.reverse, post.reverse, ?_, ha, ?_⟩
    · rw [← List.reverse_reverse l, hsplit]
      simp
    · intro b hb
      simpa using hpost b (List.mem_reverse.mp hb)
  · rintro ⟨pre, post, rfl, ha, hpost⟩
    refine ⟨ha, post.reverse, pre.reverse, by simp, ?_⟩
    intro b hb
    simpa using hpost b (List.mem_reverse.mp hb)

theorem lastOf_congr {κ' : Type} {key : α → κ} {key' : α → κ'} {a : α} {post : List α}
    (h : ∀ b ∈ post, p b = true → (key b = key a ↔ key' b = key' a)) :
    LastOf key p a post ↔ LastOf key' p a post := by
  apply forall_congr'
  intro b
  apply forall_congr'
  intro hb
  cases hp : p b with
  | false => simp
  | true => simp [h b hb hp]

/-- Looking at the last element of every class is looking at every element that is the
last of its class. -/
theorem exists_find?_reverse_iff [DecidableEq κ] {key : α → κ} {r : α → Bool} :
    (∃ k a, l.reverse.find? (fun x => key x = k && p x) = some a ∧ r a = true) ↔
      ∃ pre a post, l = pre ++ a :: post ∧ (p a = true ∧ r a = true) ∧
        LastOf key p a post := by
  simp only [find?_reverse_eq_some_iff, Bool.and_eq_true, decide_eq_true_eq]
  constructor
  · rintro ⟨k, a, ⟨pre, post, hsplit, ⟨rfl, ha⟩, hpost⟩, hr⟩
    refine ⟨pre, a, post, hsplit, ⟨ha, hr⟩, ?_⟩
    intro b hb hkey
    simpa [hkey] using hpost b hb
  · rintro ⟨pre, a, post, hsplit, ⟨ha, hr⟩, hlast⟩
    refine ⟨key a, a, ⟨pre, post, hsplit, ⟨rfl, ha⟩, ?_⟩, hr⟩
    intro b hb
    by_cases hkey : key b = key a
    · simp [hlast b hb hkey]
    · simp [hkey]

end Last

/-! ## Sources given as a list -/

section ListOfSources

def nthSource (files : List (List α)) (i : Nat) : List α := files.getD i []

theorem nthSource_of_lt {files : List (List α)} {i : Nat} (h : i < files.length) :
    nthSource files i = files[i] := by
  simp [nthSource, h]

theorem nthSource_of_le {files : List (List α)} {i : Nat} (h : files.length ≤ i) :
    nthSource files i = [] := by
  simp [nthSource, h]

theorem filter_flatMap_eq_single {β : Type} {l : List β} {g : β → List α}
    {p : α → Bool} {i : Nat} (hi : i < l.length)
    (hother : ∀ j (hj : j < l.length), j ≠ i → ∀ a ∈ g l[j], p a = false) :
    (l.flatMap g).filter p = (g l[i]).filter p := by
  induction l generalizing i with
  | nil => simp at hi
  | cons b l ih =>
      rw [List.flatMap_cons, List.filter_append]
      cases i with
      | zero =>
          have hrest : (l.flatMap g).filter p = [] := by
            rw [List.filter_eq_nil_iff]
            intro a ha
            obtain ⟨b', hb', ha'⟩ := List.mem_flatMap.mp ha
            obtain ⟨j, hj, rfl⟩ := List.mem_iff_getElem.mp hb'
            simpa using hother (j + 1) (by simpa using hj) (by omega) a (by simpa using ha')
          simp [hrest]
      | succ i =>
          have hhead : (g b).filter p = [] := by
            rw [List.filter_eq_nil_iff]
            intro a ha
            simpa using hother 0 (by simp) (by omega) a (by simpa using ha)
          rw [hhead, List.nil_append]
          apply ih (by simpa using hi)
          intro j hj hne a ha
          exact hother (j + 1) (by simpa using hj) (by omega) a (by simpa using ha)

theorem Interleaves.perm_flatten {files : List (List α)} {out : List (α × Nat)}
    (h : Interleaves (nthSource files) out) :
    (out.map Prod.fst).Perm files.flatten := by
  induction files generalizing out with
  | nil =>
      have hnil : out = [] := by
        cases out with
        | nil => rfl
        | cons x out =>
            have hmem : x.1 ∈ nthSource ([] : List (List α)) x.2 :=
              h.mem_iff.mp (by simp)
            simp [nthSource] at hmem
      simp [hnil]
  | cons file files ih =>
      -- split off the elements of the first file, retag the others one lower
      let first := out.filter fun x => x.2 = 0
      let rest := (out.filter fun x => ¬x.2 = 0).map fun x => (x.1, x.2 - 1)
      have hfirst : first.map Prod.fst = file := h 0
      have hrest : Interleaves (nthSource files) rest := by
        intro i
        have hi := h (i + 1)
        rw [show nthSource (file :: files) (i + 1) = nthSource files i by
          simp [nthSource]] at hi
        rw [← hi]
        simp only [source, rest, List.filter_map, List.map_map, List.filter_filter]
        congr 1
        apply List.filter_congr
        intro x _
        by_cases hx : x.2 = 0
        · simp [hx]
        · simp [hx]
          omega
      have hsplit : (first ++ out.filter fun x => ¬x.2 = 0).Perm out := by
        simpa [first] using List.filter_append_perm (fun x => decide (x.2 = 0)) out
      have hmap : (out.filter fun x => ¬x.2 = 0).map Prod.fst = rest.map Prod.fst := by
        simp [rest, Function.comp_def]
      have hout : (out.map Prod.fst).Perm (file ++ rest.map Prod.fst) := by
        rw [← hmap, ← hfirst, ← List.map_append]
        exact (hsplit.map Prod.fst).symm
      exact hout.trans ((ih hrest).append_left file)

end ListOfSources

end TraCR.Lib.Interleaving
