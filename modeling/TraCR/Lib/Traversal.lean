import Mathlib.Algebra.Ring.Nat
import Mathlib.Data.List.Perm.Basic

/-!
# Traversals that may fail

`List.mapM` in `Except`: it succeeds exactly when every element does, and then
it computes element by element.
-/

namespace TraCR.Lib.Traversal

variable {α β ε : Type} {f : α → Except ε β}

theorem bind_ok_iff {x : Except ε α} {g : α → Except ε β} {b : β} :
    x >>= g = .ok b ↔ ∃ a, x = .ok a ∧ g a = .ok b := by
  cases x with
  | error e => simp [bind, Except.bind]
  | ok a => simp [bind, Except.bind]

@[simp] theorem pure_ok_iff {a b : α} :
    (pure a : Except ε α) = .ok b ↔ a = b := by
  simp [pure, Except.pure]

theorem mapM_ok_iff {xs : List α} {ys : List β} :
    xs.mapM f = .ok ys ↔ List.Forall₂ (fun x y => f x = .ok y) xs ys := by
  induction xs generalizing ys with
  | nil => cases ys <;> simp
  | cons x xs ih =>
      rw [List.mapM_cons, bind_ok_iff]
      constructor
      · rintro ⟨y, hy, hrest⟩
        obtain ⟨ys', hys', heq⟩ := bind_ok_iff.mp hrest
        rw [pure_ok_iff] at heq
        subst heq
        exact .cons hy (ih.mp hys')
      · intro h
        cases h with
        | cons hy hys =>
            exact ⟨_, hy, bind_ok_iff.mpr ⟨_, ih.mpr hys, rfl⟩⟩

theorem exists_mapM_ok_iff {xs : List α} :
    (∃ ys, xs.mapM f = .ok ys) ↔ ∀ x ∈ xs, ∃ y, f x = .ok y := by
  simp only [mapM_ok_iff]
  induction xs with
  | nil => simp
  | cons x xs ih =>
      rw [List.forall_mem_cons, ← ih]
      constructor
      · rintro ⟨ys, h⟩
        cases h with
        | cons hy hys => exact ⟨⟨_, hy⟩, _, hys⟩
      · rintro ⟨⟨y, hy⟩, ys, hys⟩
        exact ⟨y :: ys, .cons hy hys⟩

theorem mapM_append_ok_iff {xs xs' : List α} {zs : List β} :
    (xs ++ xs').mapM f = .ok zs ↔
      ∃ ys ys', xs.mapM f = .ok ys ∧ xs'.mapM f = .ok ys' ∧ zs = ys ++ ys' := by
  simp only [List.mapM_append, bind_ok_iff, pure_ok_iff]
  constructor
  · rintro ⟨ys, hys, ys', hys', rfl⟩
    exact ⟨ys, ys', hys, hys', rfl⟩
  · rintro ⟨ys, ys', hys, hys', rfl⟩
    exact ⟨ys, hys, ys', hys', rfl⟩

theorem length_mapM {xs : List α} {ys : List β} (h : xs.mapM f = .ok ys) :
    ys.length = xs.length :=
  (mapM_ok_iff.mp h).length_eq.symm

theorem forall₂_join {γ : Type} {P : α → β → Prop} {Q : α → γ → Prop} {S : β → γ → Prop}
    {xs : List α} {ys : List β} {zs : List γ} (hP : List.Forall₂ P xs ys)
    (hQ : List.Forall₂ Q xs zs) (hS : ∀ x y z, P x y → Q x z → S y z) :
    List.Forall₂ S ys zs := by
  induction hP generalizing zs with
  | nil =>
      cases hQ
      exact .nil
  | cons hxy _ ih =>
      cases hQ with
      | cons hxz hrest => exact .cons (hS _ _ _ hxy hxz) (ih hrest)

theorem exists_forall₂_join {γ : Type} {P : α → β → Prop} {Q : β → γ → Prop} {S : α → γ → Prop}
    {xs : List α} {ys : List β} (h : List.Forall₂ P xs ys)
    (hstep : ∀ x ∈ xs, ∀ y, P x y → ∃ z, Q y z ∧ S x z) :
    ∃ zs, List.Forall₂ Q ys zs ∧ List.Forall₂ S xs zs := by
  induction h with
  | nil => exact ⟨[], .nil, .nil⟩
  | @cons x y xs ys hxy _ ih =>
      obtain ⟨z, hyz, hxz⟩ := hstep x (by simp) y hxy
      obtain ⟨zs, hys, hxs⟩ := ih fun x' hx' => hstep x' (by simp [hx'])
      exact ⟨z :: zs, .cons hyz hys, .cons hxz hxs⟩

theorem exists_mem_left {P : α → β → Prop} {xs : List α} {ys : List β}
    (h : List.Forall₂ P xs ys) {y : β} (hy : y ∈ ys) : ∃ x ∈ xs, P x y := by
  induction h with
  | nil => cases hy
  | @cons x _ xs _ hxy _ ih =>
      rcases List.mem_cons.mp hy with rfl | hy
      · exact ⟨x, by simp, hxy⟩
      · obtain ⟨x', hx', hxy'⟩ := ih hy
        exact ⟨x', by simp [hx'], hxy'⟩

theorem exists_mem_right {P : α → β → Prop} {xs : List α} {ys : List β}
    (h : List.Forall₂ P xs ys) {x : α} (hx : x ∈ xs) : ∃ y ∈ ys, P x y :=
  exists_mem_left h.flip hx

theorem flatMap_perm_of_forall₂ {γ : Type} {f : α → List γ} {g : β → List γ} {xs : List α}
    {ys : List β} (h : List.Forall₂ (fun x y => (f x).Perm (g y)) xs ys) :
    (xs.flatMap f).Perm (ys.flatMap g) := by
  induction h with
  | nil => exact .refl _
  | cons hxy _ ih => exact hxy.append ih

theorem pairwise_of_forall₂ {P : α → β → Prop} {R : α → α → Prop} {S : β → β → Prop}
    {xs : List α} {ys : List β} (h : List.Forall₂ P xs ys) (hxs : xs.Pairwise R)
    (hS : ∀ x ∈ xs, ∀ x' ∈ xs, ∀ y y', R x x' → P x y → P x' y' → S y y') :
    ys.Pairwise S := by
  rw [List.forall₂_iff_get] at h
  obtain ⟨hlength, hget⟩ := h
  rw [List.pairwise_iff_getElem] at hxs ⊢
  intro i j hi hj hij
  have hi' : i < xs.length := hlength ▸ hi
  have hj' : j < xs.length := hlength ▸ hj
  exact hS _ (List.getElem_mem hi') _ (List.getElem_mem hj') _ _
    (hxs i j hi' hj' hij) (hget i hi' hi) (hget j hj' hj)

theorem mapM_eq_ok_map {g : α → β} {xs : List α} (h : ∀ x ∈ xs, f x = .ok (g x)) :
    xs.mapM f = .ok (xs.map g) := by
  rw [mapM_ok_iff, List.forall₂_map_right_iff, List.forall₂_same]
  exact h

/-- A traversal that shapes each result with its input. -/
theorem mapM_shape_ok_iff {γ : Type} {g : α → β → γ} {xs : List α} {zs : List γ} :
    xs.mapM (fun x => do let y ← f x; return g x y) = .ok zs ↔
      ∃ ys, xs.mapM f = .ok ys ∧ zs = (xs.zip ys).map fun x => g x.1 x.2 := by
  induction xs generalizing zs with
  | nil => simp [pure, Except.pure, eq_comm]
  | cons x xs ih =>
      simp only [List.mapM_cons, bind_ok_iff, pure_ok_iff, ih]
      constructor
      · rintro ⟨_, ⟨y, hy, rfl⟩, _, ⟨ys, hys, rfl⟩, rfl⟩
        exact ⟨y :: ys, ⟨y, hy, ys, hys, rfl⟩, rfl⟩
      · rintro ⟨_, ⟨y, hy, ys, hys, rfl⟩, rfl⟩
        exact ⟨_, ⟨y, hy, rfl⟩, _, ⟨ys, hys, rfl⟩, rfl⟩

theorem getElem?_flatMap {γ : Type} {g : α → List γ} {xs : List α} {i c : Nat}
    (hi : i < xs.length) (hc : c < (g xs[i]).length) :
    (xs.flatMap g)[((xs.take i).map fun x => (g x).length).sum + c]? = (g xs[i])[c]? := by
  induction xs generalizing i with
  | nil => simp at hi
  | cons x xs ih =>
      rw [List.flatMap_cons]
      cases i with
      | zero =>
          rw [List.getElem?_append_left (by simpa using hc)]
          simp
      | succ i =>
          have hrest := ih (i := i) (by simpa using hi) hc
          have hindex : ((List.take (i + 1) (x :: xs)).map fun x => (g x).length).sum + c =
              (g x).length + (((xs.take i).map fun x => (g x).length).sum + c) := by
            rw [List.take_succ_cons, List.map_cons, List.sum_cons]
            omega
          rw [hindex, List.getElem?_append_right (by omega), Nat.add_sub_cancel_left, hrest]
          rfl

theorem mapM_error_iff {xs : List α} {e : ε} :
    xs.mapM f = .error e ↔
      ∃ i, ∃ hi : i < xs.length, f xs[i] = .error e ∧
        ∀ j (_ : j < i), ∃ y, f xs[j] = .ok y := by
  induction xs with
  | nil => simp [pure, Except.pure]
  | cons x xs ih =>
      rw [List.mapM_cons]
      cases hx : f x with
      | error e' =>
          constructor
          · intro h
            obtain rfl : e' = e := by simpa [bind, Except.bind] using h
            exact ⟨0, by simp, hx, by simp⟩
          · rintro ⟨i, hi, hfail, hbefore⟩
            cases i with
            | zero =>
                obtain rfl : e' = e := by simpa [hx] using hfail
                rfl
            | succ i =>
                obtain ⟨y, hy⟩ := hbefore 0 (by omega)
                simp [hx] at hy
      | ok y =>
          have hrest : (Except.ok y >>= fun y => xs.mapM f >>= fun ys => pure (y :: ys)) =
              Except.error e ↔ xs.mapM f = .error e := by
            cases xs.mapM f <;> simp [bind, Except.bind, pure, Except.pure]
          rw [hrest, ih]
          constructor
          · rintro ⟨i, hi, hfail, hbefore⟩
            refine ⟨i + 1, by simpa using hi, by simpa using hfail, ?_⟩
            intro j hj
            cases j with
            | zero => exact ⟨y, hx⟩
            | succ j => simpa using hbefore j (by omega)
          · rintro ⟨i, hi, hfail, hbefore⟩
            cases i with
            | zero => simp [hx] at hfail
            | succ i =>
                refine ⟨i, by simpa using hi, by simpa using hfail, ?_⟩
                intro j hj
                simpa using hbefore (j + 1) (by omega)

theorem getElem_of_mapM_zipIdx {g : α × Nat → Except ε β} {xs : List α} {ys : List β}
    (h : xs.zipIdx.mapM g = .ok ys) {i : Nat} (hi : i < xs.length) (hi' : i < ys.length) :
    g (xs[i], i) = .ok ys[i] := by
  have hget := (List.forall₂_iff_get.mp (mapM_ok_iff.mp h)).2 i (by simpa using hi) hi'
  simpa using hget

theorem mapM_isPrefix {xs xs' : List α} {ys : List β} (h : xs.mapM f = .ok ys)
    (hxs : xs' <+: xs) : ∃ ys', xs'.mapM f = .ok ys' ∧ ys' <+: ys := by
  obtain ⟨rest, rfl⟩ := hxs
  obtain ⟨ys', ys'', hys', -, rfl⟩ := mapM_append_ok_iff.mp h
  exact ⟨ys', hys', List.prefix_append _ _⟩

theorem mapM_forall₂ {α' β' : Type} {R : α → α' → Prop} {S : β → β' → Prop}
    {f' : α' → Except ε β'}
    (hf : ∀ x x' y, R x x' → f x = .ok y → ∃ y', f' x' = .ok y' ∧ S y y')
    {xs : List α} {xs' : List α'} (hxs : List.Forall₂ R xs xs') {ys : List β}
    (h : xs.mapM f = .ok ys) : ∃ ys', xs'.mapM f' = .ok ys' ∧ List.Forall₂ S ys ys' := by
  rw [mapM_ok_iff] at h
  induction hxs generalizing ys with
  | nil =>
      cases h
      exact ⟨[], rfl, .nil⟩
  | @cons x x' xs xs' hxx' _ ih =>
      cases h with
      | @cons _ y _ ys hy hys =>
          obtain ⟨y', hy', hs⟩ := hf x x' y hxx' hy
          obtain ⟨ys', hys', hrest⟩ := ih hys
          exact ⟨y' :: ys', mapM_ok_iff.mpr (.cons hy' (mapM_ok_iff.mp hys')), .cons hs hrest⟩

theorem mapM_zipIdx_congr {α' : Type} {R : α → α' → Prop} {g : α × Nat → Except ε β}
    {g' : α' × Nat → Except ε β} (hg : ∀ x x' i, R x x' → g (x, i) = g' (x', i))
    {xs : List α} {xs' : List α'} (h : List.Forall₂ R xs xs') (k : Nat) :
    (xs.zipIdx k).mapM g = (xs'.zipIdx k).mapM g' := by
  induction h generalizing k with
  | nil => rfl
  | cons hxx' _ ih =>
      rw [List.zipIdx_cons, List.zipIdx_cons, List.mapM_cons, List.mapM_cons,
        hg _ _ k hxx', ih]

theorem mapM_filter_ok {p : α → Bool} {r : β → Bool} {xs : List α} {ys : List β}
    (h : xs.mapM f = .ok ys) (hp : ∀ x ∈ xs, ∀ y, f x = .ok y → p x = r y) :
    (xs.filter p).mapM f = .ok (ys.filter r) := by
  rw [mapM_ok_iff] at h ⊢
  induction h with
  | nil => exact .nil
  | @cons x y xs ys hxy _ ih =>
      have htail := ih fun a ha => hp a (by simp [ha])
      have hhead : p x = r y := hp x (by simp) y hxy
      rw [List.filter_cons, List.filter_cons, hhead]
      split
      · exact .cons hxy htail
      · exact htail

theorem mapM_filter_zip_ok {xs : List α} {ys : List β} (p : α → Bool)
    (h : xs.mapM f = .ok ys) :
    (xs.filter p).mapM f = .ok (((xs.zip ys).filter fun x => p x.1).map Prod.snd) := by
  rw [mapM_ok_iff] at h ⊢
  induction h with
  | nil => exact .nil
  | @cons x y xs ys hxy _ ih =>
      rw [List.zip_cons_cons, List.filter_cons, List.filter_cons]
      cases p x with
      | false => exact ih
      | true => exact .cons hxy ih

theorem mapM_perm {xs xs' : List α} {ys : List β} (h : xs.mapM f = .ok ys)
    (hperm : xs'.Perm xs) : ∃ ys', xs'.mapM f = .ok ys' ∧ ys'.Perm ys := by
  obtain ⟨ys', hys', hys⟩ := List.perm_comp_forall₂ hperm (mapM_ok_iff.mp h)
  exact ⟨ys', mapM_ok_iff.mpr hys', hys⟩

theorem exists_of_foldlM_error {σ : Type} {g : σ → α → Except ε σ} {xs : List α} {s : σ}
    {e : ε} (h : xs.foldlM g s = .error e) : ∃ s', ∃ x ∈ xs, g s' x = .error e := by
  induction xs generalizing s with
  | nil => cases h
  | cons x xs ih =>
      rw [List.foldlM_cons] at h
      cases hx : g s x with
      | error e' =>
          rw [hx] at h
          obtain rfl : e' = e := by simpa [bind, Except.bind] using h
          exact ⟨s, x, by simp, hx⟩
      | ok s' =>
          rw [hx] at h
          obtain ⟨s'', y, hy, hfail⟩ := ih h
          exact ⟨s'', y, by simp [hy], hfail⟩

/-- A loop whose failures do not depend on its state is a traversal followed by a
loop that cannot fail. -/
theorem foldlM_ok_iff {σ : Type} {g : σ → α → Except ε σ} {put : σ → α → β → σ}
    (hg : ∀ s x, g s x = (f x).map (put s x)) {xs : List α} {s t : σ} :
    xs.foldlM g s = .ok t ↔
      ∃ ys, xs.mapM f = .ok ys ∧
        t = (xs.zip ys).foldl (fun s x => put s x.1 x.2) s := by
  induction xs generalizing s with
  | nil => simp [pure, Except.pure, eq_comm]
  | cons x xs ih =>
      simp only [List.foldlM_cons, List.mapM_cons, bind_ok_iff, hg, pure_ok_iff, ih]
      constructor
      · rintro ⟨s', hs', ys, hys, rfl⟩
        cases hx : f x with
        | error e => simp [hx, Except.map] at hs'
        | ok y =>
            obtain rfl : put s x y = s' := by simpa [hx, Except.map] using hs'
            exact ⟨y :: ys, ⟨y, rfl, ys, hys, rfl⟩, rfl⟩
      · rintro ⟨ys', ⟨y, hy, ys, hys, rfl⟩, rfl⟩
        exact ⟨put s x y, by simp [hy, Except.map], ys, hys, rfl⟩

theorem exists_of_mem_mapM {xs : List α} {ys : List β} (h : xs.mapM f = .ok ys)
    {y : β} (hy : y ∈ ys) : ∃ x ∈ xs, f x = .ok y :=
  exists_mem_left (mapM_ok_iff.mp h) hy

/-! ## Two runs -/

/-- Both computations fail, or both succeed with related results. -/
def Agree {β' : Type} (S : β → β' → Prop) (x : Except ε β) (y : Except ε β') : Prop :=
  ((∃ b, x = .ok b) ↔ ∃ b', y = .ok b') ∧ ∀ b b', x = .ok b → y = .ok b' → S b b'

section Agree

variable {α' β' : Type} {R : α → α' → Prop} {S : β → β' → Prop}
  {g : α × Nat → Except ε β} {g' : α' × Nat → Except ε β'}

theorem agree_mapM_zipIdx (hg : ∀ x x' i, R x x' → Agree S (g (x, i)) (g' (x', i)))
    {xs : List α} {xs' : List α'} (h : List.Forall₂ R xs xs') (k : Nat) :
    Agree (List.Forall₂ S) ((xs.zipIdx k).mapM g) ((xs'.zipIdx k).mapM g') := by
  induction h generalizing k with
  | nil =>
      refine ⟨⟨fun _ => ⟨[], rfl⟩, fun _ => ⟨[], rfl⟩⟩, ?_⟩
      intro ys ys' hys hys'
      cases pure_ok_iff.mp hys
      cases pure_ok_iff.mp hys'
      exact .nil
  | @cons x x' xs xs' hx _ ih =>
      obtain ⟨hhead, hheads⟩ := hg x x' k hx
      obtain ⟨htail, htails⟩ := ih (k + 1)
      constructor
      · simp only [exists_mapM_ok_iff] at htail ⊢
        rw [List.zipIdx_cons, List.zipIdx_cons, List.forall_mem_cons, List.forall_mem_cons,
          hhead, htail]
      · intro ys ys' hys hys'
        simp only [List.zipIdx_cons, List.mapM_cons, bind_ok_iff, pure_ok_iff] at hys hys'
        obtain ⟨y, hy, rest, hrest, rfl⟩ := hys
        obtain ⟨y', hy', rest', hrest', rfl⟩ := hys'
        exact .cons (hheads y y' hy hy') (htails rest rest' hrest hrest')

theorem Agree.bind_pure {γ γ' : Type} {T : γ → γ' → Prop} {x : Except ε β}
    {y : Except ε β'} (h : Agree S x y) {k : β → γ} {k' : β' → γ'}
    (hk : ∀ b b', S b b' → T (k b) (k' b')) :
    Agree T (x >>= fun b => pure (k b)) (y >>= fun b' => pure (k' b')) := by
  obtain ⟨hok, hrel⟩ := h
  constructor
  · simp only [bind_ok_iff, pure_ok_iff]
    constructor
    · rintro ⟨_, b, hb, rfl⟩
      obtain ⟨b', hb'⟩ := hok.mp ⟨b, hb⟩
      exact ⟨_, b', hb', rfl⟩
    · rintro ⟨_, b', hb', rfl⟩
      obtain ⟨b, hb⟩ := hok.mpr ⟨b', hb'⟩
      exact ⟨_, b, hb, rfl⟩
  · intro c c' hc hc'
    obtain ⟨b, hb, hcb⟩ := bind_ok_iff.mp hc
    obtain ⟨b', hb', hcb'⟩ := bind_ok_iff.mp hc'
    rw [← pure_ok_iff.mp hcb, ← pure_ok_iff.mp hcb']
    exact hk b b' (hrel b b' hb hb')

end Agree

end TraCR.Lib.Traversal
