import Mathlib.Data.List.Basic

/-!
# Runs of a machine whose steps may stop

A step takes a state and an input and either stops the machine with a failure or
returns what the step lets an observer see together with the next state.  `exec`
runs a list of inputs.  The rules below turn a fact about one step into a fact
about a whole run, so that no later module repeats the induction.
-/

namespace TraCR.Lib.Run

variable {σ α β ε : Type}

/-- Run the inputs from left to right, collecting one observation per step. -/
def exec (step : σ → α → Except ε (β × σ)) : σ → List α → Except ε (List β × σ)
  | s, [] => .ok ([], s)
  | s, a :: as =>
      match step s a with
      | .error e => .error e
      | .ok (b, s') =>
          match exec step s' as with
          | .error e => .error e
          | .ok (bs, t) => .ok (b :: bs, t)

/-- `P` holds of every step the run takes, in the state it takes it from. -/
def Along (step : σ → α → Except ε (β × σ)) (P : σ → α → Prop) : σ → List α → Prop
  | _, [] => True
  | s, a :: as => P s a ∧ ∀ b s', step s a = .ok (b, s') → Along step P s' as

variable {step : σ → α → Except ε (β × σ)} {P : σ → α → Prop}

@[simp] theorem exec_nil (s : σ) : exec step s [] = .ok ([], s) := rfl

@[simp] theorem along_nil (s : σ) : Along step P s [] := trivial

theorem exec_cons_ok_iff {s t : σ} {a : α} {as : List α} {obs : List β} :
    exec step s (a :: as) = .ok (obs, t) ↔
      ∃ b s' bs, step s a = .ok (b, s') ∧ exec step s' as = .ok (bs, t) ∧
        obs = b :: bs := by
  constructor
  · intro h
    rw [exec] at h
    split at h
    · cases h
    next b s' hstep =>
      split at h
      · cases h
      next bs u hrest =>
        obtain ⟨rfl, rfl⟩ : b :: bs = obs ∧ u = t := by simpa using h
        exact ⟨b, s', bs, hstep, hrest, rfl⟩
  · rintro ⟨b, s', bs, hstep, hrest, rfl⟩
    simp [exec, hstep, hrest]

theorem exec_append_ok_iff {s t : σ} {as as' : List α} {obs : List β} :
    exec step s (as ++ as') = .ok (obs, t) ↔
      ∃ bs u bs', exec step s as = .ok (bs, u) ∧ exec step u as' = .ok (bs', t) ∧
        obs = bs ++ bs' := by
  induction as generalizing s obs with
  | nil =>
      constructor
      · intro h
        exact ⟨[], s, obs, rfl, by simpa using h, rfl⟩
      · rintro ⟨bs, u, bs', hnil, hrest, rfl⟩
        obtain ⟨rfl, rfl⟩ : [] = bs ∧ s = u := by simpa using hnil
        simpa using hrest
  | cons a as ih =>
      rw [List.cons_append, exec_cons_ok_iff]
      constructor
      · rintro ⟨b, s', obs', hstep, hrest, rfl⟩
        obtain ⟨bs, u, bs', has, has', rfl⟩ := ih.mp hrest
        exact ⟨b :: bs, u, bs', exec_cons_ok_iff.mpr ⟨b, s', bs, hstep, has, rfl⟩,
          has', rfl⟩
      · rintro ⟨bs, u, bs', has, has', rfl⟩
        obtain ⟨b, s', bs₀, hstep, has₀, rfl⟩ := exec_cons_ok_iff.mp has
        exact ⟨b, s', bs₀ ++ bs', hstep, ih.mpr ⟨bs₀, u, bs', has₀, has', rfl⟩, rfl⟩

theorem exec_singleton_ok_iff {s t : σ} {a : α} {obs : List β} :
    exec step s [a] = .ok (obs, t) ↔ ∃ b, step s a = .ok (b, t) ∧ obs = [b] := by
  rw [exec_cons_ok_iff]
  constructor
  · rintro ⟨b, s', bs, hstep, hnil, rfl⟩
    obtain ⟨rfl, rfl⟩ : [] = bs ∧ s' = t := by simpa using hnil
    exact ⟨b, hstep, rfl⟩
  · rintro ⟨b, hstep, rfl⟩
    exact ⟨b, t, [], hstep, rfl, rfl⟩

theorem exec_error_iff {s : σ} {as : List α} {e : ε} :
    exec step s as = .error e ↔
      ∃ pre a post obs t, as = pre ++ a :: post ∧ exec step s pre = .ok (obs, t) ∧
        step t a = .error e := by
  induction as generalizing s with
  | nil => simp
  | cons a as ih =>
      constructor
      · intro h
        rw [exec] at h
        split at h
        next e' hstep =>
          obtain rfl : e' = e := by simpa using h
          exact ⟨[], a, as, [], s, rfl, rfl, hstep⟩
        next b s' hstep =>
          split at h
          next e' hrest =>
            obtain rfl : e' = e := by simpa using h
            obtain ⟨pre, a', post, obs, t, rfl, hpre, hlast⟩ := ih.mp hrest
            exact ⟨a :: pre, a', post, b :: obs, t, rfl,
              exec_cons_ok_iff.mpr ⟨b, s', obs, hstep, hpre, rfl⟩, hlast⟩
          · cases h
      · rintro ⟨pre, a', post, obs, t, hsplit, hpre, hlast⟩
        cases pre with
        | nil =>
            obtain ⟨rfl, rfl⟩ := List.cons.inj hsplit
            obtain ⟨-, rfl⟩ : [] = obs ∧ s = t := by simpa using hpre
            simp [exec, hlast]
        | cons c pre =>
            obtain ⟨rfl, htail⟩ := List.cons.inj hsplit
            obtain ⟨b, s', bs, hstep, hrest, rfl⟩ := exec_cons_ok_iff.mp hpre
            have herror := ih.mpr ⟨pre, a', post, bs, t, htail, hrest, hlast⟩
            simp [exec, hstep, herror]

theorem exec_append_error_iff {s : σ} {as as' : List α} {e : ε} :
    exec step s (as ++ as') = .error e ↔
      exec step s as = .error e ∨
        ∃ obs t, exec step s as = .ok (obs, t) ∧ exec step t as' = .error e := by
  induction as generalizing s with
  | nil => simp
  | cons a as ih =>
      simp only [List.cons_append, exec]
      cases hstep : step s a with
      | error e' => simp
      | ok next =>
          obtain ⟨b, s'⟩ := next
          have hrest : ∀ rest, (match exec step s' rest with
              | .error e => .error e
              | .ok (bs, t) => .ok (b :: bs, t) : Except ε (List β × σ)) = .error e ↔
                exec step s' rest = .error e := by
            intro rest
            cases exec step s' rest <;> simp
          rw [hrest, hrest, ih]
          apply or_congr_right
          constructor
          · rintro ⟨obs, t, hrun, herror⟩
            exact ⟨b :: obs, t, by simp [hrun], herror⟩
          · rintro ⟨obs, t, hrun, herror⟩
            cases hrun' : exec step s' as with
            | error e' => simp [hrun'] at hrun
            | ok out =>
                obtain ⟨-, rfl⟩ : b :: out.1 = obs ∧ out.2 = t := by
                  simpa [hrun'] using hrun
                exact ⟨out.1, out.2, rfl, herror⟩

theorem exec_length {s t : σ} {as : List α} {obs : List β}
    (h : exec step s as = .ok (obs, t)) : obs.length = as.length := by
  induction as generalizing s obs with
  | nil =>
      obtain ⟨rfl, -⟩ : [] = obs ∧ s = t := by simpa using h
      rfl
  | cons a as ih =>
      obtain ⟨b, s', bs, -, hrest, rfl⟩ := exec_cons_ok_iff.mp h
      simp [ih hrest]

/-- The history rule.  `I s h` relates a state to the inputs and observations
that led to it; one step keeps it under the side condition `P`, hence a run does. -/
theorem exec_history {I : σ → List (α × β) → Prop}
    (hstep : ∀ s h a b s', I s h → P s a → step s a = .ok (b, s') →
      I s' (h ++ [(a, b)]))
    {s t : σ} {as : List α} {obs : List β} {h : List (α × β)}
    (hinit : I s h) (halong : Along step P s as)
    (hrun : exec step s as = .ok (obs, t)) : I t (h ++ as.zip obs) := by
  induction as generalizing s obs h with
  | nil =>
      obtain ⟨rfl, rfl⟩ : [] = obs ∧ s = t := by simpa using hrun
      simpa using hinit
  | cons a as ih =>
      obtain ⟨b, s', bs, hfirst, hrest, rfl⟩ := exec_cons_ok_iff.mp hrun
      have hnext : I s' (h ++ [(a, b)]) := hstep s h a b s' hinit halong.1 hfirst
      simpa using ih hnext (halong.2 b s' hfirst) hrest

theorem exec_inputs {I : σ → List α → Prop}
    (hstep : ∀ s h a b s', I s h → P s a → step s a = .ok (b, s') → I s' (h ++ [a]))
    {s t : σ} {as : List α} {obs : List β} {h : List α}
    (hinit : I s h) (halong : Along step P s as)
    (hrun : exec step s as = .ok (obs, t)) : I t (h ++ as) := by
  have hhistory := exec_history (I := fun s l => I s (h ++ l.map Prod.fst)) (h := [])
    (fun s l a b s' hI hP hnext => by simpa using hstep s _ a b s' hI hP hnext)
    (by simpa using hinit) halong hrun
  have hlength := exec_length hrun
  rwa [List.nil_append, List.map_fst_zip (by omega)] at hhistory

/-- The invariant rule: what every step keeps, a run keeps. -/
theorem exec_invariant {I : σ → Prop}
    (hstep : ∀ s a b s', I s → P s a → step s a = .ok (b, s') → I s')
    {s t : σ} {as : List α} {obs : List β} (hinit : I s)
    (halong : Along step P s as) (hrun : exec step s as = .ok (obs, t)) : I t :=
  exec_inputs (I := fun s _ => I s) (h := [])
    (fun s _ a b s' hI hP h => hstep s a b s' hI hP h) hinit halong hrun

theorem along_of_forall {Q : α → Prop} {s : σ} {as : List α} (h : ∀ a ∈ as, Q a) :
    Along step (fun _ a => Q a) s as := by
  induction as generalizing s with
  | nil => trivial
  | cons a as ih =>
      exact ⟨h a (by simp), fun _ _ _ => ih fun a' ha' => h a' (by simp [ha'])⟩

theorem along_of_exec (hstep : ∀ s a b s', step s a = .ok (b, s') → P s a) {s t : σ}
    {as : List α} {obs : List β} (h : exec step s as = .ok (obs, t)) : Along step P s as := by
  induction as generalizing s obs with
  | nil => trivial
  | cons a as ih =>
      obtain ⟨b, s', bs, hfirst, hrest, -⟩ := exec_cons_ok_iff.mp h
      refine ⟨hstep s a b s' hfirst, ?_⟩
      intro b' s'' hfirst'
      obtain ⟨-, rfl⟩ := Prod.mk.inj (Except.ok.inj (hfirst.symm.trans hfirst'))
      exact ih hrest

theorem along_and {Q : σ → α → Prop} {s : σ} {as : List α}
    (hP : Along step P s as) (hQ : Along step Q s as) :
    Along step (fun s a => P s a ∧ Q s a) s as := by
  induction as generalizing s with
  | nil => trivial
  | cons a as ih =>
      exact ⟨⟨hP.1, hQ.1⟩, fun b s' h => ih (hP.2 b s' h) (hQ.2 b s' h)⟩

theorem along_cons_iff {s s' : σ} {a : α} {as : List α} {b : β}
    (h : step s a = .ok (b, s')) : Along step P s (a :: as) ↔ P s a ∧ Along step P s' as := by
  rw [Along]
  apply and_congr_right
  intro _
  constructor
  · exact fun hrest => hrest b s' h
  · intro hrest b' s'' h'
    obtain ⟨-, rfl⟩ := Prod.mk.inj (Except.ok.inj (h.symm.trans h'))
    exact hrest

theorem along_append_iff {s t : σ} {as as' : List α} {obs : List β}
    (h : exec step s as = .ok (obs, t)) :
    Along step P s (as ++ as') ↔ Along step P s as ∧ Along step P t as' := by
  induction as generalizing s obs with
  | nil =>
      obtain ⟨-, rfl⟩ : [] = obs ∧ s = t := by simpa using h
      simp
  | cons a as ih =>
      obtain ⟨b, s', bs, hstep, hrest, -⟩ := exec_cons_ok_iff.mp h
      rw [List.cons_append, along_cons_iff hstep, along_cons_iff hstep, ih hrest, and_assoc]

theorem exec_cons_of_ok {s s' : σ} {a : α} {b : β} (h : step s a = .ok (b, s'))
    (as : List α) :
    exec step s (a :: as) = (exec step s' as).map fun out => (b :: out.1, out.2) := by
  simp only [exec, h]
  cases exec step s' as <;> rfl

/-- The skip rule: inputs that leave the state alone and show nothing of interest can be
left out, whether or not the run stops. -/
theorem exec_filter {γ : Type} (view : β → List γ) {keep : α → Bool} {as : List α}
    (hskip : ∀ s, ∀ a ∈ as, keep a = false → ∃ b, step s a = .ok (b, s) ∧ view b = [])
    (s : σ) :
    (exec step s (as.filter keep)).map (fun out => (out.1.flatMap view, out.2)) =
      (exec step s as).map fun out => (out.1.flatMap view, out.2) := by
  induction as generalizing s with
  | nil => rfl
  | cons a as ih =>
      have hrest := ih fun s b hb => hskip s b (List.mem_cons_of_mem a hb)
      cases hkeep : keep a with
      | false =>
          obtain ⟨b, hstep, hview⟩ := hskip s a (by simp) hkeep
          rw [List.filter_cons_of_neg (by simp [hkeep]), hrest s, exec_cons_of_ok hstep]
          cases exec step s as <;> simp [Except.map, hview]
      | true =>
          rw [List.filter_cons_of_pos hkeep]
          cases hstep : step s a with
          | error e => rw [exec, exec, hstep]
          | ok next =>
              have hview : ∀ bs, ((exec step next.2 bs).map fun out =>
                    (next.1 :: out.1, out.2)).map (fun out => (out.1.flatMap view, out.2)) =
                  ((exec step next.2 bs).map fun out => (out.1.flatMap view, out.2)).map
                    fun out => (view next.1 ++ out.1, out.2) := by
                intro bs
                cases exec step next.2 bs <;> simp [Except.map]
              rw [exec_cons_of_ok hstep, exec_cons_of_ok hstep, hview, hview, hrest]

/-! ## Two machines in step -/

section Simulation

variable {τ : Type} {step' : τ → α → Except ε (β × τ)}

/-- Both machines stop with the same failure, or both show the same and are left in
states that correspond. -/
inductive Outcomes (R : σ → τ → Prop) : Except ε (β × σ) → Except ε (β × τ) → Prop where
  | ok {b : β} {s : σ} {t : τ} : R s t → Outcomes R (.ok (b, s)) (.ok (b, t))
  | error {e : ε} : Outcomes R (.error e) (.error e)

variable {R : σ → τ → Prop}

theorem Outcomes.imp {R' : σ → τ → Prop} (himp : ∀ s t, R s t → R' s t)
    {x : Except ε (β × σ)} {y : Except ε (β × τ)} (h : Outcomes R x y) : Outcomes R' x y := by
  cases h with
  | ok hst => exact .ok (himp _ _ hst)
  | error => exact .error

theorem Outcomes.map {γ : Type} (f : β → γ) {x : Except ε (β × σ)} {y : Except ε (β × τ)}
    (h : Outcomes R x y) :
    Outcomes R (x.map (Prod.map f id)) (y.map (Prod.map f id)) := by
  cases h with
  | ok hst => exact .ok hst
  | error => exact .error

/-- The lockstep rule: where one step of the first machine is matched by one of the second,
unless it stops with a failure that is excused, the same holds of runs. -/
theorem exec_outcomes {excused : ε → Prop}
    (hstep : ∀ s t a, R s t →
      Outcomes R (step s a) (step' t a) ∨ ∃ e, excused e ∧ step s a = .error e)
    {s : σ} {t : τ} (hst : R s t) (as : List α) :
    Outcomes R (exec step s as) (exec step' t as) ∨
      ∃ e, excused e ∧ exec step s as = .error e := by
  induction as generalizing s t with
  | nil => exact .inl (.ok hst)
  | cons a as ih =>
      rcases hstep s t a hst with hnext | ⟨e, hexcused, herror⟩
      · cases hfirst : step s a with
        | error e =>
            rw [hfirst] at hnext
            generalize hother : step' t a = other at hnext
            cases hnext
            exact .inl (by simpa [exec, hfirst, hother] using Outcomes.error)
        | ok next =>
            obtain ⟨b, s'⟩ := next
            rw [hfirst] at hnext
            generalize hother : step' t a = other at hnext
            cases hnext with
            | ok hst' =>
                rw [exec_cons_of_ok hfirst, exec_cons_of_ok hother]
                rcases ih hst' with hrest | ⟨e, hexcused, herror⟩
                · exact .inl (hrest.map (b :: ·))
                · exact .inr ⟨e, hexcused, by rw [herror]; rfl⟩
      · exact .inr ⟨e, hexcused, by simp [exec, herror]⟩

end Simulation

/-! ## What a run keeps in balance

A step takes in some items, holds what it held before, and loses some. -/

section Balance

variable {γ : Type} (lost : σ → α → List γ)

def lostAlong (step : σ → α → Except ε (β × σ)) : σ → List α → List γ
  | _, [] => []
  | s, a :: as =>
      lost s a ++
        match step s a with
        | .error _ => []
        | .ok (_, s') => lostAlong step s' as

variable {lost}

theorem lostAlong_eq_nil_iff {s : σ} {as : List α} :
    lostAlong lost step s as = [] ↔ Along step (fun s a => lost s a = []) s as := by
  induction as generalizing s with
  | nil => simp [lostAlong]
  | cons a as ih =>
      rw [lostAlong, List.append_eq_nil_iff, Along]
      apply and_congr_right
      intro _
      cases hstep : step s a with
      | error e => simp
      | ok next =>
          obtain ⟨b, s'⟩ := next
          simp [ih]

/-- The balance rule: what every step keeps in balance, a run keeps in balance. -/
theorem exec_balance {I : σ → Prop} {taken : α × β → List γ} {held : σ → List γ}
    (hstep : ∀ s a b s', I s → P s a → step s a = .ok (b, s') →
      I s' ∧ (taken (a, b) ++ held s).Perm (held s' ++ lost s a))
    {s t : σ} {as : List α} {obs : List β} (hinit : I s) (halong : Along step P s as)
    (hrun : exec step s as = .ok (obs, t)) :
    I t ∧ ((as.zip obs).flatMap taken ++ held s).Perm (held t ++ lostAlong lost step s as) := by
  induction as generalizing s obs with
  | nil =>
      obtain ⟨rfl, rfl⟩ : [] = obs ∧ s = t := by simpa using hrun
      exact ⟨hinit, by simp [lostAlong]⟩
  | cons a as ih =>
      obtain ⟨b, s', bs, hfirst, hrest, rfl⟩ := exec_cons_ok_iff.mp hrun
      obtain ⟨hnext, hbalance⟩ := hstep s a b s' hinit halong.1 hfirst
      obtain ⟨hlast, hlater⟩ := ih hnext (halong.2 b s' hfirst) hrest
      refine ⟨hlast, ?_⟩
      have hlost : lostAlong lost step s (a :: as) =
          lost s a ++ lostAlong lost step s' as := by
        rw [lostAlong, hfirst]
      rw [hlost, List.zip_cons_cons, List.flatMap_cons]
      have hfront : (taken (a, b) ++ (as.zip bs).flatMap taken ++ held s).Perm
          ((as.zip bs).flatMap taken ++ (held s' ++ lost s a)) := by
        rw [List.append_assoc]
        exact (List.perm_append_comm_assoc _ _ _).trans (hbalance.append_left _)
      have hback : ((as.zip bs).flatMap taken ++ held s' ++ lost s a).Perm
          (held t ++ (lost s a ++ lostAlong lost step s' as)) := by
        refine (hlater.append_right _).trans ?_
        rw [List.append_assoc]
        exact List.perm_append_comm.append_left _
      rw [List.append_assoc] at hback
      exact hfront.trans hback

end Balance

end TraCR.Lib.Run
