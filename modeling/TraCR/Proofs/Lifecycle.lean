import Mathlib.Data.List.DropRight
import TraCR.Lib.Contents
import TraCR.Core.Effects

/-!
# Threads and the proc over whole runs

The counter and the flag follow the buffers and the proc through every interleaving, and
a successful END leaves no buffer behind.  THREAD_FINALIZE reads the proc without a test,
which goes wrong for a thread that begins and ends between an END and the next START.
-/

namespace TraCR

open TraCR.Lib.Run TraCR.Lib.Contents

variable {b : Build} {pf : Platform}

structure Unstarted (w : World b) : Prop where
  proc : w.tracrProc = none
  threads : w.tracrThread = ∅
  count : w.numTracrThreads = 0
  init : w.tracrProcInit = false

theorem unstarted_initial (b : Build) : Unstarted (World.initial b) := ⟨rfl, rfl, rfl, rfl⟩

/-! ## The counter and the flag -/

/-- The counter counts the live buffers and the flag tells whether the proc is live. -/
structure Accounted (w : World b) : Prop where
  threads : w.numTracrThreads = w.tracrThread.entries.length
  proc : w.tracrProcInit = w.tracrProc.isSome

theorem Unstarted.accounted {w : World b} (h : Unstarted w) : Accounted w := by
  constructor
  · rw [h.count, h.threads]
    rfl
  · rw [h.init, h.proc]
    rfl

section Step

variable {w w' : World b} {a : Action} {o : Obs}

theorem Accounted.step (h : Accounted w) (hstep : TraCR.step pf w a = .ok (o, w')) :
    Accounted w' := by
  have hopen : ∀ th : TraCRThread b, w.tracrThread.lookup a.thread = none →
      w.numTracrThreads + 1 = ((w.tracrThread.insert a.thread th).entries.length : Int) := by
    intro th hthread
    rw [AList.entries_insert_of_notMem (AList.lookup_eq_none.mp hthread), h.threads]
    simp
  have hclose : ∀ th : TraCRThread b, w.tracrThread.lookup a.thread = some th →
      w.numTracrThreads - 1 = ((w.tracrThread.erase a.thread).entries.length : Int) := by
    intro th hthread
    have hlength := length_entries_of_lookup hthread
    have := h.threads
    omega
  cases effect_of_step hstep with
  | start _ _ hthread => exact ⟨hopen _ hthread, rfl⟩
  | threadInit _ hthread => exact ⟨hopen _ hthread, h.proc⟩
  | threadFinalize _ hthread => exact ⟨hclose _ hthread, h.proc⟩
  | stop _ _ hthread hflush =>
      obtain ⟨disk, reads, rfl⟩ := exists_of_flushProc hflush
      exact ⟨hclose _ hthread, rfl⟩
  | store _ _ hthread =>
      refine ⟨?_, h.proc⟩
      rw [length_entries_insert_of_lookup hthread]
      exact h.threads
  | register _ hproc | update _ hproc | snapshot _ hproc =>
      refine ⟨h.threads, ?_⟩
      rw [h.proc, hproc]
      rfl
  | untraced | on | off | tracePath => exact ⟨h.threads, h.proc⟩

/-! ## Live buffers -/

def Live (w : World b) (t : OsThread) : Prop := (w.tracrThread.lookup t).isSome

/-- A buffer stays live until its thread flushes it. -/
theorem Live.step {t : OsThread} (h : Live w t)
    (hkeep : ¬ (a.thread = t ∧ a.call.flushes = true)) (hstep : TraCR.step pf w a = .ok (o, w')) :
    Live w' t := by
  unfold Live at h ⊢
  have hinsert : ∀ th : TraCRThread b, ((w.tracrThread.insert a.thread th).lookup t).isSome := by
    intro th
    by_cases ht : t = a.thread
    · rw [ht, AList.lookup_insert]
      rfl
    · rw [AList.lookup_insert_ne ht]
      exact h
  have herase : a.call.flushes = true → ((w.tracrThread.erase a.thread).lookup t).isSome := by
    intro hflushes
    have ht : t ≠ a.thread := fun heq => hkeep ⟨heq.symm, hflushes⟩
    rw [AList.lookup_erase_ne ht]
    exact h
  cases effect_of_step hstep with
  | start | threadInit | store => exact hinsert _
  | threadFinalize hcall => exact herase (hcall ▸ rfl)
  | stop hcall _ _ hflush =>
      obtain ⟨disk, reads, rfl⟩ := exists_of_flushProc hflush
      exact herase (hcall ▸ rfl)
  | register | update | snapshot | untraced | on | off | tracePath => exact h

theorem not_live_of_stop (hflush : b.disableFlush = false) (h : Accounted w)
    (hstop : a.call = .stop) (hstep : step pf w a = .ok (o, w')) (t : OsThread) :
    ¬ Live w' t := by
  obtain ⟨-, proc, th, w₁, -, hthread, hwrite, rfl⟩ := stop_of_step hstop hstep
  obtain ⟨hone, disk, dir, reads, -, -, rfl⟩ := flushProc_ok hflush hwrite
  have hlength := length_entries_of_lookup hthread
  have hcount := h.threads
  have hnone : (w.tracrThread.erase a.thread).entries = [] :=
    List.length_eq_zero_iff.mp (by omega)
  have hempty : w.tracrThread.erase a.thread = ∅ := AList.ext hnone
  unfold Live
  show ¬ ((w.tracrThread.erase a.thread).lookup t).isSome = true
  rw [hempty]
  simp

end Step

/-! ## Buffers over a run -/

def Call.isLifecycle : Call → Bool
  | .start | .stop | .threadInit | .threadFinalize => true
  | _ => false

theorem others_of_isLifecycle {c : Call} (h : c.isLifecycle = true) :
    c.label? = none ∧ c.record? = none ∧ c.update? = none := by
  cases c <;> first | exact ⟨rfl, rfl, rfl⟩ | cases h

theorem TraCRThread.flushTraces_error {th : TraCRThread b} {disk : Disk} {path : ProcPath}
    {fault : Fault} {e : Stop} (h : th.flushTraces disk path fault = .error e) :
    ∃ reason, e = .exit reason := by
  unfold TraCRThread.flushTraces at h
  split at h
  · cases h
  · simp only at h
    split at h
    · exact ⟨_, (Except.error.inj h).symm⟩
    · cases fault with
      | none | openMetadata => cases h
      | mkdir | openTraces | writeTraces _ | closeTraces _ => exact ⟨_, (Except.error.inj h).symm⟩

theorem TraCRProc.dumpJSON_error {proc : TraCRProc} {clock : Nat → UInt64} {reads : Nat}
    {disk : Disk} {fault : Fault} {e : Stop}
    (h : proc.dumpJSON clock reads disk fault = .error e) : ∃ reason, e = .exit reason := by
  unfold TraCRProc.dumpJSON at h
  simp only at h
  split at h
  · exact ⟨_, (Except.error.inj h).symm⟩
  · split at h
    · exact ⟨_, (Except.error.inj h).symm⟩
    · cases h

section Errors

variable {w : World b} {t : OsThread} {fault : Fault} {e : Stop}

theorem instrumentationThreadInit_error (h : w.instrumentationThreadInit pf t = .error e) :
    ∃ reason, e = .exit reason := by
  unfold World.instrumentationThreadInit at h
  split at h
  · exact ⟨_, (Except.error.inj h).symm⟩
  · cases h

theorem instrumentationStart_error (h : w.instrumentationStart pf t fault = .error e) :
    ∃ reason, e = .exit reason := by
  unfold World.instrumentationStart at h
  split at h
  · exact ⟨_, (Except.error.inj h).symm⟩
  · simp only at h
    split at h
    next e' hfolders =>
      obtain rfl := Except.error.inj h
      unfold World.createFolders at hfolders
      split at hfolders
      · cases hfolders
      · split at hfolders
        · exact ⟨_, (Except.error.inj hfolders).symm⟩
        · cases hfolders
    · split at h
      next e' hinit =>
        obtain rfl := Except.error.inj h
        exact instrumentationThreadInit_error hinit
      · cases h

theorem instrumentationEnd_error (h : w.instrumentationEnd pf t fault = .error e) :
    ∃ reason, e = .exit reason := by
  unfold World.instrumentationEnd at h
  split at h
  · exact ⟨_, (Except.error.inj h).symm⟩
  · split at h
    · exact ⟨_, (Except.error.inj h).symm⟩
    · split at h
      next e' hwrite =>
        obtain rfl := Except.error.inj h
        unfold World.flushProc at hwrite
        split at hwrite
        · cases hwrite
        · split at hwrite
          · exact ⟨_, (Except.error.inj hwrite).symm⟩
          · split at hwrite
            next e' hflush =>
              obtain rfl := Except.error.inj hwrite
              exact TraCRThread.flushTraces_error hflush
            · split at hwrite
              next e' hdump =>
                obtain rfl := Except.error.inj hwrite
                exact TraCRProc.dumpJSON_error hdump
              · cases hwrite
      · cases h

/-- The one call that does not test what it reads. -/
theorem instrumentationThreadFinalize_error
    (h : w.instrumentationThreadFinalize t fault = .error e) :
    (∃ reason, e = .exit reason) ∨ (Live w t ∧ w.tracrProc = none) := by
  unfold World.instrumentationThreadFinalize at h
  split at h
  · exact .inl ⟨_, (Except.error.inj h).symm⟩
  next th hthread =>
    split at h
    next e' hflush =>
      obtain rfl := Except.error.inj h
      unfold World.flushThread at hflush
      split at hflush
      · cases hflush
      · split at hflush
        next hproc =>
          exact .inr ⟨by rw [Live, hthread]; rfl, hproc⟩
        · exact .inl (TraCRThread.flushTraces_error hflush)
    · cases h

theorem map_error_iff {α β : Type} {f : α → β} {x : Except Stop α} :
    x.map f = .error e ↔ x = .error e := by
  cases x <;> simp [Except.map]

theorem exit_or_of_step {a : Action} (hlife : a.call.isLifecycle = true)
    (h : step pf w a = .error e) :
    (∃ reason, e = .exit reason) ∨
      (a.call = .threadFinalize ∧ Live w a.thread ∧ w.tracrProc = none) := by
  unfold step at h
  cases hcall : a.call <;> rw [hcall] at hlife h <;> try cases hlife
  case start => exact .inl (instrumentationStart_error (map_error_iff.mp h))
  case stop => exact .inl (instrumentationEnd_error (map_error_iff.mp h))
  case threadInit => exact .inl (instrumentationThreadInit_error (map_error_iff.mp h))
  case threadFinalize =>
    exact (instrumentationThreadFinalize_error (map_error_iff.mp h)).imp_right
      fun hlate => ⟨rfl, hlate⟩

theorem nullProc_of_finalize (hflush : b.disableFlush = false) {a : Action}
    (hcall : a.call = .threadFinalize) (hlive : Live w a.thread) (hproc : w.tracrProc = none) :
    step pf w a = .error .nullProc := by
  obtain ⟨th, hthread⟩ := Option.isSome_iff_exists.mp hlive
  unfold step
  rw [hcall]
  apply map_error_iff.mpr
  unfold World.instrumentationThreadFinalize World.flushThread
  simp only [hthread, hflush, hproc, Bool.false_eq_true, if_false]

end Errors

/-! ## Between an END and the next START -/

def sinceEnd (actions : List Action) : List Action :=
  actions.rtakeWhile fun a => !a.call.isStop

/-- The thread has begun after the last END, and ends before a START has followed. -/
def FinalizesLate (done : List Action) (a : Action) : Prop :=
  a.call = .threadFinalize ∧ (∀ c ∈ sinceEnd done, c.call ≠ .start) ∧
    ∃ c ∈ sinceEnd done, c.call = .threadInit ∧ c.thread = a.thread

/-- The proc is live after a START, and without a proc the live threads are those that
have begun since the last END. -/
structure Phase (w : World b) (done : List Action) : Prop where
  accounted : Accounted w
  proc : w.tracrProc = none ↔ ∀ c ∈ sinceEnd done, c.call ≠ .start
  threads : w.tracrProc = none → ∀ t, Live w t ↔
    ∃ c ∈ sinceEnd done, c.call = .threadInit ∧ c.thread = t

theorem Unstarted.phase {w : World b} (h : Unstarted w) : Phase w [] := by
  refine ⟨h.accounted, iff_of_true h.proc (fun _ hc => nomatch hc), ?_⟩
  intro _ t
  unfold Live
  rw [h.threads]
  simp [sinceEnd]

theorem Phase.step (hflush : b.disableFlush = false) {w w' : World b} {done : List Action}
    {a : Action} {o : Obs} (h : Phase w done) (hlife : a.call.isLifecycle = true)
    (hstep : TraCR.step pf w a = .ok (o, w')) : Phase w' (done ++ [a]) := by
  have haccounted := h.accounted.step hstep
  by_cases hstop : a.call = .stop
  · have hnew : sinceEnd (done ++ [a]) = [] :=
      List.rtakeWhile_concat_neg _ _ _ (by simp [hstop, Call.isStop])
    obtain ⟨-, proc, th, w₁, -, -, -, hw'⟩ := stop_of_step hstop hstep
    refine ⟨haccounted, ?_, ?_⟩ <;> rw [hnew]
    · exact iff_of_true (by rw [hw']) (fun _ hc => nomatch hc)
    · intro _ t
      exact iff_of_false (not_live_of_stop hflush h.accounted hstop hstep t) (by simp)
  · have hnew : sinceEnd (done ++ [a]) = sinceEnd done ++ [a] := by
      apply List.rtakeWhile_concat_pos
      cases hcall : a.call <;> first | rfl | exact absurd hcall hstop
    cases effect_of_step hstep with
    | start hcall =>
        have hstarted : ¬ ∀ c ∈ sinceEnd (done ++ [a]), c.call ≠ .start := by
          intro hnone
          exact hnone a (by rw [hnew]; simp) hcall
        exact ⟨haccounted, iff_of_false (by simp) hstarted, by simp⟩
    | threadInit hcall hthread =>
        have hproc : w.tracrProc = none ↔ ∀ c ∈ sinceEnd (done ++ [a]), c.call ≠ .start := by
          rw [hnew, List.forall_mem_append, h.proc]
          simp [hcall]
        refine ⟨haccounted, hproc, ?_⟩
        intro hnone t
        rw [hnew]
        simp only [List.mem_append, List.mem_singleton, or_and_right, exists_or, exists_eq_left,
          hcall, true_and]
        rw [← h.threads hnone t]
        unfold Live
        by_cases ht : t = a.thread
        · rw [ht, AList.lookup_insert]
          simp
        · rw [AList.lookup_insert_ne ht]
          simp [Ne.symm ht]
    | threadFinalize hcall _ hflushed =>
        obtain ⟨proc, hproc, -⟩ := flushThread_ok hflush hflushed
        have hsame : w.tracrProc = none ↔ ∀ c ∈ sinceEnd (done ++ [a]), c.call ≠ .start := by
          rw [hnew, List.forall_mem_append, h.proc]
          simp [hcall]
        refine ⟨haccounted, hsame, ?_⟩
        intro hnone
        cases hproc.symm.trans hnone
    | stop hcall => exact absurd hcall hstop
    | snapshot hcall | on hcall | off hcall | tracePath hcall =>
        rw [hcall] at hlife
        cases hlife
    | register hcall => cases (others_of_isLifecycle hlife).1.symm.trans hcall.others.1
    | untraced hcall | store hcall => cases (others_of_isLifecycle hlife).2.1.symm.trans hcall
    | update hcall => cases (others_of_isLifecycle hlife).2.2.symm.trans hcall

theorem phase_of_run (hflush : b.disableFlush = false) {w₀ w : World b} (hstart : Unstarted w₀)
    {actions : List Action} (hlife : ∀ a ∈ actions, a.call.isLifecycle = true) {obs : List Obs}
    (hrun : run pf w₀ actions = .ok (obs, w)) : Phase w actions := by
  have hstep : ∀ (w : World b) h a o w', Phase w h → a.call.isLifecycle = true →
      step pf w a = .ok (o, w') → Phase w' (h ++ [a]) :=
    fun _ _ _ _ _ hphase hcall hnext => hphase.step hflush hcall hnext
  exact exec_inputs hstep hstart.phase (along_of_forall hlife) hrun

/-- Calls that open and close sessions, by any threads in any order, end the program by
a checked exit or not at all, if and only if no thread begins and then finalises between
an END and the next START. -/
theorem checked_iff (hflush : b.disableFlush = false) {w₀ : World b} (hstart : Unstarted w₀)
    {actions : List Action} (hlife : ∀ a ∈ actions, a.call.isLifecycle = true) :
    (∀ e, run pf w₀ actions = .error e → ∃ reason, e = .exit reason) ↔
      ¬ ∃ done a rest obs w, actions = done ++ a :: rest ∧
        run pf w₀ done = .ok (obs, w) ∧ FinalizesLate done a := by
  constructor
  · rintro hchecked ⟨done, a, rest, obs, w, rfl, hdone, hcall, hnone, hbegun⟩
    have hphase := phase_of_run hflush hstart (fun c hc => hlife c (by simp [hc])) hdone
    have hproc : w.tracrProc = none := hphase.proc.mpr hnone
    have hlive : Live w a.thread := (hphase.threads hproc a.thread).mpr hbegun
    have herror : step pf w a = .error .nullProc :=
      nullProc_of_finalize hflush hcall hlive hproc
    obtain ⟨reason, hreason⟩ := hchecked .nullProc
      (exec_error_iff.mpr ⟨done, a, rest, obs, w, rfl, hdone, herror⟩)
    cases hreason
  · intro hno e herror
    obtain ⟨done, a, rest, obs, w, rfl, hdone, herror⟩ := exec_error_iff.mp herror
    rcases exit_or_of_step (hlife a (by simp)) herror with hexit | ⟨hcall, hlive, hproc⟩
    · exact hexit
    · have hphase := phase_of_run hflush hstart (fun c hc => hlife c (by simp [hc])) hdone
      exact absurd ⟨done, a, rest, obs, w, rfl, hdone, hcall, hphase.proc.mp hproc,
        (hphase.threads hproc a.thread).mp hlive⟩ hno

def lateBegin : List Action :=
  [⟨0, .start, .none⟩, ⟨0, .stop, .none⟩, ⟨1, .threadInit, .none⟩, ⟨0, .start, .none⟩,
    ⟨1, .threadFinalize, .none⟩]

theorem checked_lateBegin :
    ¬ ∃ done a rest obs w, lateBegin = done ++ a :: rest ∧
      run tickingPlatform (World.initial eightPayloads) done = .ok (obs, w) ∧
        FinalizesLate done a := by
  have hlife : ∀ a ∈ lateBegin, a.call.isLifecycle = true := by simp [lateBegin, Call.isLifecycle]
  refine (checked_iff rfl (unstarted_initial eightPayloads) hlife).mp ?_
  intro e herror
  obtain ⟨out, hrun⟩ : ∃ out, run tickingPlatform (World.initial eightPayloads) lateBegin =
      .ok out := ⟨_, rfl⟩
  cases herror.symm.trans hrun

def strandedThread : List Action :=
  [⟨0, .start, .none⟩, ⟨0, .stop, .none⟩, ⟨1, .threadInit, .none⟩, ⟨1, .threadFinalize, .none⟩]

theorem not_checked_strandedThread :
    (∀ a ∈ strandedThread, a.call.isLifecycle = true) ∧
      run tickingPlatform (World.initial eightPayloads) strandedThread = .error .nullProc ∧
      ¬ ∀ e, run tickingPlatform (World.initial eightPayloads) strandedThread = .error e →
        ∃ reason, e = .exit reason := by
  have hrun : run tickingPlatform (World.initial eightPayloads) strandedThread =
      .error .nullProc := rfl
  refine ⟨by simp [strandedThread, Call.isLifecycle], hrun, ?_⟩
  intro hchecked
  obtain ⟨reason, hreason⟩ := hchecked .nullProc hrun
  cases hreason

end TraCR
