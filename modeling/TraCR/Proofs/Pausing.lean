import TraCR.Core.Effects

/-!
# Pausing

`INSTRUMENTATION_OFF` and `INSTRUMENTATION_ON` pause the recording at run time.  A paused
stretch leaves nothing behind: the run goes as if what was recorded in it had never been
called.
-/

namespace TraCR

open TraCR.Lib.Run

variable {b : Build} {pf : Platform}

/-- The calls of a run without the switches and without what is recorded while tracing
is off. -/
def traced : Bool → List Action → List Action
  | _, [] => []
  | enabled, a :: actions =>
      match a.call with
      | .on => traced true actions
      | .off => traced false actions
      | _ =>
          if !enabled && a.call.record?.isSome then traced enabled actions
          else a :: traced enabled actions

def World.tracing (w : World b) : World b := { w with enableTracr := true }

def Obs.shown : Obs → List Obs
  | .nothing => []
  | o => [o]

/-- What can be seen of a run: what its calls let out, and what it leaves, apart from the
switch itself. -/
def seen (r : Except Stop (List Obs × World b)) : Except Stop (List Obs × World b) :=
  r.map fun out => (out.1.flatMap Obs.shown, out.2.tracing)

/-! ## One call -/

section Step

variable {w : World b}

theorem tracing_of_enabled (h : w.enableTracr = true) : w.tracing = w := by
  rw [World.tracing, ← h]

theorem threadInit_tracing (w : World b) (t : OsThread) :
    w.tracing.instrumentationThreadInit pf t =
      (w.instrumentationThreadInit pf t).map World.tracing := by
  unfold World.instrumentationThreadInit World.tracing
  cases w.tracrThread.lookup t <;> rfl

theorem start_tracing (w : World b) (t : OsThread) (fault : Fault) :
    w.tracing.instrumentationStart pf t fault =
      (w.instrumentationStart pf t fault).map World.tracing := by
  unfold World.instrumentationStart
  have hfolders : ∀ proc, w.tracing.createFolders proc fault = w.createFolders proc fault :=
    fun _ => rfl
  have hproc : w.tracing.tracrProc = w.tracrProc := rfl
  have hreads : w.tracing.reads = w.reads := rfl
  rw [hproc, hreads]
  cases w.tracrProc with
  | some proc => rfl
  | none =>
      simp only [hfolders]
      cases w.createFolders (.create (pf.clock w.reads) (pf.gettid t) pf.getpid) fault with
      | error e => rfl
      | ok made =>
          have hinit := @threadInit_tracing b pf
            { w with tracrProc := some made.1, disk := made.2, reads := w.reads + 1 } t
          simp only [World.tracing] at hinit ⊢
          rw [hinit]
          cases World.instrumentationThreadInit pf
            { w with tracrProc := some made.1, disk := made.2, reads := w.reads + 1 } t <;> rfl

theorem threadFinalize_tracing (w : World b) (t : OsThread) (fault : Fault) :
    w.tracing.instrumentationThreadFinalize t fault =
      (w.instrumentationThreadFinalize t fault).map World.tracing := by
  unfold World.instrumentationThreadFinalize
  have hflush : ∀ th, w.tracing.flushThread th fault = w.flushThread th fault := fun _ => rfl
  have hthreads : w.tracing.tracrThread = w.tracrThread := rfl
  rw [hthreads]
  cases w.tracrThread.lookup t with
  | none => rfl
  | some th =>
      simp only [hflush]
      cases w.flushThread th fault <;> rfl

theorem flushProc_tracing (w : World b) (proc : TraCRProc) (th : TraCRThread b)
    (fault : Fault) :
    w.tracing.flushProc pf proc th fault =
      (w.flushProc pf proc th fault).map World.tracing := by
  unfold World.flushProc
  split
  · rfl
  · have hcount : w.tracing.numTracrThreads = w.numTracrThreads := rfl
    have hdisk : w.tracing.disk = w.disk := rfl
    have hreads : w.tracing.reads = w.reads := rfl
    rw [hcount, hdisk, hreads]
    split
    · rfl
    · cases th.flushTraces w.disk proc.getFolderPath fault with
      | error e => rfl
      | ok disk =>
          simp only
          cases proc.dumpJSON pf.clock w.reads disk fault <;> rfl

theorem stop_tracing (w : World b) (t : OsThread) (fault : Fault) :
    w.tracing.instrumentationEnd pf t fault =
      (w.instrumentationEnd pf t fault).map World.tracing := by
  unfold World.instrumentationEnd
  have hproc : w.tracing.tracrProc = w.tracrProc := rfl
  have hthreads : w.tracing.tracrThread = w.tracrThread := rfl
  rw [hproc, hthreads]
  cases w.tracrProc with
  | none => rfl
  | some proc =>
      simp only
      cases w.tracrThread.lookup t with
      | none => rfl
      | some th =>
          simp only [flushProc_tracing]
          cases w.flushProc pf proc th fault <;> rfl

theorem markWColorAdd_tracing (w : World b) (label : String) (colorId : UInt16) :
    w.tracing.instrumentationMarkWColorAdd label colorId =
      (w.instrumentationMarkWColorAdd label colorId).map (Prod.map id World.tracing) := by
  unfold World.instrumentationMarkWColorAdd
  have hproc : w.tracing.tracrProc = w.tracrProc := rfl
  rw [hproc]
  cases w.tracrProc with
  | none => rfl
  | some proc =>
      simp only
      split
      · rfl
      · split <;> rfl

theorem markAdd_tracing (w : World b) (label : String) :
    w.tracing.instrumentationMarkAdd label =
      (w.instrumentationMarkAdd label).map (Prod.map id World.tracing) := by
  unfold World.instrumentationMarkAdd
  have hproc : w.tracing.tracrProc = w.tracrProc := rfl
  have hcolour : w.tracing.lazyColorId = w.lazyColorId := rfl
  rw [hproc, hcolour]
  cases w.tracrProc with
  | none => rfl
  | some proc =>
      simp only
      split
      · rfl
      · split <;> rfl

theorem updateProc_tracing (w : World b) (f : TraCRProc → TraCRProc) :
    w.tracing.updateProc f = (w.updateProc f).map World.tracing := by
  unfold World.updateProc
  have hproc : w.tracing.tracrProc = w.tracrProc := rfl
  rw [hproc]
  cases w.tracrProc <;> rfl

theorem getJsonStr_tracing (w : World b) :
    w.tracing.instrumentationGetJsonStr pf =
      (w.instrumentationGetJsonStr pf).map (Prod.map id World.tracing) := by
  unfold World.instrumentationGetJsonStr
  have hproc : w.tracing.tracrProc = w.tracrProc := rfl
  have hreads : w.tracing.reads = w.reads := rfl
  rw [hproc, hreads]
  cases w.tracrProc <;> rfl

theorem record_tracing (h : w.enableTracr = true) (t : OsThread)
    (channelId eventId : UInt16) (extraId : UInt32) :
    w.tracing.record pf t channelId eventId extraId =
      (w.record pf t channelId eventId extraId).map (Prod.map id World.tracing) := by
  rw [tracing_of_enabled h]
  unfold World.record
  simp only [h, Bool.not_true, Bool.false_eq_true, if_false]
  cases w.tracrThread.lookup t with
  | none => rfl
  | some th =>
      simp only
      cases th.storeTrace ⟨channelId, eventId, extraId, pf.clock w.reads⟩ with
      | error e => rfl
      | ok th' => simp [Except.map, World.tracing]

/-- A call that neither switches tracing nor is skipped does the same with tracing on. -/
theorem step_tracing {a : Action} (hon : a.call ≠ .on) (hoff : a.call ≠ .off)
    (hkept : w.enableTracr = true ∨ a.call.record? = none) :
    step pf w.tracing a = (step pf w a).map (Prod.map id World.tracing) := by
  have hsilent : ∀ x : Except Stop (World b),
      (x.map World.tracing).map (Prod.mk Obs.nothing) =
        (x.map (Prod.mk Obs.nothing)).map (Prod.map id World.tracing) := by
    rintro (e | w') <;> rfl
  have hvalue : ∀ {α : Type} (f : α → Obs) (x : Except Stop (α × World b)),
      (x.map (Prod.map id World.tracing)).map (Prod.map f id) =
        (x.map (Prod.map f id)).map (Prod.map id World.tracing) := by
    rintro α f (e | r) <;> rfl
  have hrecord : ∀ channelId eventId extraId,
      a.call.record? = some (channelId, eventId, extraId) →
        (w.tracing.record pf a.thread channelId eventId extraId).map
            (Prod.map Obs.ofRecord id) =
          ((w.record pf a.thread channelId eventId extraId).map
            (Prod.map Obs.ofRecord id)).map (Prod.map id World.tracing) := by
    intro channelId eventId extraId hcall
    have henabled : w.enableTracr = true := hkept.resolve_right (by simp [hcall])
    rw [record_tracing henabled, hvalue]
  unfold step
  cases hcall : a.call with
  | on => exact absurd hcall hon
  | off => exact absurd hcall hoff
  | start => exact (congrArg _ (start_tracing w a.thread a.fault)).trans (hsilent _)
  | stop => exact (congrArg _ (stop_tracing w a.thread a.fault)).trans (hsilent _)
  | threadInit => exact (congrArg _ (threadInit_tracing w a.thread)).trans (hsilent _)
  | threadFinalize =>
      exact (congrArg _ (threadFinalize_tracing w a.thread a.fault)).trans (hsilent _)
  | markWColorAdd label colorId =>
      exact (congrArg _ (markWColorAdd_tracing w label colorId)).trans (hvalue _ _)
  | markAdd label => exact (congrArg _ (markAdd_tracing w label)).trans (hvalue _ _)
  | markSet | markReset | flowStart | flowEnd => exact hrecord _ _ _ (by rw [hcall]; rfl)
  | addCustomChannelNames names =>
      exact (congrArg _ (updateProc_tracing w _)).trans (hsilent _)
  | addNumberOfChannels n => exact (congrArg _ (updateProc_tracing w _)).trans (hsilent _)
  | getJsonStr => exact (congrArg _ (getJsonStr_tracing w)).trans (hvalue _ _)
  | tracePath path => rfl

/-- A recording call does nothing while tracing is off, whatever the thread. -/
theorem step_of_paused {a : Action} (h : w.enableTracr = false)
    (hrecord : a.call.record?.isSome = true) : step pf w a = .ok (.nothing, w) := by
  have hskip : ∀ channelId eventId extraId,
      (w.record pf a.thread channelId eventId extraId).map (Prod.map Obs.ofRecord id) =
        .ok (.nothing, w) := by
    intro channelId eventId extraId
    unfold World.record
    rw [h]
    rfl
  unfold step
  cases hcall : a.call with
  | markSet | markReset | flowStart | flowEnd => exact hskip _ _ _
  | _ =>
      rw [hcall] at hrecord
      cases hrecord

theorem enableTracr_of_kept {w' : World b} {a : Action} {o : Obs} (hon : a.call ≠ .on)
    (hoff : a.call ≠ .off) (h : step pf w a = .ok (o, w')) :
    w'.enableTracr = w.enableTracr := by
  cases effect_of_step h with
  | on hcall => exact absurd hcall hon
  | off hcall => exact absurd hcall hoff
  | stop _ _ _ hflush =>
      obtain ⟨disk, reads, rfl⟩ := exists_of_flushProc hflush
      rfl
  | start | threadInit | threadFinalize | tracePath | untraced | store | update | snapshot
  | register => rfl

end Step

/-! ## Runs -/

theorem seen_cons {w w' : World b} {a : Action} {o : Obs} (h : step pf w a = .ok (o, w'))
    (actions : List Action) :
    seen (run pf w (a :: actions)) =
      (seen (run pf w' actions)).map fun out => (o.shown ++ out.1, out.2) := by
  unfold seen run
  rw [exec_cons_of_ok h]
  cases exec (step pf) w' actions <;> rfl

/-- A run is seen as the run without its paused stretches: the same calls stop, the same is
let out and the same is left behind. -/
theorem seen_traced (pf : Platform) (w : World b) (actions : List Action) :
    seen (run pf w actions) = seen (run pf w.tracing (traced w.enableTracr actions)) := by
  induction actions generalizing w with
  | nil => rfl
  | cons a actions ih =>
      have hquiet : ∀ r : Except Stop (List Obs × World b),
          r.map (fun out => (Obs.nothing.shown ++ out.1, out.2)) = r := by
        rintro (e | out) <;> rfl
      -- a call that is left out, and what it does to the switch
      have hskip : ∀ w' : World b, step pf w a = .ok (.nothing, w') → w'.tracing = w.tracing →
          seen (run pf w (a :: actions)) =
            seen (run pf w.tracing (traced w'.enableTracr actions)) := by
        intro w' hstep htracing
        rw [seen_cons hstep, hquiet, ih w', htracing]
      -- a call that stays
      have hkeep : a.call ≠ .on → a.call ≠ .off →
          (w.enableTracr = true ∨ a.call.record? = none) →
            seen (run pf w (a :: actions)) =
              seen (run pf w.tracing (a :: traced w.enableTracr actions)) := by
        intro hon hoff hkept
        have hother : step pf w.tracing a = (step pf w a).map (Prod.map id World.tracing) :=
          step_tracing hon hoff hkept
        cases hstep : step pf w a with
        | error e =>
            rw [hstep] at hother
            unfold run exec
            rw [hstep, hother]
            rfl
        | ok next =>
            obtain ⟨o, w'⟩ := next
            rw [hstep] at hother
            rw [seen_cons hstep, seen_cons hother, ih w', enableTracr_of_kept hon hoff hstep]
            rfl
      rw [traced]
      split
      next hcall =>
        exact hskip { w with enableTracr := true } (by simp only [step, hcall]) rfl
      next hcall =>
        exact hskip { w with enableTracr := false } (by simp only [step, hcall]) rfl
      next hon hoff =>
        split
        next hpaused =>
          obtain ⟨hdisabled, hrecord⟩ := Bool.and_eq_true_iff.mp hpaused
          exact hskip w (step_of_paused (by simpa using hdisabled) hrecord) rfl
        next hkept =>
          refine hkeep (fun h => hon h) (fun h => hoff h) ?_
          cases henabled : w.enableTracr with
          | true => exact .inl rfl
          | false =>
              right
              rw [henabled] at hkept
              simpa using hkept

/-- Between two switches nothing is recorded. -/
example : traced true (callsBy 0 [.markSet 0 1 2, .off, .markReset 0, .on, .markReset 1]) =
    callsBy 0 [.markSet 0 1 2, .markReset 1] := rfl

end TraCR
