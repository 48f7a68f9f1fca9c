import TraCR.Core.World

/-!
# What the build changes

`TRACR_CAPACITY` and the policy for a full buffer are choices of the build.  They show in a
trace only when a buffer fills up: up to there every build with at least the capacity does
call for call what the default build does.
-/

namespace TraCR

open TraCR.Lib.Run
open TraCRThread (Recorded)

variable {b b' : Build}

/-! ## Buffers -/

structure SameBuffer (th : TraCRThread b) (th' : TraCRThread b') : Prop where
  tid : th'.tid = th.tid
  stored : ∃ stored : List Payload, stored.length ≤ b.capacity ∧
    Recorded th stored ∧ Recorded th' stored

namespace SameBuffer

theorem kept_of_length_le {stored : List Payload} (h : stored.length ≤ b.capacity) :
    TraCRThread.kept b stored = stored := by
  unfold TraCRThread.kept
  cases b.policy with
  | periodic => rw [Nat.sub_eq_zero_of_le h, List.drop_zero]
  | ignoreIfFull => exact List.take_of_length_le h
  | abortIfFull => rfl

theorem accepted_of_length_le {stored : List Payload} (h : stored.length ≤ b.capacity) :
    TraCRThread.accepted b stored = stored := by
  unfold TraCRThread.accepted
  cases b.policy with
  | periodic => rfl
  | ignoreIfFull => exact List.take_of_length_le h
  | abortIfFull => rfl

theorem create (memory : Nat → Payload) (tid : Pid) :
    SameBuffer (TraCRThread.create b memory tid) (TraCRThread.create b' memory tid) where
  tid := rfl
  stored := ⟨[], Nat.zero_le _, TraCRThread.recorded_create _ _,
    TraCRThread.recorded_create _ _⟩

variable {th : TraCRThread b} {th' : TraCRThread b'}

theorem written_eq (hcap : b.capacity ≤ b'.capacity) (h : SameBuffer th th') :
    th'.written = th.written := by
  obtain ⟨stored, hlength, hth, hth'⟩ := h.stored
  rw [hth.written_eq, hth'.written_eq, kept_of_length_le hlength,
    kept_of_length_le (hlength.trans hcap)]

theorem traceIdx_eq (hcap : b.capacity ≤ b'.capacity) (h : SameBuffer th th') :
    th'.traceIdx = th.traceIdx := by
  obtain ⟨stored, hlength, hth, hth'⟩ := h.stored
  rw [hth.index, hth'.index, accepted_of_length_le hlength,
    accepted_of_length_le (hlength.trans hcap)]

theorem flushTraces_eq (hcap : b.capacity ≤ b'.capacity) (h : SameBuffer th th') (disk : Disk)
    (path : ProcPath) (fault : Fault) :
    th'.flushTraces disk path fault = th.flushTraces disk path fault := by
  unfold TraCRThread.flushTraces
  rw [h.traceIdx_eq hcap, h.written_eq hcap, h.tid]

theorem exists_storeTrace {stored : List Payload} (payload : Payload)
    (h : Recorded th' stored) (hroom : stored.length < b'.capacity) :
    ∃ next, th'.storeTrace payload = .ok next := by
  have hindex : th'.traceIdx < b'.capacity := by
    rw [h.index, accepted_of_length_le (by omega)]
    exact hroom
  unfold TraCRThread.storeTrace
  cases b'.policy with
  | periodic => exact ⟨_, rfl⟩
  | ignoreIfFull | abortIfFull =>
      simp only [hindex, dite_true]
      exact ⟨_, rfl⟩

/-- The default build stops at the first payload too many; until then the two buffers
stay the same. -/
theorem storeTrace (hpolicy : b.policy = .abortIfFull) (hcap : b.capacity ≤ b'.capacity)
    (h : SameBuffer th th') (payload : Payload) :
    th.storeTrace payload = .error (.exit (.bufferFull th.tid)) ∨
      ∃ next next', th.storeTrace payload = .ok next ∧ th'.storeTrace payload = .ok next' ∧
        SameBuffer next next' := by
  obtain ⟨stored, hlength, hth, hth'⟩ := h.stored
  by_cases hroom : stored.length < b.capacity
  · obtain ⟨next, hnext⟩ := exists_storeTrace payload hth hroom
    obtain ⟨next', hnext'⟩ := exists_storeTrace payload hth' (hroom.trans_le hcap)
    refine .inr ⟨next, next', hnext, hnext', ?_, stored ++ [payload], ?_, ?_, ?_⟩
    · rw [TraCRThread.storeTrace_tid hnext, TraCRThread.storeTrace_tid hnext', h.tid]
    · rw [List.length_append, List.length_singleton]
      omega
    · exact hth.storeTrace hnext
    · exact hth'.storeTrace hnext'
  · have hfull : ¬th.traceIdx < b.capacity := by
      rw [hth.index, accepted_of_length_le hlength]
      exact hroom
    left
    unfold TraCRThread.storeTrace
    rw [hpolicy]
    simp [hfull]

end SameBuffer

/-! ## Worlds -/

/-- The globals agree, and each thread has the same buffer in both builds or in neither. -/
structure SameWorld (w : World b) (v : World b') : Prop where
  proc : v.tracrProc = w.tracrProc
  enabled : v.enableTracr = w.enableTracr
  init : v.tracrProcInit = w.tracrProcInit
  count : v.numTracrThreads = w.numTracrThreads
  colour : v.lazyColorId = w.lazyColorId
  path : v.traceFolderPath = w.traceFolderPath
  disk : v.disk = w.disk
  reads : v.reads = w.reads
  threads : ∀ t, Option.Rel SameBuffer (w.tracrThread.lookup t) (v.tracrThread.lookup t)

structure SameTrace (w : World b) (v : World b') : Prop where
  disk : v.disk = w.disk
  proc : v.tracrProc = w.tracrProc
  count : v.numTracrThreads = w.numTracrThreads
  buffers : ∀ t, (v.tracrThread.lookup t).map (fun th => (th.tid, th.written)) =
    (w.tracrThread.lookup t).map fun th => (th.tid, th.written)

namespace SameWorld

theorem initial : SameWorld (World.initial b) (World.initial b') := by
  refine ⟨rfl, rfl, rfl, rfl, rfl, rfl, rfl, rfl, ?_⟩
  intro t
  exact .none

theorem sameTrace (hcap : b.capacity ≤ b'.capacity) {w : World b} {v : World b'}
    (h : SameWorld w v) : SameTrace w v := by
  refine ⟨h.disk, h.proc, h.count, ?_⟩
  intro t
  have hrel := h.threads t
  generalize w.tracrThread.lookup t = x at hrel ⊢
  generalize v.tracrThread.lookup t = y at hrel ⊢
  cases hrel with
  | none => rfl
  | some hsame => rw [Option.map_some, Option.map_some, hsame.tid, hsame.written_eq hcap]

end SameWorld

theorem rel_insert {threads : Table OsThread (TraCRThread b)}
    {threads' : Table OsThread (TraCRThread b')}
    (h : ∀ t, Option.Rel SameBuffer (threads.lookup t) (threads'.lookup t)) (t : OsThread)
    {th : TraCRThread b} {th' : TraCRThread b'} (hsame : SameBuffer th th') (t' : OsThread) :
    Option.Rel SameBuffer ((threads.insert t th).lookup t')
      ((threads'.insert t th').lookup t') := by
  by_cases ht : t' = t
  · rw [ht, AList.lookup_insert, AList.lookup_insert]
    exact .some hsame
  · rw [AList.lookup_insert_ne ht, AList.lookup_insert_ne ht]
    exact h t'

theorem rel_erase {threads : Table OsThread (TraCRThread b)}
    {threads' : Table OsThread (TraCRThread b')}
    (h : ∀ t, Option.Rel SameBuffer (threads.lookup t) (threads'.lookup t)) (t t' : OsThread) :
    Option.Rel SameBuffer ((threads.erase t).lookup t') ((threads'.erase t).lookup t') := by
  by_cases ht : t' = t
  · rw [ht, AList.lookup_erase, AList.lookup_erase]
    exact .none
  · rw [AList.lookup_erase_ne ht, AList.lookup_erase_ne ht]
    exact h t'

/-! ## Calls -/

section Calls

variable {pf : Platform} {w : World b} {v : World b'} {t : OsThread}

theorem SameWorld.thread_cases (h : SameWorld w v) (t : OsThread) :
    (w.tracrThread.lookup t = none ∧ v.tracrThread.lookup t = none) ∨
      ∃ th th', w.tracrThread.lookup t = some th ∧ v.tracrThread.lookup t = some th' ∧
        SameBuffer th th' := by
  have hrel := h.threads t
  generalize w.tracrThread.lookup t = x at hrel ⊢
  generalize v.tracrThread.lookup t = y at hrel ⊢
  cases hrel with
  | none => exact .inl ⟨rfl, rfl⟩
  | some hsame => exact .inr ⟨_, _, rfl, rfl, hsame⟩

abbrev SameResult (x : Except Stop (World b)) (y : Except Stop (World b')) : Prop :=
  Outcomes SameWorld (x.map (Prod.mk Obs.nothing)) (y.map (Prod.mk Obs.nothing))

theorem sameResult_threadInit (h : SameWorld w v) (t : OsThread) :
    SameResult (w.instrumentationThreadInit pf t) (v.instrumentationThreadInit pf t) := by
  unfold World.instrumentationThreadInit
  rcases h.thread_cases t with ⟨hnone, hnone'⟩ | ⟨th, th', hth, hth', hsame⟩
  · rw [hnone, hnone']
    exact .ok { h with
      count := by simp only [h.count]
      threads := rel_insert h.threads t (.create pf.memory (pf.gettid t)) }
  · rw [hth, hth']
    simp only [hsame.tid]
    exact .error

theorem createFolders_eq (hflush : b'.disableFlush = b.disableFlush) (h : SameWorld w v)
    (proc : TraCRProc) (fault : Fault) :
    v.createFolders proc fault = w.createFolders proc fault := by
  unfold World.createFolders
  rw [hflush, h.path, h.disk]

theorem sameResult_start (hflush : b'.disableFlush = b.disableFlush) (h : SameWorld w v)
    (t : OsThread) (fault : Fault) :
    SameResult (w.instrumentationStart pf t fault) (v.instrumentationStart pf t fault) := by
  unfold World.instrumentationStart
  rw [h.proc]
  cases w.tracrProc with
  | some proc => exact .error
  | none =>
      simp only [createFolders_eq hflush h, h.reads]
      cases w.createFolders (.create (pf.clock w.reads) (pf.gettid t) pf.getpid) fault with
      | error e => exact .error
      | ok made =>
          obtain ⟨proc, disk⟩ := made
          have hnext : SameWorld
              { w with tracrProc := some proc, disk := disk, reads := w.reads + 1 }
              { v with tracrProc := some proc, disk := disk, reads := w.reads + 1 } :=
            { h with proc := rfl, disk := rfl, reads := rfl }
          have hinit := @sameResult_threadInit _ _ pf _ _ hnext t
          revert hinit
          simp only
          generalize World.instrumentationThreadInit pf
            { w with tracrProc := some proc, disk := disk, reads := w.reads + 1 } t = x
          generalize World.instrumentationThreadInit pf
            { v with tracrProc := some proc, disk := disk, reads := w.reads + 1 } t = y
          intro hinit
          cases x <;> cases y <;> cases hinit
          · exact .error
          next hsame =>
            exact .ok { hsame with init := rfl }

theorem flushThread_eq (hcap : b.capacity ≤ b'.capacity)
    (hflush : b'.disableFlush = b.disableFlush) (h : SameWorld w v) {th : TraCRThread b}
    {th' : TraCRThread b'} (hsame : SameBuffer th th') (fault : Fault) :
    v.flushThread th' fault = w.flushThread th fault := by
  unfold World.flushThread
  rw [hflush, h.disk, h.proc]
  cases w.tracrProc with
  | none => rfl
  | some proc => simp only [hsame.flushTraces_eq hcap]

theorem sameResult_threadFinalize (hcap : b.capacity ≤ b'.capacity)
    (hflush : b'.disableFlush = b.disableFlush) (h : SameWorld w v) (t : OsThread)
    (fault : Fault) :
    SameResult (w.instrumentationThreadFinalize t fault)
      (v.instrumentationThreadFinalize t fault) := by
  unfold World.instrumentationThreadFinalize
  rcases h.thread_cases t with ⟨hnone, hnone'⟩ | ⟨th, th', hth, hth', hsame⟩
  · rw [hnone, hnone']
    exact .error
  · rw [hth, hth']
    simp only [flushThread_eq hcap hflush h hsame]
    cases w.flushThread th fault with
    | error e => exact .error
    | ok disk =>
        exact .ok { h with
          count := by simp only [h.count]
          disk := rfl
          threads := rel_erase h.threads t }

theorem flushProc_cases (hcap : b.capacity ≤ b'.capacity)
    (hflush : b'.disableFlush = b.disableFlush) (h : SameWorld w v) {th : TraCRThread b}
    {th' : TraCRThread b'} (hsame : SameBuffer th th') (proc : TraCRProc) (fault : Fault) :
    (∃ e, w.flushProc pf proc th fault = .error e ∧ v.flushProc pf proc th' fault = .error e) ∨
      ∃ disk reads, w.flushProc pf proc th fault = .ok { w with disk := disk, reads := reads } ∧
        v.flushProc pf proc th' fault = .ok { v with disk := disk, reads := reads } := by
  unfold World.flushProc
  rw [hflush, h.count, h.disk, h.reads, hsame.flushTraces_eq hcap]
  by_cases hdisabled : b.disableFlush = true
  · rw [if_pos hdisabled, if_pos hdisabled]
    exact .inr ⟨w.disk, w.reads, rfl, by rw [← h.count, ← h.disk, ← h.reads]⟩
  · rw [if_neg hdisabled, if_neg hdisabled]
    by_cases hone : w.numTracrThreads ≠ 1
    · rw [if_pos hone, if_pos hone]
      exact .inl ⟨_, rfl, rfl⟩
    · rw [if_neg hone, if_neg hone]
      cases th.flushTraces w.disk proc.getFolderPath fault with
      | error e => exact .inl ⟨e, rfl, rfl⟩
      | ok disk =>
          simp only
          cases proc.dumpJSON pf.clock w.reads disk fault with
          | error e => exact .inl ⟨e, rfl, rfl⟩
          | ok written => exact .inr ⟨_, _, rfl, rfl⟩

theorem sameResult_stop (hcap : b.capacity ≤ b'.capacity)
    (hflush : b'.disableFlush = b.disableFlush) (h : SameWorld w v) (t : OsThread)
    (fault : Fault) :
    SameResult (w.instrumentationEnd pf t fault) (v.instrumentationEnd pf t fault) := by
  unfold World.instrumentationEnd
  rw [h.proc]
  cases w.tracrProc with
  | none => exact .error
  | some proc =>
      simp only
      rcases h.thread_cases t with ⟨hnone, hnone'⟩ | ⟨th, th', hth, hth', hsame⟩
      · rw [hnone, hnone']
        exact .error
      · rw [hth, hth']
        simp only
        rcases @flushProc_cases _ _ pf _ _ hcap hflush h _ _ hsame proc fault with
          ⟨e, hw, hv⟩ | ⟨disk, reads, hw, hv⟩
        · rw [hw, hv]
          exact .error
        · rw [hw, hv]
          exact .ok { h with
            proc := rfl
            init := rfl
            count := by simp only [h.count]
            disk := rfl
            reads := rfl
            threads := rel_erase h.threads t }

theorem outcomes_markWColorAdd (h : SameWorld w v) (label : String) (colorId : UInt16) :
    Outcomes SameWorld (w.instrumentationMarkWColorAdd label colorId)
      (v.instrumentationMarkWColorAdd label colorId) := by
  unfold World.instrumentationMarkWColorAdd
  rw [h.proc]
  cases w.tracrProc with
  | none => exact .error
  | some proc =>
      simp only
      split
      · exact .error
      · split
        · exact .error
        · exact .ok { h with proc := rfl }

theorem outcomes_markAdd (h : SameWorld w v) (label : String) :
    Outcomes SameWorld (w.instrumentationMarkAdd label) (v.instrumentationMarkAdd label) := by
  unfold World.instrumentationMarkAdd
  rw [h.proc, h.colour]
  cases w.tracrProc with
  | none => exact .error
  | some proc =>
      simp only
      split
      · exact .error
      · split
        · exact .error
        · exact .ok { h with proc := rfl, colour := rfl }

theorem outcomes_record (hpolicy : b.policy = .abortIfFull) (hcap : b.capacity ≤ b'.capacity)
    (h : SameWorld w v) (t : OsThread) (channelId eventId : UInt16) (extraId : UInt32) :
    Outcomes SameWorld (w.record pf t channelId eventId extraId)
        (v.record pf t channelId eventId extraId) ∨
      ∃ tid, w.record pf t channelId eventId extraId = .error (.exit (.bufferFull tid)) := by
  unfold World.record
  rw [h.enabled, h.reads]
  by_cases henabled : (!w.enableTracr) = true
  · rw [if_pos henabled, if_pos henabled]
    exact .inl (.ok h)
  · rw [if_neg henabled, if_neg henabled]
    simp only
    rcases h.thread_cases t with ⟨hnone, hnone'⟩ | ⟨th, th', hth, hth', hsame⟩
    · rw [hnone, hnone']
      exact .inl .error
    · rw [hth, hth']
      simp only
      rcases hsame.storeTrace hpolicy hcap ⟨channelId, eventId, extraId, pf.clock w.reads⟩ with
        hfull | ⟨next, next', hnext, hnext', hsame'⟩
      · exact .inr ⟨th.tid, by rw [hfull]⟩
      · rw [hnext, hnext']
        exact .inl (.ok { h with
          enabled := rfl
          reads := rfl
          threads := rel_insert h.threads t hsame' })

theorem sameResult_updateProc (h : SameWorld w v) (f : TraCRProc → TraCRProc) :
    SameResult (w.updateProc f) (v.updateProc f) := by
  unfold World.updateProc
  rw [h.proc]
  cases w.tracrProc with
  | none => exact .error
  | some proc => exact .ok { h with proc := rfl }

theorem outcomes_getJsonStr (h : SameWorld w v) :
    Outcomes SameWorld (w.instrumentationGetJsonStr pf) (v.instrumentationGetJsonStr pf) := by
  unfold World.instrumentationGetJsonStr
  rw [h.proc, h.reads]
  cases w.tracrProc with
  | none => exact .error
  | some proc => exact .ok { h with proc := rfl, reads := rfl }

def isBufferFull (e : Stop) : Prop := ∃ tid, e = .exit (.bufferFull tid)

/-- One call. -/
theorem step_outcomes (hpolicy : b.policy = .abortIfFull) (hcap : b.capacity ≤ b'.capacity)
    (hflush : b'.disableFlush = b.disableFlush) (h : SameWorld w v) (a : Action) :
    Outcomes SameWorld (step pf w a) (step pf v a) ∨
      ∃ e, isBufferFull e ∧ step pf w a = .error e := by
  have hrecord : ∀ channelId eventId extraId,
      Outcomes SameWorld
          ((w.record pf a.thread channelId eventId extraId).map (Prod.map Obs.ofRecord id))
          ((v.record pf a.thread channelId eventId extraId).map (Prod.map Obs.ofRecord id)) ∨
        ∃ e, isBufferFull e ∧
          (w.record pf a.thread channelId eventId extraId).map (Prod.map Obs.ofRecord id) =
            .error e := by
    intro channelId eventId extraId
    rcases @outcomes_record _ _ pf _ _ hpolicy hcap h a.thread channelId eventId extraId with
      hboth | ⟨tid, hfull⟩
    · exact .inl (hboth.map _)
    · exact .inr ⟨_, ⟨tid, rfl⟩, by rw [hfull]; rfl⟩
  unfold step
  cases a.call with
  | start => exact .inl (sameResult_start hflush h a.thread a.fault)
  | stop => exact .inl (sameResult_stop hcap hflush h a.thread a.fault)
  | threadInit => exact .inl (sameResult_threadInit h a.thread)
  | threadFinalize => exact .inl (sameResult_threadFinalize hcap hflush h a.thread a.fault)
  | markWColorAdd label colorId => exact .inl ((outcomes_markWColorAdd h label colorId).map _)
  | markAdd label => exact .inl ((outcomes_markAdd h label).map _)
  | markSet channelId eventId extraId => exact hrecord channelId eventId extraId
  | markReset channelId => exact hrecord channelId eventIdReset uint32Max
  | flowStart channelId flowId => exact hrecord channelId eventIdFlowStart flowId
  | flowEnd channelId flowId => exact hrecord channelId eventIdFlowEnd flowId
  | addCustomChannelNames names => exact .inl (sameResult_updateProc h _)
  | addNumberOfChannels n => exact .inl (sameResult_updateProc h _)
  | getJsonStr => exact .inl ((outcomes_getJsonStr h).map _)
  | on => exact .inl (.ok { h with enabled := rfl })
  | off => exact .inl (.ok { h with enabled := rfl })
  | tracePath path => exact .inl (.ok { h with path := rfl })

end Calls

/-- A run of the default build that fills no buffer is a run of every build with at least
its capacity that flushes if and only if the default build does: it stops where that one
stops, shows what that one shows and leaves the same files and the same buffers. -/
theorem sameTrace_of_roomy (hpolicy : b.policy = .abortIfFull) (hcap : b.capacity ≤ b'.capacity)
    (hflush : b'.disableFlush = b.disableFlush) (pf : Platform) (actions : List Action) :
    Outcomes SameTrace (run pf (World.initial b) actions) (run pf (World.initial b') actions) ∨
      ∃ tid, run pf (World.initial b) actions = .error (.exit (.bufferFull tid)) := by
  have hstep : ∀ w v a, SameWorld w v → Outcomes SameWorld (step pf w a) (step pf v a) ∨
      ∃ e, isBufferFull e ∧ step pf w a = .error e :=
    fun w v a h => step_outcomes hpolicy hcap hflush h a
  have hinitial : SameWorld (World.initial b) (World.initial b') := SameWorld.initial
  have hrun := exec_outcomes hstep hinitial actions
  rcases hrun with hboth | ⟨e, ⟨tid, rfl⟩, hfull⟩
  · exact .inl (hboth.imp fun _ _ h => h.sameTrace hcap)
  · exact .inr ⟨tid, hfull⟩

def sixteenRing : Build := ⟨16, by decide, .periodic, false⟩

theorem sameTrace_of_roomy_sixteenRing :
    let calls := callsBy 0 [.start, .markAdd "run", .markSet 0 0 5, .markReset 0, .stop]
    Outcomes SameTrace (run tickingPlatform (World.initial eightPayloads) calls)
        (run tickingPlatform (World.initial sixteenRing) calls) ∨
      ∃ tid, run tickingPlatform (World.initial eightPayloads) calls =
        .error (.exit (.bufferFull tid)) :=
  @sameTrace_of_roomy eightPayloads sixteenRing rfl (by decide) rfl tickingPlatform _

end TraCR
