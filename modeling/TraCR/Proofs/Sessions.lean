import TraCR.Lib.Contents
import TraCR.Core.Effects

/-!
# Where the payloads of a run go

Between START and END every payload stored is in a file of the proc folder or in a
live buffer, unless a flush has dropped it.  A flush opens `traces.bts` afresh, so
a session that flushes under a kernel thread id used before drops what was there.
-/

namespace TraCR

open TraCR.Lib.Run TraCR.Lib.Contents
open TraCRThread (tracesFile folderName Recorded)

variable {b : Build} {pf : Platform}

def outputPath (pf : Platform) (w : World b) : ProcPath where
  base := w.traceFolderPath ++ "tracr/"
  folder := s!"proc.{pf.getpid}"

structure Fresh (w : World b) : Prop where
  threads : w.tracrThread = ∅
  count : w.numTracrThreads = 0
  empty : ∀ path : ProcPath, path.base = w.traceFolderPath ++ "tracr/" →
    w.disk.lookup path = none

theorem fresh_initial (b : Build) : Fresh (World.initial b) :=
  ⟨rfl, rfl, fun _ _ => rfl⟩

def FindsRoom (w : World b) (a : Action) : Prop :=
  a.call.record?.isSome → w.enableTracr = true →
    ∀ th, w.tracrThread.lookup a.thread = some th → th.traceIdx < b.capacity

/-- The call flushes a buffer that is not empty into a `traces.bts` that holds
payloads already. -/
def Overwrites (w : World b) (a : Action) : Prop :=
  a.call.flushes = true ∧ ∃ proc th bytes, w.tracrProc = some proc ∧
    w.tracrThread.lookup a.thread = some th ∧ th.traceIdx ≠ 0 ∧
      tracesFile w.disk proc.getFolderPath th.tid = some bytes ∧ readPayloads bytes ≠ []

theorem findsRoom_of_step (hpolicy : b.policy = .abortIfFull) {w w' : World b} {a : Action}
    {o : Obs} (h : step pf w a = .ok (o, w')) : FindsRoom w a := by
  intro hrecord henabled th hthread
  cases effect_of_step h with
  | store _ _ hthread' hstore =>
      obtain rfl := Option.some.inj (hthread.symm.trans hthread')
      unfold TraCRThread.storeTrace at hstore
      rw [hpolicy] at hstore
      simp only at hstore
      split at hstore
      · assumption
      · cases hstore
  | untraced _ hdisabled => simp [henabled] at hdisabled
  | start hcall | stop hcall | threadInit hcall | threadFinalize hcall | on hcall | off hcall
  | tracePath hcall | snapshot hcall =>
      rw [hcall] at hrecord
      cases hrecord
  | update hcall => cases hc : a.call <;> simp [hc, Call.record?, Call.update?] at hrecord hcall
  | register hcall =>
      rw [hcall.others.2.1] at hrecord
      cases hrecord

/-! ## The balance -/

def Obs.payloads : Obs → List Payload
  | .stored payload => [payload]
  | _ => []

def ProcDir.payloads (dir : ProcDir) : List Payload :=
  contents readPayloads dir.threads

/-- The payloads in the files of the proc and in the live buffers. -/
def held (path : ProcPath) (w : World b) : List Payload :=
  contentsAt ProcDir.payloads w.disk path ++ contents TraCRThread.written w.tracrThread

def dropped (w : World b) (a : Action) : List Payload :=
  if a.call.flushes then
    match w.tracrProc, w.tracrThread.lookup a.thread with
    | some proc, some th =>
        if th.traceIdx = 0 then []
        else ((tracesFile w.disk proc.getFolderPath th.tid).map readPayloads).getD []
    | _, _ => []
  else []

theorem map_snd_storedLog (trace : List (Action × Obs)) :
    (storedLog trace).map Prod.snd = trace.flatMap fun x => x.2.payloads := by
  induction trace with
  | nil => rfl
  | cons x trace ih =>
      obtain ⟨a, o⟩ := x
      unfold storedLog at ih ⊢
      cases o <;> simp [Obs.payloads, ih]

theorem not_overwrites_iff {w : World b} {a : Action} :
    ¬ Overwrites w a ↔ dropped w a = [] := by
  unfold Overwrites dropped
  cases a.call.flushes with
  | false => simp
  | true =>
      cases hproc : w.tracrProc with
      | none => simp
      | some proc =>
          cases hthread : w.tracrThread.lookup a.thread with
          | none => simp
          | some th =>
              by_cases hzero : th.traceIdx = 0
              · simp [hzero]
              · cases hfile : tracesFile w.disk proc.getFolderPath th.tid with
                | none => simp [hzero, hfile]
                | some bytes => simp [hzero, hfile]

/-! ## One call -/

/-- Between START and END: the proc has its folder, the only one in the output
directory, every buffer holds what was stored into it, and the threads with a buffer
are counted. -/
structure Running (path : ProcPath) (w : World b) : Prop where
  proc : ∃ proc, w.tracrProc = some proc ∧ proc.getFolderPath = path
  dir : ∃ dir, w.disk.lookup path = some dir
  alone : ∀ path' : ProcPath, path'.base = path.base → path' ≠ path →
    w.disk.lookup path' = none
  buffers : ∀ t th, w.tracrThread.lookup t = some th → ∃ stored, Recorded th stored
  count : w.numTracrThreads = w.tracrThread.entries.length

theorem payloads_of_flush {th : TraCRThread b} {stored : List Payload}
    (hrecorded : Recorded th stored) (dir : ProcDir) :
    (dir.payloads ++ th.written).Perm
      ({ dir with threads := if th.traceIdx = 0 then dir.threads
          else dir.threads.insert (folderName th.tid) (payloadBytes th.written) :
          ProcDir }.payloads ++
        if th.traceIdx = 0 then []
        else contentsAt readPayloads dir.threads (folderName th.tid)) := by
  unfold ProcDir.payloads
  by_cases hzero : th.traceIdx = 0
  · rw [if_pos hzero, if_pos hzero, hrecorded.written_eq_nil hzero]
  · rw [if_neg hzero, if_neg hzero, contents_insert, readPayloads_payloadBytes]
    have hold := contents_perm readPayloads dir.threads (folderName th.tid)
    rw [List.perm_iff_count] at hold ⊢
    intro p
    have := hold p
    simp only [List.count_append] at this ⊢
    omega

theorem dropped_of_not_flushes {w : World b} {a : Action} (h : a.call.flushes = false) :
    dropped w a = [] := by
  unfold dropped
  rw [h, if_neg Bool.false_ne_true]

section Flush

variable {w : World b} {a : Action} {proc : TraCRProc} {th : TraCRThread b} {dir : ProcDir}

theorem dropped_of_flushes (h : a.call.flushes = true) (hproc : w.tracrProc = some proc)
    (hthread : w.tracrThread.lookup a.thread = some th)
    (hdir : w.disk.lookup proc.getFolderPath = some dir) :
    dropped w a = if th.traceIdx = 0 then []
      else contentsAt readPayloads dir.threads (folderName th.tid) := by
  unfold dropped
  rw [if_pos h, hproc, hthread]
  simp only [tracesFile, hdir, Option.bind_some]
  rfl

/-- What is held before a flush is held after it or dropped by it. -/
theorem held_of_flush {stored : List Payload} (hrecorded : Recorded th stored)
    (hflushes : a.call.flushes = true) (hproc : w.tracrProc = some proc)
    (hthread : w.tracrThread.lookup a.thread = some th)
    (hdir : w.disk.lookup proc.getFolderPath = some dir) {disk : Disk} {fault : Fault}
    (hflush : th.flushTraces w.disk proc.getFolderPath fault = .ok disk) :
    (held proc.getFolderPath w).Perm
      (contentsAt ProcDir.payloads disk proc.getFolderPath ++
        contents TraCRThread.written (w.tracrThread.erase a.thread) ++ dropped w a) := by
  rw [dropped_of_flushes hflushes hproc hthread hdir]
  unfold held
  have hfile := payloads_of_flush hrecorded dir
  have hbuffers := contents_perm TraCRThread.written w.tracrThread a.thread
  have hown : contentsAt TraCRThread.written w.tracrThread a.thread = th.written := by
    simp [contentsAt, hthread]
  have hbefore : contentsAt ProcDir.payloads w.disk proc.getFolderPath = dir.payloads := by
    simp [contentsAt, hdir]
  have hafter : contentsAt ProcDir.payloads disk proc.getFolderPath =
      { dir with threads := if th.traceIdx = 0 then dir.threads
          else dir.threads.insert (folderName th.tid) (payloadBytes th.written) :
          ProcDir }.payloads := by
    simp [contentsAt, lookup_of_flushTraces hdir hflush]
  rw [hown] at hbuffers
  rw [hbefore, hafter]
  rw [List.perm_iff_count] at hfile hbuffers ⊢
  intro p
  have hp := hfile p
  have hp' := hbuffers p
  simp only [List.count_append] at hp hp' ⊢
  omega

end Flush

theorem Running.quiet {path : ProcPath} {w w' : World b} {a : Action} {o : Obs}
    (h : Running path w) (hproc : ∃ proc, w'.tracrProc = some proc ∧ proc.getFolderPath = path)
    (hdisk : w'.disk = w.disk) (hthreads : w'.tracrThread = w.tracrThread)
    (hcount : w'.numTracrThreads = w.numTracrThreads) (hflushes : a.call.flushes = false)
    (ho : o.payloads = []) :
    Running path w' ∧ (o.payloads ++ held path w).Perm (held path w' ++ dropped w a) := by
  refine ⟨⟨hproc, hdisk ▸ h.dir, hdisk ▸ h.alone, hthreads ▸ h.buffers, ?_⟩, ?_⟩
  · rw [hcount, hthreads]
    exact h.count
  · unfold held
    rw [hdisk, hthreads, ho, dropped_of_not_flushes hflushes, List.nil_append, List.append_nil]

theorem buffers_insert {threads : Table OsThread (TraCRThread b)}
    (h : ∀ t th, threads.lookup t = some th → ∃ stored, Recorded th stored)
    {th : TraCRThread b} {stored : List Payload} (hrecorded : Recorded th stored)
    (t : OsThread) (t' : OsThread) (th' : TraCRThread b)
    (hlookup : (threads.insert t th).lookup t' = some th') :
    ∃ stored, Recorded th' stored := by
  rcases lookup_insert_eq_some_iff.mp hlookup with ⟨-, rfl⟩ | ⟨-, hold⟩
  · exact ⟨stored, hrecorded⟩
  · exact h t' th' hold

theorem Running.openSession {path : ProcPath} {w : World b} {a : Action}
    (h : Running path w) (hinit : a.call = .threadInit)
    (hthread : w.tracrThread.lookup a.thread = none) :
    Running path { w with
        tracrThread :=
          w.tracrThread.insert a.thread (.create b pf.memory (pf.gettid a.thread))
        numTracrThreads := w.numTracrThreads + 1 } ∧
      (held path w).Perm (held path { w with
        tracrThread :=
          w.tracrThread.insert a.thread (.create b pf.memory (pf.gettid a.thread))
        numTracrThreads := w.numTracrThreads + 1 } ++ dropped w a) := by
  have hrecorded := @TraCRThread.recorded_create b pf.memory (pf.gettid a.thread)
  have hentries := @AList.entries_insert_of_notMem _ _ _ _
    (.create b pf.memory (pf.gettid a.thread)) _ (AList.lookup_eq_none.mp hthread)
  refine ⟨⟨h.proc, h.dir, h.alone, buffers_insert h.buffers hrecorded a.thread, ?_⟩, ?_⟩
  · show w.numTracrThreads + 1 = _
    rw [hentries, h.count]
    simp
  · unfold held contents
    rw [dropped_of_not_flushes (hinit ▸ rfl), hentries, List.flatMap_cons,
      hrecorded.written_eq_nil rfl, List.append_nil]
    exact .refl _

theorem Running.closeSession {path : ProcPath} {w : World b} {a : Action}
    (h : Running path w) (hfinalize : a.call = .threadFinalize) {proc : TraCRProc}
    (hproc : w.tracrProc = some proc) {th : TraCRThread b}
    (hthread : w.tracrThread.lookup a.thread = some th) {disk : Disk} {fault : Fault}
    (hflush : th.flushTraces w.disk proc.getFolderPath fault = .ok disk) :
    Running path { w with
        tracrThread := w.tracrThread.erase a.thread
        numTracrThreads := w.numTracrThreads - 1
        disk := disk } ∧
      (held path w).Perm (held path { w with
        tracrThread := w.tracrThread.erase a.thread
        numTracrThreads := w.numTracrThreads - 1
        disk := disk } ++ dropped w a) := by
  obtain ⟨⟨proc', hproc', rfl⟩, ⟨dir, hdir⟩, halone, hbuffers, hcount⟩ := h
  obtain rfl := Option.some.inj (hproc.symm.trans hproc')
  obtain ⟨stored, hrecorded⟩ := hbuffers _ _ hthread
  refine ⟨⟨⟨proc, hproc, rfl⟩, ⟨_, lookup_of_flushTraces hdir hflush⟩, ?_, ?_, ?_⟩, ?_⟩
  · intro path' hbase hne
    exact (lookup_of_flushTraces_ne hne hflush).trans (halone path' hbase hne)
  · exact fun t th' hth' => hbuffers t th' (lookup_erase_eq_some_iff.mp hth').2
  · have hlength := length_entries_of_lookup hthread
    show w.numTracrThreads - 1 = ((w.tracrThread.erase a.thread).entries.length : Int)
    omega
  · exact held_of_flush hrecorded (hfinalize ▸ rfl) hproc hthread hdir hflush

theorem Running.store {path : ProcPath} {w : World b} {a : Action} (h : Running path w)
    (hflushes : a.call.flushes = false) {th th' : TraCRThread b}
    (hthread : w.tracrThread.lookup a.thread = some th) (hroom : th.traceIdx < b.capacity)
    {payload : Payload} (hstore : th.storeTrace payload = .ok th') (reads : Nat) :
    Running path { w with
        tracrThread := w.tracrThread.insert a.thread th'
        reads := reads } ∧
      (payload :: held path w).Perm (held path { w with
        tracrThread := w.tracrThread.insert a.thread th'
        reads := reads } ++ dropped w a) := by
  obtain ⟨stored, hrecorded⟩ := h.buffers _ _ hthread
  refine ⟨⟨h.proc, h.dir, h.alone,
    buffers_insert h.buffers (hrecorded.storeTrace hstore) a.thread, ?_⟩, ?_⟩
  · show w.numTracrThreads = ((w.tracrThread.insert a.thread th').entries.length : Int)
    rw [length_entries_insert_of_lookup hthread, h.count]
  · have hwritten := hrecorded.written_storeTrace hroom hstore
    have hold := contents_perm TraCRThread.written w.tracrThread a.thread
    have hown : contentsAt TraCRThread.written w.tracrThread a.thread = th.written := by
      simp [contentsAt, hthread]
    unfold held
    rw [dropped_of_not_flushes hflushes, contents_insert, hwritten, List.append_nil]
    rw [hown, List.perm_iff_count] at hold
    rw [← List.singleton_append, List.perm_iff_count]
    intro p
    have hp := hold p
    simp only [List.count_append] at hp ⊢
    omega

/-- One call keeps what it stores and what was held, but for what it drops. -/
theorem Running.step (hflush : b.disableFlush = false) {path : ProcPath} {w w' : World b}
    {a : Action} {o : Obs} (h : Running path w) (hstop : a.call ≠ .stop)
    (hroom : FindsRoom w a) (hstep : TraCR.step pf w a = .ok (o, w')) :
    Running path w' ∧ (o.payloads ++ held path w).Perm (held path w' ++ dropped w a) := by
  obtain ⟨proc, hproc, hpath⟩ := h.proc
  cases effect_of_step hstep with
  | start _ hnone => simp [hproc] at hnone
  | stop hcall => exact absurd hcall hstop
  | threadInit hcall hthread => exact h.openSession hcall hthread
  | threadFinalize hcall hthread hflushed =>
      obtain ⟨proc', hproc', hflushed⟩ := flushThread_ok hflush hflushed
      exact h.closeSession hcall hproc' hthread hflushed
  | on hcall => exact h.quiet ⟨proc, hproc, hpath⟩ rfl rfl rfl (hcall ▸ rfl) rfl
  | off hcall => exact h.quiet ⟨proc, hproc, hpath⟩ rfl rfl rfl (hcall ▸ rfl) rfl
  | tracePath hcall => exact h.quiet ⟨proc, hproc, hpath⟩ rfl rfl rfl (hcall ▸ rfl) rfl
  | untraced hcall =>
      obtain ⟨-, -, -, hflushes, -⟩ := others_of_record? hcall
      exact h.quiet ⟨proc, hproc, hpath⟩ rfl rfl rfl hflushes rfl
  | update hcall hsome =>
      obtain rfl := Option.some.inj (hproc.symm.trans hsome)
      obtain ⟨-, -, -, hflushes, -⟩ := others_of_update? hcall
      exact h.quiet ⟨_, rfl, (getFolderPath_of_update? hcall proc).trans hpath⟩
        rfl rfl rfl hflushes rfl
  | snapshot hcall hsome =>
      obtain rfl := Option.some.inj (hproc.symm.trans hsome)
      exact h.quiet ⟨_, rfl, hpath⟩ rfl rfl rfl (hcall ▸ rfl) rfl
  | register hcall hsome =>
      obtain rfl := Option.some.inj (hproc.symm.trans hsome)
      obtain ⟨-, -, -, -, hflushes, -⟩ := hcall.others
      exact h.quiet ⟨_, rfl, hpath⟩ rfl rfl rfl hflushes rfl
  | store hcall henabled hthread hstore =>
      obtain ⟨-, -, -, hflushes, -⟩ := others_of_record? hcall
      exact h.store hflushes hthread (hroom (hcall ▸ rfl) henabled _ hthread) hstore _

theorem Running.erase_eq_empty {path : ProcPath} {w : World b} (h : Running path w)
    (hone : w.numTracrThreads = 1) {t : OsThread} {th : TraCRThread b}
    (hthread : w.tracrThread.lookup t = some th) : w.tracrThread.erase t = ∅ := by
  have hlength := length_entries_of_lookup hthread
  have hcount := h.count
  have hzero : (w.tracrThread.erase t).entries = [] :=
    List.length_eq_zero_iff.mp (by omega)
  exact AList.ext hzero

/-! ## From START to END -/

theorem running_start (hflush : b.disableFlush = false) {w w' : World b} (hfresh : Fresh w)
    {a : Action} {o : Obs} (hstart : a.call = .start) (hstep : step pf w a = .ok (o, w')) :
    o = .nothing ∧ Running (outputPath pf w) w' ∧ held (outputPath pf w) w' = [] := by
  obtain ⟨rfl, -, -, proc, disk, hfolders, rfl⟩ := start_of_step hstart hstep
  obtain ⟨rfl, rfl⟩ := createFolders_ok hflush hfolders
  have habsent : w.disk.lookup (outputPath pf w) = none := hfresh.empty _ rfl
  have hrecorded := @TraCRThread.recorded_create b pf.memory (pf.gettid a.thread)
  refine ⟨rfl, ⟨⟨_, rfl, rfl⟩, ⟨_, AList.lookup_insert _⟩, ?_, ?_, ?_⟩, ?_⟩
  · intro path' hbase hne
    exact (AList.lookup_insert_ne hne).trans (hfresh.empty path' hbase)
  · refine buffers_insert ?_ hrecorded a.thread
    intro t th hth
    rw [hfresh.threads] at hth
    cases hth
  · show w.numTracrThreads + 1 = ((w.tracrThread.insert a.thread _).entries.length : Int)
    rw [hfresh.count, hfresh.threads]
    rfl
  · have hfiles : contentsAt ProcDir.payloads (w.disk.insert (outputPath pf w)
        ((w.disk.lookup (outputPath pf w)).getD { metadata := none, threads := ∅ }))
          (outputPath pf w) = [] := by
      rw [contentsAt, AList.lookup_insert, habsent]
      rfl
    have hbuffers : contents TraCRThread.written (w.tracrThread.insert a.thread
        (.create b pf.memory (pf.gettid a.thread))) = [] := by
      rw [contents_insert, hrecorded.written_eq_nil rfl, hfresh.threads]
      rfl
    exact List.append_eq_nil_iff.mpr ⟨hfiles, hbuffers⟩

theorem held_of_stop (hflush : b.disableFlush = false) {path : ProcPath} {w w' : World b}
    (h : Running path w) {a : Action} {o : Obs} (hstop : a.call = .stop)
    (hstep : step pf w a = .ok (o, w')) :
    o = .nothing ∧ ∃ dir, w'.disk.lookup path = some dir ∧
      (held path w).Perm (dir.payloads ++ dropped w a) := by
  obtain ⟨rfl, proc, th, w₁, hproc, hthread, hwrite, rfl⟩ := stop_of_step hstop hstep
  obtain ⟨hone, disk, dir, reads, hflushed, hdir, rfl⟩ := flushProc_ok hflush hwrite
  have hlast := h.erase_eq_empty hone hthread
  obtain ⟨⟨proc', hproc', rfl⟩, ⟨dir₀, hdir₀⟩, -, hbuffers, -⟩ := h
  obtain rfl := Option.some.inj (hproc.symm.trans hproc')
  obtain ⟨stored, hrecorded⟩ := hbuffers _ _ hthread
  refine ⟨rfl, _, AList.lookup_insert _, ?_⟩
  have hheld := held_of_flush hrecorded (hstop ▸ rfl) hproc hthread hdir₀ hflushed
  have hnone : contents TraCRThread.written (w.tracrThread.erase a.thread) = [] := by
    rw [hlast]
    rfl
  have hfiles : contentsAt ProcDir.payloads disk proc.getFolderPath = dir.payloads := by
    simp [contentsAt, hdir]
  rw [hnone, hfiles, List.append_nil] at hheld
  exact hheld

/-- In a run from an empty output directory whose buffers find room, the files of the
proc folder hold the payloads stored if and only if no flush overwrites payloads. -/
theorem keepsPayloads_iff (hflush : b.disableFlush = false) {w₀ w : World b}
    (hfresh : Fresh w₀) {first last : Action} {body : List Action} {obs : List Obs}
    (hstart : first.call = .start) (hstop : last.call = .stop)
    (hbody : ∀ a ∈ body, a.call ≠ .stop)
    (hroom : Along (step pf) FindsRoom w₀ (first :: body ++ [last]))
    (hrun : run pf w₀ (first :: body ++ [last]) = .ok (obs, w)) :
    ∃ dir, w.disk.lookup (outputPath pf w₀) = some dir ∧
      (dir.payloads.Perm
          ((storedLog ((first :: body ++ [last]).zip obs)).map Prod.snd) ↔
        Along (step pf) (fun w a => ¬ Overwrites w a) w₀ (first :: body ++ [last])) := by
  obtain ⟨obs₀, before, obs₁, hmost, hlast, rfl⟩ := exec_append_ok_iff.mp hrun
  obtain ⟨o, w₁, obs₂, hfirst, hrest, rfl⟩ := exec_cons_ok_iff.mp hmost
  obtain ⟨o', hend, rfl⟩ := exec_singleton_ok_iff.mp hlast
  obtain ⟨rfl, hrunning, hempty⟩ := running_start hflush hfresh hstart hfirst
  rw [along_append_iff hmost, along_cons_iff hfirst] at hroom ⊢
  have hbalance : Running (outputPath pf w₀) before ∧
      ((body.zip obs₂).flatMap (fun x => x.2.payloads) ++ held (outputPath pf w₀) w₁).Perm
        (held (outputPath pf w₀) before ++ lostAlong dropped (step pf) w₁ body) :=
    exec_balance (P := fun w a => a.call ≠ .stop ∧ FindsRoom w a)
      (fun _ _ _ _ hI hP hstep => hI.step hflush hP.1 hP.2 hstep) hrunning
      (along_and (along_of_forall hbody) hroom.1.2) hrest
  obtain ⟨hbefore, hbalance⟩ := hbalance
  obtain ⟨rfl, dir, hdir, hheld⟩ := held_of_stop hflush hbefore hstop hend
  refine ⟨dir, hdir, ?_⟩
  -- START and END store nothing, and START drops nothing
  have hlog : (storedLog ((first :: body ++ [last]).zip (.nothing :: obs₂ ++ [.nothing]))).map
      Prod.snd = (body.zip obs₂).flatMap fun x => x.2.payloads := by
    rw [map_snd_storedLog, List.cons_append, List.cons_append, List.zip_cons_cons,
      List.zip_append (exec_length hrest).symm, List.flatMap_cons, List.flatMap_append]
    simp [Obs.payloads]
  have hfirstKeeps : ¬ Overwrites w₀ first := by
    rintro ⟨hflushes, -⟩
    simp [hstart, Call.flushes] at hflushes
  have hall : ((Along (step pf) (fun w a => ¬ Overwrites w a) w₁ body) ∧
      Along (step pf) (fun w a => ¬ Overwrites w a) before [last]) ↔
        dropped before last ++ lostAlong dropped (step pf) w₁ body = [] := by
    rw [List.append_eq_nil_iff, lostAlong_eq_nil_iff, ← not_overwrites_iff, and_comm]
    simp only [not_overwrites_iff]
    rw [along_cons_iff hend]
    simp
  have hpayloads : ((body.zip obs₂).flatMap fun x => x.2.payloads).Perm
      (dir.payloads ++ (dropped before last ++ lostAlong dropped (step pf) w₁ body)) := by
    rw [hempty, List.append_nil] at hbalance
    rw [← List.append_assoc]
    exact hbalance.trans (hheld.append_right _)
  rw [hlog, and_assoc, and_iff_right hfirstKeeps, hall]
  constructor
  · intro hsame
    have hlength := (hsame.trans hpayloads).length_eq
    rw [List.length_append] at hlength
    exact List.length_eq_zero_iff.mp (by omega)
  · intro hnone
    rw [hnone, List.append_nil] at hpayloads
    exact hpayloads.symm

/-- Two threads under kernel thread ids of their own. -/
theorem keepsPayloads_two_threads :
    ∃ obs w dir, run tickingPlatform (World.initial eightPayloads)
        (callsBy 0 [.start, .markSet 0 0 1] ++
          callsBy 1 [.threadInit, .markSet 1 0 2, .threadFinalize] ++
            callsBy 0 [.markReset 0] ++ callsBy 0 [.stop]) = .ok (obs, w) ∧
      w.disk.lookup (outputPath tickingPlatform (World.initial eightPayloads)) = some dir ∧
      dir.payloads.Perm ((storedLog ((callsBy 0 [.start, .markSet 0 0 1] ++
          callsBy 1 [.threadInit, .markSet 1 0 2, .threadFinalize] ++
            callsBy 0 [.markReset 0] ++ callsBy 0 [.stop]).zip obs)).map Prod.snd) := by
  obtain ⟨obs, w, hrun⟩ : ∃ obs w, run tickingPlatform (World.initial eightPayloads)
      (callsBy 0 [.start, .markSet 0 0 1] ++
        callsBy 1 [.threadInit, .markSet 1 0 2, .threadFinalize] ++
          callsBy 0 [.markReset 0] ++ callsBy 0 [.stop]) = .ok (obs, w) :=
    ⟨_, _, rfl⟩
  obtain ⟨dir, hdir, hiff⟩ := @keepsPayloads_iff _ _ rfl _ _ (fresh_initial _)
    ⟨0, .start, .none⟩ ⟨0, .stop, .none⟩
    (callsBy 0 [.markSet 0 0 1] ++ callsBy 1 [.threadInit, .markSet 1 0 2, .threadFinalize] ++
      callsBy 0 [.markReset 0]) _ rfl rfl (by simp [callsBy])
    (along_of_exec (fun _ _ _ _ h => findsRoom_of_step rfl h) hrun) hrun
  refine ⟨obs, w, dir, hrun, hdir, hiff.mpr ?_⟩
  simp only [not_overwrites_iff]
  exact lostAlong_eq_nil_iff.mp rfl

/-- A thread that gets the kernel thread id of a finished thread writes over its file. -/
theorem not_keepsPayloads_reused_tid :
    ∃ obs w dir, run tickingPlatform (World.initial eightPayloads)
        (callsBy 0 [.start] ++ callsBy 1 [.threadInit, .markReset 0, .threadFinalize] ++
          callsBy 2 [.threadInit, .markReset 0, .threadFinalize] ++ callsBy 0 [.stop]) =
            .ok (obs, w) ∧
      w.disk.lookup (outputPath tickingPlatform (World.initial eightPayloads)) = some dir ∧
      ¬ dir.payloads.Perm ((storedLog ((callsBy 0 [.start] ++
          callsBy 1 [.threadInit, .markReset 0, .threadFinalize] ++
            callsBy 2 [.threadInit, .markReset 0, .threadFinalize] ++
              callsBy 0 [.stop]).zip obs)).map Prod.snd) := by
  obtain ⟨obs, w, dir, hrun, hdir, hfiles, hlog⟩ :
      ∃ obs w dir, run tickingPlatform (World.initial eightPayloads)
        (callsBy 0 [.start] ++ callsBy 1 [.threadInit, .markReset 0, .threadFinalize] ++
          callsBy 2 [.threadInit, .markReset 0, .threadFinalize] ++ callsBy 0 [.stop]) =
            .ok (obs, w) ∧
      w.disk.lookup (outputPath tickingPlatform (World.initial eightPayloads)) = some dir ∧
      dir.payloads.length = 1 ∧
      (storedLog ((callsBy 0 [.start] ++
          callsBy 1 [.threadInit, .markReset 0, .threadFinalize] ++
            callsBy 2 [.threadInit, .markReset 0, .threadFinalize] ++
              callsBy 0 [.stop]).zip obs)).length = 2 :=
    ⟨_, _, _, rfl, rfl, rfl, rfl⟩
  refine ⟨obs, w, dir, hrun, hdir, ?_⟩
  intro hperm
  have hlength := hperm.length_eq
  rw [List.length_map] at hlength
  omega

end TraCR
