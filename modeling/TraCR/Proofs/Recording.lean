import Mathlib.Data.List.GetD
import TraCR.Lib.Extrema
import TraCR.Lib.Interleaving
import TraCR.Proofs.Metadata
import TraCR.Proofs.Sessions

/-!
# What a run records

A run of the default library in which each session has a kernel thread id of its own
and no snapshot is taken.  Its log is in time order, the file of a thread holds what
the thread stored, and the document of the proc holds what was declared.
-/

namespace TraCR

open TraCR.Lib.Run TraCR.Lib.Contents TraCR.Lib.SortedList TraCR.Lib.Interleaving
open TraCR.TraCRProc
open TraCRThread (folderName folderName_injective Recorded)

variable {b : Build} {pf : Platform}

/-! ## Histories -/

def openedBy (actions : List Action) : List OsThread :=
  (actions.filter fun a => a.call.opensSession).map Action.thread

def storedBy (t : OsThread) (log : List (OsThread × Payload)) : List Payload :=
  source t (log.map Prod.swap)

def Obs.payload? : Obs → Option Payload
  | .stored payload => some payload
  | _ => none

/-- What the caller chooses in a payload. -/
def Payload.ids (p : Payload) : UInt16 × UInt16 × UInt32 := (p.channelId, p.eventId, p.extraId)

theorem storedLog_concat (h : List (Action × Obs)) (a : Action) (o : Obs) :
    storedLog (h ++ [(a, o)]) =
      storedLog h ++ (o.payload?.map fun payload => (a.thread, payload)).toList := by
  unfold storedLog
  rw [List.filterMap_append]
  cases o <;> rfl

theorem openedBy_concat (actions : List Action) (a : Action) :
    openedBy (actions ++ [a]) =
      openedBy actions ++ if a.call.opensSession then [a.thread] else [] := by
  unfold openedBy
  rw [List.filter_append, List.map_append]
  cases h : a.call.opensSession <;> simp [h]

theorem storedBy_append (t : OsThread) (log log' : List (OsThread × Payload)) :
    storedBy t (log ++ log') = storedBy t log ++ storedBy t log' := by
  simp [storedBy, source_append]

theorem storedBy_singleton (t t' : OsThread) (payload : Payload) :
    storedBy t [(t', payload)] = if t' = t then [payload] else [] := by
  unfold storedBy
  by_cases h : t' = t
  · rw [if_pos h, ← h]
    exact source_cons_self t' payload []
  · rw [if_neg h]
    exact source_cons_ne h payload []

theorem mem_storedBy {t : OsThread} {log : List (OsThread × Payload)} {payload : Payload} :
    payload ∈ storedBy t log ↔ (t, payload) ∈ log := by
  unfold storedBy
  rw [mem_source]
  simp

/-! ## The log is in time order -/

/-- Every payload has a reading of the clock from between START and now, and the log
is in the order of the readings. -/
structure Timed (pf : Platform) (start : UInt64) (w : World b) (h : List (Action × Obs)) :
    Prop where
  sorted : SortedBy Payload.time ((storedLog h).map Prod.snd)
  read : ∀ x ∈ storedLog h, start ≤ x.2.timestamp ∧ ∃ i < w.reads, x.2.timestamp = pf.clock i
  started : ∃ i < w.reads, start = pf.clock i

/-- A call other than END takes readings of the clock in turn and stores the one it
took. -/
theorem reads_of_step {w w' : World b} {a : Action} {o : Obs} (hstop : a.call ≠ .stop)
    (hstep : step pf w a = .ok (o, w')) :
    w.reads ≤ w'.reads ∧
      ∀ payload ∈ o.payload?, payload.timestamp = pf.clock w.reads ∧ w.reads < w'.reads := by
  cases effect_of_step hstep with
  | stop hcall => exact absurd hcall hstop
  | store => exact ⟨Nat.le_succ _, by simp [Obs.payload?]⟩
  | start | snapshot => exact ⟨Nat.le_succ _, by simp [Obs.payload?]⟩
  | threadInit | threadFinalize | on | off | tracePath | untraced | update | register =>
      exact ⟨le_refl _, by simp [Obs.payload?]⟩

theorem Timed.step {start : UInt64} {w w' : World b} {h : List (Action × Obs)} {a : Action}
    {o : Obs} (hclock : Monotone pf.clock) (ht : Timed pf start w h) (hstop : a.call ≠ .stop)
    (hstep : TraCR.step pf w a = .ok (o, w')) : Timed pf start w' (h ++ [(a, o)]) := by
  obtain ⟨hle, hstored⟩ := reads_of_step hstop hstep
  have hread : ∀ x ∈ storedLog h,
      start ≤ x.2.timestamp ∧ ∃ i < w'.reads, x.2.timestamp = pf.clock i := by
    intro x hx
    obtain ⟨hstart, i, hi, htime⟩ := ht.read x hx
    exact ⟨hstart, i, by omega, htime⟩
  obtain ⟨j, hj, hstart⟩ := ht.started
  constructor
  case started => exact ⟨j, by omega, hstart⟩
  case sorted =>
    rw [storedLog_concat, List.map_append]
    refine List.pairwise_append.mpr ⟨ht.sorted, ?_, ?_⟩
    · cases o.payload? <;> simp
    · intro p hp p' hp'
      obtain ⟨x, hx, rfl⟩ := List.mem_map.mp hp
      obtain ⟨-, i, hi, htime⟩ := ht.read x hx
      obtain ⟨payload, hpayload, rfl⟩ : ∃ payload, o.payload? = some payload ∧ payload = p' := by
        simpa using hp'
      show x.2.timestamp.toNat ≤ payload.timestamp.toNat
      rw [htime, (hstored payload hpayload).1]
      exact UInt64.le_iff_toNat_le.mp (hclock (by omega))
  case read =>
    intro x hx
    rw [storedLog_concat] at hx
    rcases List.mem_append.mp hx with hx | hx
    · exact hread x hx
    · obtain ⟨payload, hpayload, rfl⟩ : ∃ payload, o.payload? = some payload ∧
          (a.thread, payload) = x := by
        simpa using hx
      obtain ⟨htime, hlt⟩ := hstored payload hpayload
      refine ⟨?_, w.reads, hlt, htime⟩
      show start ≤ payload.timestamp
      rw [htime, hstart]
      exact hclock (by omega)

/-! ## Every recording call stores its payload -/

theorem enableTracr_of_step {w w' : World b} {a : Action} {o : Obs} (hstop : a.call ≠ .stop)
    (hoff : a.call ≠ .off) (henabled : w.enableTracr = true)
    (hstep : step pf w a = .ok (o, w')) : w'.enableTracr = true := by
  cases effect_of_step hstep with
  | off hcall => exact absurd hcall hoff
  | stop hcall => exact absurd hcall hstop
  | on => rfl
  | start | threadInit | threadFinalize | tracePath | untraced | store | update | snapshot
  | register => exact henabled

theorem record?_of_step {w w' : World b} {a : Action} {o : Obs} (henabled : w.enableTracr = true)
    (hstep : step pf w a = .ok (o, w')) : a.call.record? = o.payload?.map Payload.ids := by
  cases effect_of_step hstep with
  | untraced _ hdisabled => simp [henabled] at hdisabled
  | store hcall => exact hcall
  | start hcall | stop hcall | threadInit hcall | threadFinalize hcall | on hcall | off hcall
  | tracePath hcall | snapshot hcall =>
      rw [hcall]
      rfl
  | update hcall => exact (others_of_update? hcall).1
  | register hcall => exact hcall.others.2.1

/-! ## The file of a thread -/

/-- The threads with a buffer have stored what it holds, and the folder has a file for
each of the others that has stored something. -/
structure Filed (pf : Platform) (path : ProcPath) (threads : Table OsThread (TraCRThread b))
    (disk : Disk) (opened : List OsThread) (log : List (OsThread × Payload)) : Prop where
  live : ∀ t th, threads.lookup t = some th →
    t ∈ opened ∧ th.tid = pf.gettid t ∧ Recorded th (storedBy t log)
  fresh : ∀ t, t ∉ opened → storedBy t log = []
  files : ∀ dir, disk.lookup path = some dir → ∀ name bytes,
    dir.threads.lookup name = some bytes ↔
      ∃ t ∈ opened, threads.lookup t = none ∧ storedBy t log ≠ [] ∧
        name = folderName (pf.gettid t) ∧ bytes = payloadBytes (storedBy t log)

namespace Filed

variable {path : ProcPath} {threads : Table OsThread (TraCRThread b)} {disk : Disk}
  {opened : List OsThread} {log : List (OsThread × Payload)} {t : OsThread}

theorem openSession (h : Filed pf path threads disk opened log) (hfresh : t ∉ opened) :
    Filed pf path (threads.insert t (.create b pf.memory (pf.gettid t))) disk (opened ++ [t])
      log := by
  constructor
  case live =>
    intro t' th hth
    rcases lookup_insert_eq_some_iff.mp hth with ⟨rfl, rfl⟩ | ⟨-, hold⟩
    · refine ⟨by simp, rfl, ?_⟩
      rw [h.fresh t' hfresh]
      exact TraCRThread.recorded_create _ _
    · obtain ⟨hmem, hrest⟩ := h.live t' th hold
      exact ⟨List.mem_append_left _ hmem, hrest⟩
  case fresh => exact fun t' ht' => h.fresh t' fun hmem => ht' (List.mem_append_left _ hmem)
  case files =>
    intro dir hdir name bytes
    rw [h.files dir hdir]
    constructor
    · rintro ⟨t', hmem, hnone, hrest⟩
      have hne : t' ≠ t := fun heq => hfresh (heq ▸ hmem)
      exact ⟨t', List.mem_append_left _ hmem, (AList.lookup_insert_ne hne).trans hnone, hrest⟩
    · rintro ⟨t', hmem, hnone, hrest⟩
      have hne : t' ≠ t := by
        rintro rfl
        simp at hnone
      rw [AList.lookup_insert_ne hne] at hnone
      rcases List.mem_append.mp hmem with hmem | hmem
      · exact ⟨t', hmem, hnone, hrest⟩
      · exact absurd (List.mem_singleton.mp hmem) hne

theorem store (h : Filed pf path threads disk opened log) {th th' : TraCRThread b}
    {payload : Payload} (hthread : threads.lookup t = some th)
    (hstore : th.storeTrace payload = .ok th') :
    Filed pf path (threads.insert t th') disk opened (log ++ [(t, payload)]) := by
  obtain ⟨hopened, htid, hrecorded⟩ := h.live t th hthread
  have hother : ∀ t', t' ≠ t → storedBy t' (log ++ [(t, payload)]) = storedBy t' log := by
    intro t' hne
    rw [storedBy_append, storedBy_singleton, if_neg (Ne.symm hne), List.append_nil]
  constructor
  case live =>
    intro t' th₂ hth₂
    rcases lookup_insert_eq_some_iff.mp hth₂ with ⟨rfl, rfl⟩ | ⟨hne, hold⟩
    · refine ⟨hopened, (TraCRThread.storeTrace_tid hstore).trans htid, ?_⟩
      rw [storedBy_append, storedBy_singleton, if_pos rfl]
      exact hrecorded.storeTrace hstore
    · rw [hother t' hne]
      exact h.live t' th₂ hold
  case fresh =>
    intro t' ht'
    have hne : t' ≠ t := fun heq => ht' (heq ▸ hopened)
    rw [hother t' hne, h.fresh t' ht']
  case files =>
    intro dir hdir name bytes
    rw [h.files dir hdir]
    constructor
    · rintro ⟨t', hmem, hnone, hrest⟩
      have hne : t' ≠ t := by
        rintro rfl
        simp [hthread] at hnone
      refine ⟨t', hmem, (AList.lookup_insert_ne hne).trans hnone, ?_⟩
      rw [hother t' hne]
      exact hrest
    · rintro ⟨t', hmem, hnone, hrest⟩
      have hne : t' ≠ t := by
        rintro rfl
        simp at hnone
      rw [AList.lookup_insert_ne hne] at hnone
      rw [hother t' hne] at hrest
      exact ⟨t', hmem, hnone, hrest⟩

theorem flush (h : Filed pf path threads disk opened log) (hpolicy : b.policy = .abortIfFull)
    (htids : (opened.map pf.gettid).Nodup) {th : TraCRThread b}
    (hthread : threads.lookup t = some th) {dir : ProcDir} (hdir : disk.lookup path = some dir)
    {fault : Fault} {disk' : Disk} (hflush : th.flushTraces disk path fault = .ok disk') :
    Filed pf path (threads.erase t) disk' opened log := by
  obtain ⟨hopened, htid, hrecorded⟩ := h.live t th hthread
  have hwritten : th.written = storedBy t log := by
    rw [hrecorded.written_eq, TraCRThread.kept, hpolicy]
  constructor
  case live => exact fun t' th' hth' => h.live t' th' (lookup_erase_eq_some_iff.mp hth').2
  case fresh => exact h.fresh
  case files =>
    intro dir' hdir' name bytes
    rw [lookup_of_flushTraces hdir hflush, Option.some.injEq] at hdir'
    subst hdir'
    have hold := h.files dir hdir name bytes
    have hsplit : (∃ t' ∈ opened, (threads.erase t).lookup t' = none ∧ storedBy t' log ≠ [] ∧
        name = folderName (pf.gettid t') ∧ bytes = payloadBytes (storedBy t' log)) ↔
          (storedBy t log ≠ [] ∧ name = folderName (pf.gettid t) ∧
              bytes = payloadBytes (storedBy t log)) ∨
            dir.threads.lookup name = some bytes := by
      rw [hold]
      constructor
      · rintro ⟨t', hmem, hnone, hrest⟩
        rcases lookup_erase_eq_none_iff.mp hnone with rfl | hnone
        · exact .inl hrest
        · exact .inr ⟨t', hmem, hnone, hrest⟩
      · rintro (hrest | ⟨t', hmem, hnone, hrest⟩)
        · exact ⟨t, hopened, AList.lookup_erase _ _, hrest⟩
        · exact ⟨t', hmem, lookup_erase_eq_none_iff.mpr (.inr hnone), hrest⟩
    rw [hsplit]
    by_cases hzero : th.traceIdx = 0
    · have hnil := hrecorded.traceIdx_eq_zero_iff.mp hzero
      simp [hzero, hnil]
    · have hne : storedBy t log ≠ [] := fun hnil => hzero (hrecorded.traceIdx_eq_zero_iff.mpr hnil)
      simp only [hzero, if_false]
      by_cases hname : name = folderName (pf.gettid t)
      · rw [hname, htid, AList.lookup_insert, hwritten]
        constructor
        · intro hbytes
          exact .inl ⟨hne, rfl, (Option.some.inj hbytes).symm⟩
        · rintro (⟨-, -, rfl⟩ | hother)
          · rfl
          · -- no other thread has the folder of this one
            obtain ⟨t', hmem, hnone, -, hsame, -⟩ := (h.files dir hdir _ _).mp hother
            have hpid := folderName_injective hsame
            have heq := List.inj_on_of_nodup_map htids hopened hmem hpid
            rw [← heq, hthread] at hnone
            cases hnone
      · rw [htid, AList.lookup_insert_ne hname]
        simp [hname]

end Filed

theorem Filed.step (hflush : b.disableFlush = false) (hpolicy : b.policy = .abortIfFull)
    {path : ProcPath} {w w' : World b} {opened : List OsThread}
    {log : List (OsThread × Payload)} {a : Action} {o : Obs} (hrunning : Running path w)
    (h : Filed pf path w.tracrThread w.disk opened log)
    (htids : ((opened ++ if a.call.opensSession then [a.thread] else []).map pf.gettid).Nodup)
    (hstop : a.call ≠ .stop) (hstep : TraCR.step pf w a = .ok (o, w')) :
    Filed pf path w'.tracrThread w'.disk
      (opened ++ if a.call.opensSession then [a.thread] else [])
      (log ++ (o.payload?.map fun payload => (a.thread, payload)).toList) := by
  obtain ⟨⟨proc, hproc, hpath⟩, ⟨dir, hdir⟩, -⟩ := hrunning
  -- a call that leaves the files and the buffers alone
  have hquiet : a.call.opensSession = false → o.payload? = none →
      w'.tracrThread = w.tracrThread → w'.disk = w.disk → Filed pf path w'.tracrThread w'.disk
        (opened ++ if a.call.opensSession then [a.thread] else [])
        (log ++ (o.payload?.map fun payload => (a.thread, payload)).toList) := by
    intro hopens ho hthreads hdisk
    rw [hopens, ho, hthreads, hdisk]
    simpa using h
  cases effect_of_step hstep with
  | start _ hnone => simp [hproc] at hnone
  | stop hcall => exact absurd hcall hstop
  | on hcall | off hcall | tracePath hcall | snapshot hcall =>
      exact hquiet (hcall ▸ rfl) rfl rfl rfl
  | untraced hcall =>
      obtain ⟨-, -, -, -, hopens⟩ := others_of_record? hcall
      exact hquiet hopens rfl rfl rfl
  | update hcall =>
      obtain ⟨-, -, -, -, hopens⟩ := others_of_update? hcall
      exact hquiet hopens rfl rfl rfl
  | register hcall =>
      obtain ⟨-, -, -, -, -, hopens⟩ := hcall.others
      exact hquiet hopens rfl rfl rfl
  | threadInit hcall =>
      have hopens : a.call.opensSession = true := hcall ▸ rfl
      rw [hopens, if_pos rfl] at htids ⊢
      have hfresh : a.thread ∉ opened := by
        intro hmem
        have hnodup := List.Nodup.of_map pf.gettid htids
        exact (List.nodup_append.mp hnodup).2.2 a.thread hmem a.thread (by simp) rfl
      simpa [Obs.payload?] using h.openSession hfresh
  | threadFinalize hcall hthread hflushed =>
      have hopens : a.call.opensSession = false := hcall ▸ rfl
      rw [hopens, if_neg Bool.false_ne_true, List.append_nil] at htids ⊢
      obtain ⟨proc', hproc', hflushed⟩ := flushThread_ok hflush hflushed
      obtain rfl := Option.some.inj (hproc.symm.trans hproc')
      subst hpath
      simpa [Obs.payload?] using h.flush hpolicy htids hthread hdir hflushed
  | store hcall _ hthread hstore =>
      obtain ⟨-, -, -, -, hopens⟩ := others_of_record? hcall
      rw [hopens, if_neg Bool.false_ne_true, List.append_nil]
      exact h.store hthread hstore

/-! ## The document -/

def declaredNames (actions : List Action) : Option Json :=
  (actions.filterMap fun a =>
    match a.call with
    | .addCustomChannelNames names => some names
    | _ => none).getLast?

def declaredNumber (actions : List Action) : Option UInt16 :=
  (actions.filterMap fun a =>
    match a.call with
    | .addNumberOfChannels n => some n
    | _ => none).getLast?

/-- The document of a proc while no snapshot has been taken: it holds what was declared
about the channels and nothing else. -/
structure Drafted (start : UInt64) (actions : List Action) (proc : TraCRProc) : Prop where
  ready : proc.jsonIsReady = false
  started : proc.tracrInitTime = start
  names : proc.jsonFile.lookup "channel_names" = declaredNames actions
  number : declaredNames actions = none → proc.jsonFile.lookup "num_channels" =
    (declaredNumber actions).map fun n => .number n.toNat
  blank : ∀ key, key ≠ "channel_names" → key ≠ "num_channels" → proc.jsonFile.lookup key = none

theorem Drafted.keep {start : UInt64} {actions : List Action} {a : Action}
    {proc proc' : TraCRProc} (h : Drafted start actions proc) (hupdate : a.call.update? = none)
    (hready : proc'.jsonIsReady = proc.jsonIsReady)
    (hstarted : proc'.tracrInitTime = proc.tracrInitTime)
    (hfile : proc'.jsonFile = proc.jsonFile) : Drafted start (actions ++ [a]) proc' := by
  obtain ⟨hnames, hnumber⟩ : declaredNames (actions ++ [a]) = declaredNames actions ∧
      declaredNumber (actions ++ [a]) = declaredNumber actions := by
    unfold declaredNames declaredNumber
    rw [List.filterMap_append, List.filterMap_append]
    cases hcall : a.call with
    | addCustomChannelNames | addNumberOfChannels =>
        rw [hcall] at hupdate
        cases hupdate
    | _ => simp [hcall]
  constructor
  case ready => rw [hready, h.ready]
  case started => rw [hstarted, h.started]
  case names => rw [hfile, hnames, h.names]
  case number =>
    rw [hfile, hnames, hnumber]
    exact h.number
  case blank =>
    rw [hfile]
    exact h.blank

theorem Drafted.step {start : UInt64} {actions : List Action} {a : Action} {o : Obs}
    {proc proc' : TraCRProc} (h : Drafted start actions proc)
    (hsnapshot : a.call.isSnapshot = false) (heffect : ProcEffect a.call proc o proc') :
    Drafted start (actions ++ [a]) proc' := by
  cases heffect with
  | same _ _ hupdate => exact h.keep hupdate rfl rfl rfl
  | register _ _ hupdate => exact h.keep hupdate rfl rfl rfl
  | snapshot _ hyes => simp [hyes] at hsnapshot
  | @update f hupdate =>
      cases hcall : a.call <;> rw [hcall] at hupdate <;> cases hupdate
      case update.addCustomChannelNames.refl names =>
        have hnames : declaredNames (actions ++ [a]) = some names := by
          simp [declaredNames, hcall]
        refine ⟨h.ready, h.started, ?_, fun hnone => ?_, fun key hne hne' => ?_⟩
        · unfold addCustomChannelNames
          rw [lookup_setField_ne (by decide), lookup_setField_self, hnames]
        · simp [hnames] at hnone
        · unfold addCustomChannelNames
          rw [lookup_setField_ne hne', lookup_setField_ne hne]
          exact h.blank key hne hne'
      case update.addNumberOfChannels.refl n =>
        have hnames : declaredNames (actions ++ [a]) = declaredNames actions := by
          simp [declaredNames, hcall]
        have hnumber : declaredNumber (actions ++ [a]) = some n := by
          simp [declaredNumber, hcall]
        refine ⟨h.ready, h.started, ?_, fun _ => ?_, fun key hne hne' => ?_⟩
        · unfold addNumberOfChannels
          rw [lookup_setField_ne (by decide), hnames]
          exact h.names
        · unfold addNumberOfChannels
          rw [lookup_setField_self, hnumber]
          rfl
        · unfold addNumberOfChannels
          rw [lookup_setField_ne hne']
          exact h.blank key hne hne'

/-- The fields of a metadata file that the exporters read. -/
structure Document (start : UInt64) (actions : List Action) (labels : List String)
    (fields : List (String × Json)) : Prop where
  labels : fields.lookup "markerLabels" = some (.array (labels.map .string))
  started : fields.lookup "start_time" = some (.number start.toNat)
  ended : ∃ n, fields.lookup "end_time" = some (.number n)
  names : fields.lookup "channel_names" = declaredNames actions
  number : declaredNames actions = none → fields.lookup "num_channels" =
    (declaredNumber actions).map fun n => .number n.toNat
  unlabelled : fields.lookup "extraIdLabels" = none

theorem Drafted.document {start : UInt64} {actions : List Action} {proc : TraCRProc}
    (h : Drafted start actions proc) (clock : Nat → UInt64) (reads : Nat) :
    Document start actions proc.markerLabels (proc.dumped clock reads).jsonFile := by
  unfold dumped
  rw [h.ready, if_neg Bool.false_ne_true]
  have hbase : ∀ key, key ≠ "end_time" → key ≠ "markerTypes" →
      ((proc.writeJSON (clock reads)).setField "end_time"
        (.number (clock (reads + 1)).toNat)).jsonFile.lookup key =
      (proc.baseFields (clock reads)).lookup key := by
    intro key hend htypes
    rw [lookup_setField_ne hend, jsonFile_writeJSON, lookup_writeMarkerTypes_ne htypes]
  have hkept : ∀ key, key ∉ ["pid", "start_time", "end_time", "markerLabels", "markerColorIds"] →
      key ≠ "markerTypes" →
      ((proc.writeJSON (clock reads)).setField "end_time"
        (.number (clock (reads + 1)).toNat)).jsonFile.lookup key = proc.jsonFile.lookup key := by
    intro key hkey htypes
    rw [hbase key (fun heq => hkey (by simp [heq])) htypes, lookup_baseFields_ne hkey]
  constructor
  case labels =>
    rw [hbase _ (by decide) (by decide)]
    unfold baseFields
    rw [lookup_setField_ne (by decide), lookup_setField_self]
  case started =>
    rw [hbase _ (by decide) (by decide)]
    unfold baseFields
    rw [lookup_setField_ne (by decide), lookup_setField_ne (by decide),
      lookup_setField_ne (by decide), lookup_setField_self, ← h.started]
  case ended => exact ⟨_, lookup_setField_self _ _⟩
  case names => rw [hkept _ (by decide) (by decide), h.names]
  case number =>
    rw [hkept _ (by decide) (by decide)]
    exact h.number
  case unlabelled =>
    rw [hkept _ (by decide) (by decide), h.blank _ (by decide) (by decide)]

/-! ## From START to END -/

structure Journal (pf : Platform) (path : ProcPath) (start : UInt64) (w : World b)
    (h : List (Action × Obs)) : Prop where
  running : Running path w
  enabled : w.enableTracr = true
  timed : Timed pf start w h
  recorded : ∀ x ∈ h, x.1.call.record? = x.2.payload?.map Payload.ids
  filed : Filed pf path w.tracrThread w.disk (openedBy (h.map Prod.fst)) (storedLog h)
  proc : ∃ proc, Recording w h proc ∧ Drafted start (h.map Prod.fst) proc

/-- A call in the middle of a run, which neither switches tracing off nor looks at the
document. -/
def Call.inRun (c : Call) : Prop := c ≠ .stop ∧ c ≠ .getJsonStr ∧ c ≠ .off

theorem Journal.step (hflush : b.disableFlush = false) (hpolicy : b.policy = .abortIfFull)
    (hclock : Monotone pf.clock) {path : ProcPath} {start : UInt64} {w w' : World b}
    {h : List (Action × Obs)} {a : Action} {o : Obs} (hj : Journal pf path start w h)
    (htids : ((openedBy ((h ++ [(a, o)]).map Prod.fst)).map pf.gettid).Nodup)
    (hcall : a.call.inRun) (hstep : TraCR.step pf w a = .ok (o, w')) :
    Journal pf path start w' (h ++ [(a, o)]) := by
  obtain ⟨hstop, hget, hoff⟩ := hcall
  have hsnapshot : a.call.isSnapshot = false := by
    cases hc : a.call <;> first | rfl | exact absurd hc hget
  have hactions : (h ++ [(a, o)]).map Prod.fst = h.map Prod.fst ++ [a] := by simp
  obtain ⟨proc, hrec, hdrafted⟩ := hj.proc
  obtain ⟨proc', heffect, hrec'⟩ := hrec.step hstop hstep
  rw [hactions, openedBy_concat] at htids
  constructor
  case running => exact (hj.running.step hflush hstop (findsRoom_of_step hpolicy hstep) hstep).1
  case enabled => exact enableTracr_of_step hstop hoff hj.enabled hstep
  case timed => exact hj.timed.step hclock hstop hstep
  case recorded =>
    intro x hx
    rcases List.mem_append.mp hx with hold | hnew
    · exact hj.recorded x hold
    · obtain rfl := List.mem_singleton.mp hnew
      exact record?_of_step hj.enabled hstep
  case filed =>
    rw [hactions, openedBy_concat, storedLog_concat]
    exact hj.filed.step hflush hpolicy hj.running htids hstop hstep
  case proc =>
    rw [hactions]
    exact ⟨proc', hrec', hdrafted.step hsnapshot heffect⟩

theorem journal_start (hflush : b.disableFlush = false) {w w' : World b} (hfresh : Fresh w)
    (henabled : w.enableTracr = true) {a : Action} {o : Obs} (hstart : a.call = .start)
    (hstep : step pf w a = .ok (o, w')) :
    Journal pf (outputPath pf w) (pf.clock w.reads) w' [(a, o)] := by
  obtain ⟨-, hrunning, -⟩ := running_start hflush hfresh hstart hstep
  obtain ⟨proc, hrec, hready⟩ := recording_start hflush hstart hstep
  obtain ⟨rfl, -, -, proc', disk, hfolders, rfl⟩ := start_of_step hstart hstep
  obtain ⟨hmade, hdisk⟩ := createFolders_ok hflush hfolders
  obtain rfl : proc' = proc := Option.some.inj hrec.running
  have hblank : proc'.jsonFile = [] := by
    rw [hmade]
    rfl
  constructor
  case running => exact hrunning
  case enabled => exact henabled
  case timed =>
    refine ⟨.nil, ?_, ⟨w.reads, Nat.lt_succ_self _, rfl⟩⟩
    intro x hx
    cases hx
  case recorded =>
    intro x hx
    obtain rfl := List.mem_singleton.mp hx
    rw [hstart]
    rfl
  case filed =>
    have hpath : proc'.getFolderPath = outputPath pf w := by
      rw [hmade]
      rfl
    rw [hpath, hfresh.empty _ rfl] at hdisk
    have hnone : Filed pf (outputPath pf w) (∅ : Table OsThread (TraCRThread b)) disk [] [] := by
      refine ⟨fun _ _ h => (by cases h), fun _ _ => rfl, ?_⟩
      intro dir hdir name bytes
      rw [hdisk, AList.lookup_insert, Option.some.injEq] at hdir
      subst hdir
      simp
    have hopened := hnone.openSession (t := a.thread) (by simp)
    simp only [hfresh.threads]
    simpa [openedBy, storedLog, Call.opensSession, hstart] using hopened
  case proc =>
    refine ⟨proc', hrec, hready, ?_, ?_, fun _ => ?_, fun _ _ _ => ?_⟩
    · rw [hmade]
      rfl
    · simp [declaredNames, hstart, hblank]
    · simp [declaredNumber, hstart, hblank]
    · simp [hblank]

theorem Journal.run (hflush : b.disableFlush = false) (hpolicy : b.policy = .abortIfFull)
    (hclock : Monotone pf.clock) {path : ProcPath} {start : UInt64} {w w' : World b}
    {h : List (Action × Obs)} {body : List Action} {obs : List Obs}
    (hj : Journal pf path start w h) (hbody : ∀ a ∈ body, a.call.inRun)
    (htids : ((openedBy ((h ++ body.zip obs).map Prod.fst)).map pf.gettid).Nodup)
    (hrun : TraCR.run pf w body = .ok (obs, w')) :
    Journal pf path start w' (h ++ body.zip obs) := by
  have hhistory := exec_history
    (I := fun w h => ((openedBy (h.map Prod.fst)).map pf.gettid).Nodup → Journal pf path start w h)
    (P := fun _ a => a.call.inRun)
    (fun w h a o w' hI hcall hstep hnodup => by
      have hbefore : ((openedBy (h.map Prod.fst)).map pf.gettid).Nodup := by
        rw [List.map_append, List.map_cons, List.map_nil, openedBy_concat,
          List.map_append] at hnodup
        exact (List.nodup_append.mp hnodup).1
      exact (hI hbefore).step hflush hpolicy hclock hnodup hcall hstep)
    (fun _ => hj) (along_of_forall hbody) hrun
  exact hhistory htids

/-- What END leaves in the proc folder: a file for each thread that has stored
something, and the document. -/
structure WrittenFolder (pf : Platform) (start : UInt64) (trace : List (Action × Obs))
    (labels : List String) (dir : ProcDir) : Prop where
  opened : ∀ t, t ∉ openedBy (trace.map Prod.fst) → storedBy t (storedLog trace) = []
  metadata : ∃ fields, dir.metadata = some (.object fields) ∧
    Document start (trace.map Prod.fst) labels fields
  files : ∀ name bytes, dir.threads.lookup name = some bytes ↔
    ∃ t ∈ openedBy (trace.map Prod.fst), storedBy t (storedLog trace) ≠ [] ∧
      name = folderName (pf.gettid t) ∧ bytes = payloadBytes (storedBy t (storedLog trace))

theorem Journal.stop (hflush : b.disableFlush = false) (hpolicy : b.policy = .abortIfFull)
    {path : ProcPath} {start : UInt64} {w w' : World b} {h : List (Action × Obs)} {a : Action}
    {o : Obs} (hj : Journal pf path start w h) (hstop : a.call = .stop)
    (htids : ((openedBy (h.map Prod.fst)).map pf.gettid).Nodup)
    (hstep : TraCR.step pf w a = .ok (o, w')) :
    o = .nothing ∧ (∀ path' : ProcPath, path'.base = path.base → path' ≠ path →
        w'.disk.lookup path' = none) ∧
      ∃ proc dir, Recording w h proc ∧ w'.disk.lookup path = some dir ∧
        WrittenFolder pf start (h ++ [(a, o)]) proc.markerLabels dir := by
  obtain ⟨rfl, proc, th, w₁, hproc, hthread, hwrite, rfl⟩ := stop_of_step hstop hstep
  obtain ⟨hone, disk, dir, reads, hflushed, hdir, rfl⟩ := flushProc_ok hflush hwrite
  have hlast := hj.running.erase_eq_empty hone hthread
  obtain ⟨⟨proc', hproc', rfl⟩, ⟨dir₀, hdir₀⟩, halone, -⟩ := hj.running
  obtain rfl := Option.some.inj (hproc.symm.trans hproc')
  obtain ⟨proc', hrec, hdrafted⟩ := hj.proc
  obtain rfl := Option.some.inj (hproc.symm.trans hrec.running)
  have hfiled := hj.filed.flush hpolicy htids hthread hdir₀ hflushed
  have hactions : openedBy ((h ++ [(a, Obs.nothing)]).map Prod.fst) =
      openedBy (h.map Prod.fst) := by
    simp [openedBy_concat, hstop, Call.opensSession]
  have hlog : storedLog (h ++ [(a, Obs.nothing)]) = storedLog h := by
    simp [storedLog_concat, Obs.payload?]
  refine ⟨rfl, ?_, proc, _, hrec, AList.lookup_insert _, ?_, ⟨_, rfl, ?_⟩, ?_⟩
  · intro path' hbase hne
    have hother := lookup_of_flushTraces_ne hne hflushed
    exact (AList.lookup_insert_ne hne).trans (hother.trans (halone path' hbase hne))
  · rw [hactions, hlog]
    exact hfiled.fresh
  · have hdocument := hdrafted.document pf.clock w.reads
    have hnames : declaredNames ((h ++ [(a, Obs.nothing)]).map Prod.fst) =
        declaredNames (h.map Prod.fst) := by
      simp [declaredNames, hstop]
    have hnumber : declaredNumber ((h ++ [(a, Obs.nothing)]).map Prod.fst) =
        declaredNumber (h.map Prod.fst) := by
      simp [declaredNumber, hstop]
    exact ⟨hdocument.labels, hdocument.started, hdocument.ended,
      hnames ▸ hdocument.names, hnames ▸ hnumber ▸ hdocument.number, hdocument.unlabelled⟩
  · intro name bytes
    rw [hactions, hlog, hfiled.files dir hdir, hlast]
    simp

end TraCR
