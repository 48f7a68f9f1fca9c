import TraCR.Proofs.FinishedSession

/-!
# From the calls of a job to one Perfetto file

The processes of a job run at the same time, each from START to END, and write into one
output directory.  The exported file shows of every process what that process recorded.
-/

namespace TraCR

open TraCR.Lib TraCR.Lib.Run TraCR.Lib.Sharing TraCR.Lib.Traversal TraCR.Lib.SortedList
  TraCR.Lib.Interleaving

variable {b : Build} {pf : Platform}

/-! ## The statement -/

/-- The events of a process are the slices of its intervals and its flow events. -/
structure ShowsLog (pid : Pid) (start : UInt64) (trace : List (Action × Obs))
    (events : List TraceEvent) : Prop where
  slices : ∀ c, slicesOf pid.val (c + 1) events =
    (intervals c ((storedLog trace).map Prod.snd)).map (sliceOf pid start trace)
  flows : ∀ c, flowsOf pid.val (c + 1) events =
    (channelFlows c ((storedLog trace).map Prod.snd)).map (flowOf pid start)

/-- The recording calls of every process are in its log, and what the output directory shows
are the logs of the processes. -/
structure FaithfulJob {ι : Type} (pids : ι → Pid) (starts : ι → UInt64)
    (traces : ι → List (Action × Obs)) (base : String) (disk : Disk) : Prop where
  recorded : ∀ i, ∀ x ∈ traces i, x.1.call.record? = x.2.payload?.map Payload.ids
  exported : ∀ entries, ListsOutput base disk entries →
    ∀ (sorter : Sorter ProcData.pid) q (out : OutputFolder), out.opens "perfetto.json" = true →
      ∃ procs file, extractBtsMetadata sorter entries = .ok procs ∧
        perfetto q out procs = .ok file ∧
          (∀ i, ShowsLog (pids i) (starts i) (traces i) file.traceEvents) ∧
          ∀ (pid : Int) tid, (∀ i, pid ≠ (pids i).val) →
            slicesOf pid tid file.traceEvents = [] ∧ flowsOf pid tid file.traceEvents = []

structure BeforeStart (path : String) (disk : Disk) (w : World b) : Prop where
  fresh : Fresh { w with disk := disk }
  idle : w.tracrProc = none
  enabled : w.enableTracr = true
  path : w.traceFolderPath = path

def startTime (pf : Platform) (w : World b) : UInt64 :=
  if pf.clock w.reads = uint64Max then 0 else pf.clock w.reads

def traceOf {ι : Type} [DecidableEq ι] (i : ι) (turns : List (Action × ι))
    (shown : List (Option Obs × ι)) : List (Action × Obs) :=
  (source i turns).zip (source i shown).reduceOption

/-! ## One process -/

/-- What the export of a proc contributes to the file: the log of its process, and nothing
to the tracks of others. -/
structure Contributes (pf : Platform) (start : UInt64) (trace : List (Action × Obs)) (q : HeapTop)
    (proc : ProcData) : Prop where
  pid : proc.pid = pf.getpid.val
  exports : ∀ position, ∃ file, perfettoProc q proc position = .ok file ∧
    ShowsLog pf.getpid start trace file.traceEvents ∧
      ∀ (pid : Int) tid, pid ≠ pf.getpid.val →
        slicesOf pid tid file.traceEvents = [] ∧ flowsOf pid tid file.traceEvents = []

theorem LoadedSession.contributes {start : UInt64} {trace : List (Action × Obs)} {proc : ProcData}
    (h : LoadedSession pf start trace proc) (huse : ProperUse pf trace) (q : HeapTop) :
    Contributes pf (if start = uint64Max then 0 else start) trace q proc := by
  obtain ⟨dir, reg, hwritten, hloaded, hmarkers⟩ := h.folder
  refine ⟨hloaded.pid, fun position => ?_⟩
  obtain ⟨file, hfile, hslices, hflows, hown⟩ := hloaded.exists_perfettoProc hwritten huse
    h.recorded h.sorted hmarkers.labels q position
  exact ⟨file, hfile, ⟨hslices, hflows⟩, fun pid tid hne => hown pid tid (.inl hne)⟩

/-! ## All procs -/

section Procs

variable {ι : Type} {P : ι → ProcData → Prop} {order : List ι} {procs : List ProcData}

structure OfJob (P : ι → ProcData → Prop) (order : List ι) (procs : List ProcData) : Prop where
  each : List.Forall₂ P order procs
  nodup : order.Nodup
  all : ∀ i, i ∈ order

theorem OfJob.imp (h : OfJob P order procs) {P' : ι → ProcData → Prop}
    (himp : ∀ i proc, P i proc → P' i proc) : OfJob P' order procs :=
  ⟨h.each.imp himp, h.nodup, h.all⟩

theorem OfJob.perm (h : OfJob P order procs) {procs' : List ProcData}
    (hperm : procs'.Perm procs) : ∃ order', OfJob P order' procs' := by
  obtain ⟨order', hforall, horder⟩ := List.perm_comp_forall₂ hperm h.each.flip
  exact ⟨order', hforall.flip, horder.nodup_iff.mpr h.nodup, fun i => horder.mem_iff.mpr (h.all i)⟩

theorem OfJob.length_eq (h : OfJob P order procs) : procs.length = order.length :=
  h.each.length_eq.symm

theorem OfJob.getElem (h : OfJob P order procs) {k : Nat} (hk : k < procs.length) :
    ∃ hk' : k < order.length, P order[k] procs[k] := by
  have hk' : k < order.length := h.length_eq ▸ hk
  exact ⟨hk', (List.forall₂_iff_get.mp h.each).2 k hk' hk⟩

theorem OfJob.exists_getElem (h : OfJob P order procs) (i : ι) :
    ∃ k, ∃ (hk : k < procs.length) (hk' : k < order.length), order[k] = i ∧ P i procs[k] := by
  obtain ⟨k, hk', rfl⟩ := List.mem_iff_getElem.mp (h.all i)
  have hk : k < procs.length := h.length_eq ▸ hk'
  exact ⟨k, hk, hk', rfl, (h.getElem hk).2⟩

variable {platforms : ι → Platform} {starts : ι → UInt64} {traces : ι → List (Action × Obs)}
  {q : HeapTop}

theorem OfJob.perfetto
    (h : OfJob (fun i => Contributes (platforms i) (starts i) (traces i) q) order procs)
    (hpids : ∀ i j, (platforms i).getpid = (platforms j).getpid → i = j)
    {out : OutputFolder} (hopens : out.opens "perfetto.json" = true) :
    ∃ file, TraCR.perfetto q out procs = .ok file ∧
      (∀ i, ShowsLog (platforms i).getpid (starts i) (traces i) file.traceEvents) ∧
      ∀ (pid : Int) tid, (∀ i, pid ≠ (platforms i).getpid.val) →
        slicesOf pid tid file.traceEvents = [] ∧ flowsOf pid tid file.traceEvents = [] := by
  obtain ⟨files, hfiles⟩ : ∃ files, procs.zipIdx.mapM (fun x => perfettoProc q x.1 x.2) =
      .ok files := by
    refine exists_mapM_ok_iff.mpr ?_
    rintro ⟨proc, position⟩ hx
    obtain ⟨i, -, hcontributes⟩ := exists_mem_left h.each (List.fst_mem_of_mem_zipIdx hx)
    obtain ⟨file, hfile, -⟩ := hcontributes.exports position
    exact ⟨file, hfile⟩
  have hlength : files.length = procs.length := by simpa using length_mapM hfiles
  -- what the file at a position shows
  have hfile : ∀ k (hk : k < order.length) (hk' : k < files.length),
      ShowsLog (platforms order[k]).getpid (starts order[k]) (traces order[k])
          files[k].traceEvents ∧
        ∀ (pid : Int) tid, pid ≠ (platforms order[k]).getpid.val →
          slicesOf pid tid files[k].traceEvents = [] ∧
            flowsOf pid tid files[k].traceEvents = [] := by
    intro k hk hk'
    obtain ⟨_, hcontributes⟩ := h.getElem (hlength ▸ hk')
    obtain ⟨file, hexport, hshows, hown⟩ := hcontributes.exports k
    obtain rfl := Except.ok.inj (hexport.symm.trans (getElem_of_mapM_zipIdx hfiles _ hk'))
    exact ⟨hshows, hown⟩
  have hperfetto : TraCR.perfetto q out procs = .ok
      ⟨files.flatMap PerfettoFile.traceEvents, files.flatMap PerfettoFile.warnings⟩ := by
    unfold TraCR.perfetto
    rw [hopens, hfiles]
    rfl
  refine ⟨_, hperfetto, fun i => ?_, fun pid tid hpid => ?_⟩
  · obtain ⟨k, hk, hk', rfl, -⟩ := h.exists_getElem i
    have hshows := (hfile k hk' (hlength ▸ hk)).1
    have hothers : ∀ j (hj : j < files.length), j ≠ k → ∀ c,
        slicesOf (platforms order[k]).getpid.val (c + 1) files[j].traceEvents = [] ∧
          flowsOf (platforms order[k]).getpid.val (c + 1) files[j].traceEvents = [] := by
      intro j hj hne c
      have hj' : j < order.length := by
        rw [← h.length_eq, ← hlength]
        exact hj
      refine (hfile j hj' hj).2 _ _ fun heq => hne ?_
      exact h.nodup.getElem_inj_iff.mp (hpids _ _ (Subtype.ext (by simpa using heq.symm)))
    constructor
    · intro c
      rw [slicesOf_flatMap, ← hshows.slices c]
      have hsingle := filter_flatMap_eq_single (l := files) (i := k)
        (g := fun file => slicesOf (platforms order[k]).getpid.val (c + 1) file.traceEvents)
        (p := fun _ => true) (hlength ▸ hk) fun j hj hne a ha => by
          rw [(hothers j hj hne c).1] at ha
          cases ha
      simpa using hsingle
    · intro c
      rw [flowsOf_flatMap, ← hshows.flows c]
      have hsingle := filter_flatMap_eq_single (l := files) (i := k)
        (g := fun file => flowsOf (platforms order[k]).getpid.val (c + 1) file.traceEvents)
        (p := fun _ => true) (hlength ▸ hk) fun j hj hne a ha => by
          rw [(hothers j hj hne c).2] at ha
          cases ha
      simpa using hsingle
  · have hnone : ∀ file ∈ files, slicesOf pid tid file.traceEvents = [] ∧
        flowsOf pid tid file.traceEvents = [] := by
      intro file hmem
      obtain ⟨k, hk, rfl⟩ := List.mem_iff_getElem.mp hmem
      have hk' : k < order.length := by
        rw [← h.length_eq, ← hlength]
        exact hk
      exact (hfile k hk' hk).2 pid tid (hpid _)
    rw [slicesOf_flatMap, flowsOf_flatMap]
    exact ⟨List.flatMap_eq_nil_iff.mpr fun file hmem => (hnone file hmem).1,
      List.flatMap_eq_nil_iff.mpr fun file hmem => (hnone file hmem).2⟩

end Procs

theorem extractBtsMetadata_of_loadsAs {sorter : Sorter ProcData.pid} {entries : List ProcEntry}
    {procs : List ProcData} (h : List.Forall₂ LoadsAs entries procs) (hne : procs ≠ []) :
    extractBtsMetadata sorter entries = .ok (sorter.sort procs) := by
  have hloaded : entries.mapM loadProcFolder = .ok (procs.map some) :=
    mapM_ok_iff.mpr (List.forall₂_map_right_iff.mpr h)
  have hall : (procs.map some).reduceOption = procs := by
    simp [List.reduceOption]
  unfold extractBtsMetadata
  refine bind_ok_iff.mpr ⟨_, hloaded, ?_⟩
  simp only [hall]
  rw [if_neg hne]

/-! ## All processes -/

section Job

variable {ι : Type} {builds : ι → Build} {platforms : ι → Platform}

theorem alone_error {i : ι} {e : Stopped} {disk : Disk} (actions : List Action) :
    (alone (jobCall builds platforms) i (.error e) disk actions).2.1 = .error e := by
  induction actions with
  | nil => rfl
  | cons a actions ih => exact ih

theorem run_of_alone {i : ι} {w w' : World (builds i)} {disk disk' : Disk}
    {actions : List Action} {shown : List (Option Obs)}
    (h : alone (jobCall builds platforms) i (.ok w) disk actions = (shown, .ok w', disk')) :
    ∃ obs, run (platforms i) { w with disk := disk } actions =
        .ok (obs, { w' with disk := disk' }) ∧ shown = obs.map some := by
  induction actions generalizing w disk shown with
  | nil =>
      obtain ⟨rfl, hstate⟩ := Prod.mk.inj h
      obtain ⟨hw, rfl⟩ := Prod.mk.inj hstate
      obtain rfl := Except.ok.inj hw
      exact ⟨[], rfl, rfl⟩
  | cons a actions ih =>
      cases hstep : step (platforms i) { w with disk := disk } a with
      | error e =>
          obtain ⟨stopped, left, hcall⟩ : ∃ stopped left,
              jobCall builds platforms i (.ok w) disk a = (none, .error stopped, left) := by
            unfold jobCall Process.call
            simp only [hstep]
            exact ⟨_, _, rfl⟩
          rw [alone, hcall] at h
          have hstopped := (congrArg (fun x => x.2.1) h).symm.trans (alone_error actions)
          cases hstopped
      | ok next =>
          obtain ⟨o, w₁⟩ := next
          have hcall : jobCall builds platforms i (.ok w) disk a =
              (some o, .ok w₁.globals, w₁.disk) := by
            unfold jobCall Process.call
            simp only [hstep]
          rw [alone, hcall] at h
          obtain ⟨rfl, hrest⟩ := Prod.mk.inj h
          obtain ⟨obs, hrun, hshown⟩ := ih (Prod.ext rfl hrest)
          refine ⟨o :: obs, exec_cons_ok_iff.mpr ⟨o, w₁, obs, hstep, hrun, rfl⟩, ?_⟩
          exact congrArg (some o :: ·) hshown

variable [DecidableEq ι]
  (hpids : ∀ i j, (platforms i).getpid = (platforms j).getpid → i = j)
  (hflush : ∀ i, (builds i).disableFlush = false)
  (hpolicy : ∀ i, (builds i).policy = .abortIfFull)
  {path : String} {disk disk' : Disk} {worlds : ∀ i, World (builds i)}
  (hbefore : ∀ i, BeforeStart path disk (worlds i))
  {turns : List (Action × ι)} {shown : List (Option Obs × ι)}
  {processes : ∀ i, Process (builds i)}
  (hrun : together (jobCall builds platforms) (fun i => .ok (worlds i)) disk turns =
    (shown, processes, disk'))

include hpids hflush hpolicy hbefore hrun

omit hflush hpolicy in
/-- A process of the job runs as it would alone. -/
theorem exists_run_of_together {i : ι} (hended : ∃ w, processes i = .ok w) :
    ∃ (obs : List Obs) (w : World (builds i)) (own : Disk),
      run (platforms i) { worlds i with disk := disk } (source i turns) =
        .ok (obs, { w with disk := own }) ∧ source i shown = obs.map some ∧
          folderView (platforms i) own = folderView (platforms i) disk' := by
  obtain ⟨w, hw⟩ := hended
  obtain ⟨own, halone, hview⟩ := (separate_processes hpids).together
    (fun i => ownFolder_of_idle (hbefore i).idle) disk turns i
  rw [hrun] at halone hview
  simp only [hw] at halone
  obtain ⟨obs, hobs, hshown⟩ := run_of_alone halone
  exact ⟨obs, w, own, hobs, hshown, hview⟩

theorem session_of_together {i : ι} (hsession : OneSession (source i turns))
    (hended : ∃ w, processes i = .ok w)
    (huse : ProperUse (platforms i) (traceOf i turns shown)) :
    Session (platforms i) ((platforms i).clock (worlds i).reads) (traceOf i turns shown)
      ⟨path ++ "tracr/", procFolder (platforms i)⟩ disk' := by
  obtain ⟨obs, w, own, hobs, hshown, hview⟩ :=
    exists_run_of_together hpids hbefore hrun hended
  have htrace : traceOf i turns shown = (source i turns).zip obs := by
    unfold traceOf
    rw [hshown, List.reduceOption]
    simp
  rw [htrace] at huse ⊢
  have hown : Session (platforms i) ((platforms i).clock (worlds i).reads)
      ((source i turns).zip obs) (outputPath (platforms i) { worlds i with disk := disk }) own :=
    session_of_run (hflush i) (hpolicy i) (hbefore i).fresh (hbefore i).idle (hbefore i).enabled
      hsession huse hobs
  have hpath : outputPath (platforms i) { worlds i with disk := disk } =
      ⟨path ++ "tracr/", procFolder (platforms i)⟩ := by
    rw [outputPath, (hbefore i).path]
    rfl
  rw [hpath] at hown
  exact hown.congr (folderView_eq_iff.mp hview _ rfl).symm

omit hpids hflush hpolicy in
theorem exists_of_mem_entries {e : Sigma fun _ : ProcPath => ProcDir}
    (he : e ∈ disk'.entries) (hbase : e.1.base = path ++ "tracr/") [Nonempty ι] :
    ∃ i, e.1 = ⟨path ++ "tracr/", procFolder (platforms i)⟩ := by
  by_contra hnone
  rw [not_exists] at hnone
  have hother : ∀ i, e.1.folder ≠ procFolder (platforms i) := by
    intro i heq
    exact hnone i (by rw [← hbase, ← heq])
  obtain ⟨-, hkept⟩ := kept_of_together (fun i => ownFolder_of_idle (hbefore i).idle) disk turns
  have hsame := hkept e.1 hother
  have hempty : disk.lookup e.1 = none := by
    obtain ⟨i⟩ := ‹Nonempty ι›
    refine (hbefore i).fresh.empty e.1 ?_
    rw [hbase, ← (hbefore i).path]
  rw [hrun, hempty, AList.mem_lookup_iff.mpr he] at hsame
  cases hsame

/-- The output directory is loaded as one proc of every process. -/
theorem exists_ofJob [Nonempty ι] (hsession : ∀ i, OneSession (source i turns))
    (hended : ∀ i, ∃ w, processes i = .ok w)
    (huse : ∀ i, ProperUse (platforms i) (traceOf i turns shown)) {entries : List ProcEntry}
    (hlisted : ListsOutput (path ++ "tracr/") disk' entries) (sorter : Sorter ProcData.pid) :
    ∃ order procs, extractBtsMetadata sorter entries = .ok procs ∧
      SortedBy ProcData.pid procs ∧
        OfJob (fun i => LoadedSession (platforms i) ((platforms i).clock (worlds i).reads)
          (traceOf i turns shown)) order procs := by
  obtain ⟨dirs, hdirs, hlists⟩ := hlisted
  have hleft := fun i => session_of_together hpids hflush hpolicy hbefore hrun (hsession i)
    (hended i) (huse i)
  have hmem : ∀ e, e ∈ dirs ↔ e ∈ disk'.entries ∧ e.1.base = path ++ "tracr/" := by
    intro e
    rw [hdirs.mem_iff, List.mem_filter, decide_eq_true_iff]
  let Of : (Sigma fun _ : ProcPath => ProcDir) → ι × ProcData → Prop := fun e x =>
    e.1 = ⟨path ++ "tracr/", procFolder (platforms x.1)⟩ ∧
      LoadedSession (platforms x.1) ((platforms x.1).clock (worlds x.1).reads)
        (traceOf x.1 turns shown) x.2
  have hload : ∀ e ∈ dirs, ∀ entry, Lists e.1.folder e.2 entry →
      ∃ x : ι × ProcData, LoadsAs entry x.2 ∧ Of e x := by
    intro e he entry hentry
    obtain ⟨helem, hbase⟩ := (hmem e).mp he
    obtain ⟨i, hi⟩ := exists_of_mem_entries hbefore hrun helem hbase
    have hlookup := AList.mem_lookup_iff.mpr helem
    rw [hi] at hlookup hentry
    obtain ⟨proc, hloads, hproc⟩ := (hleft i).exists_loadsAs hlookup hentry
    exact ⟨(i, proc), hloads, hi, hproc⟩
  obtain ⟨found, hfound, hof⟩ := exists_forall₂_join hlists hload
  have hkeys : dirs.Pairwise fun e e' => e.1 ≠ e'.1 := by
    have hnodup : (dirs.map Sigma.fst).Nodup := by
      refine (hdirs.map _).nodup_iff.mpr (List.Nodup.sublist ?_ disk'.nodupKeys)
      exact List.filter_sublist.map Sigma.fst
    exact List.pairwise_map.mp hnodup
  have hjob : OfJob (fun i => LoadedSession (platforms i)
      ((platforms i).clock (worlds i).reads) (traceOf i turns shown))
        (found.map Prod.fst) (found.map Prod.snd) := by
    constructor
    case each =>
      rw [List.forall₂_map_left_iff, List.forall₂_map_right_iff, List.forall₂_same]
      intro x hx
      obtain ⟨e, -, -, hproc⟩ := exists_mem_left hof hx
      exact hproc
    case nodup =>
      refine List.pairwise_map.mpr (pairwise_of_forall₂ hof hkeys ?_)
      rintro e - e' - x x' hne ⟨hx, -⟩ ⟨hx', -⟩ heq
      exact hne (hx.trans (heq ▸ hx'.symm))
    case all =>
      intro i
      obtain ⟨dir, reg, metadata, hdir, -⟩ := (hleft i).written
      obtain ⟨x, hx, heq, -⟩ := exists_mem_right hof
        ((hmem _).mpr ⟨AList.mem_lookup_iff.mp hdir, rfl⟩)
      obtain rfl := hpids i x.1 (getpid_eq_of_procFolder (congrArg ProcPath.folder heq))
      exact List.mem_map_of_mem hx
  have hne : found.map Prod.snd ≠ [] := by
    obtain ⟨i⟩ := ‹Nonempty ι›
    obtain ⟨k, hk, -⟩ := hjob.exists_getElem i
    exact List.ne_nil_of_length_pos (Nat.zero_lt_of_lt hk)
  obtain ⟨order, horder⟩ := hjob.perm (sorter.perm _)
  refine ⟨order, _, extractBtsMetadata_of_loadsAs ?_ hne, sorter.sorted _, horder⟩
  rw [List.forall₂_map_right_iff]
  exact hfound

/-- In a job of default libraries whose processes have different ids, share an empty output
directory, use the library properly and go from START to END in any interleaving, the
exported file shows of every process what it recorded, on tracks of its own. -/
theorem faithful_of_job [Nonempty ι] (hsession : ∀ i, OneSession (source i turns))
    (hended : ∀ i, ∃ w, processes i = .ok w)
    (huse : ∀ i, ProperUse (platforms i) (traceOf i turns shown)) :
    FaithfulJob (fun i => (platforms i).getpid)
      (fun i => startTime (platforms i) (worlds i)) (fun i => traceOf i turns shown)
      (path ++ "tracr/") disk' := by
  refine ⟨fun i => (session_of_together hpids hflush hpolicy hbefore hrun (hsession i) (hended i)
    (huse i)).recorded, ?_⟩
  intro entries hlisted sorter q out hopens
  obtain ⟨order, procs, hload, -, hjob⟩ := exists_ofJob hpids hflush hpolicy hbefore hrun hsession
    hended huse hlisted sorter
  have hcontributes := hjob.imp fun i proc hproc => hproc.contributes (huse i) q
  obtain ⟨file, hfile, hshows⟩ := hcontributes.perfetto hpids hopens
  exact ⟨procs, file, hload, hfile, hshows⟩

end Job

def jobTurns : List (Action × Bool) :=
  [(⟨0, .start, .none⟩, true), (⟨0, .markAdd "send", .none⟩, true), (⟨0, .start, .none⟩, false),
    (⟨0, .markAdd "recv", .none⟩, false), (⟨0, .markSet 0 0 5, .none⟩, false),
    (⟨0, .markSet 0 0 6, .none⟩, true), (⟨0, .flowStart 0 9, .none⟩, true),
    (⟨0, .flowEnd 0 9, .none⟩, false), (⟨0, .markReset 0, .none⟩, true),
    (⟨0, .stop, .none⟩, true), (⟨0, .markReset 0, .none⟩, false), (⟨0, .stop, .none⟩, false)]

def jobTrace (second : Bool) : List (Action × Obs) :=
  (source second jobTurns).zip
    [.nothing, .eventId 0, .stored ⟨0, 0, cond second 6 5, 1⟩,
      .stored ⟨0, cond second eventIdFlowStart eventIdFlowEnd, 9, 2⟩,
      .stored ⟨0, eventIdReset, uint32Max, 3⟩, .nothing]

theorem properUse_jobTrace (second : Bool) : ProperUse (twoProcs second) (jobTrace second) where
  clock := monotone_tickingClock
  tids := by cases second <;> decide
  ties := by cases second <;> decide
  sets := by cases second <;> simp [jobTrace, jobTurns, source]
  channels := by
    have hdeclared : declaredChannels ((jobTrace second).map Prod.fst) = 1 := by
      cases second <;> rfl
    rw [hdeclared]
    cases second <;> simp [jobTrace, jobTurns, source, Call.record?]
  names := by cases second <;> simp [jobTrace, jobTurns, source]

def jobOut : List (Option Obs × Bool) × (Bool → Process eightPayloads) × Disk :=
  together (jobCall (fun _ => eightPayloads) twoProcs)
    (fun _ => .ok (World.initial eightPayloads)) ∅ jobTurns

theorem twoProcs_injective : ∀ i j, (twoProcs i).getpid = (twoProcs j).getpid → i = j := by
  decide

theorem source_jobOut (i : Bool) :
    source i jobOut.1 = (jobTrace i).map (fun x => some x.2) ∧ ∃ w, jobOut.2.1 i = .ok w := by
  obtain ⟨w, own, hi⟩ : ∃ w own, alone (jobCall (fun _ => eightPayloads) twoProcs) i
      (.ok (World.initial eightPayloads)) ∅ (source i jobTurns) =
        ((jobTrace i).map fun x => some x.2, .ok w, own) := by
    cases i <;> exact ⟨_, _, rfl⟩
  have hidle : (World.initial eightPayloads).tracrProc = none := rfl
  obtain ⟨_, hout, -⟩ := (separate_processes twoProcs_injective).together
    (fun _ => ownFolder_of_idle hidle) ∅ jobTurns i
  obtain ⟨hshown, hstate⟩ := Prod.mk.inj (hout.symm.trans hi)
  exact ⟨hshown, w, (Prod.mk.inj hstate).1⟩

theorem traceOf_jobOut (i : Bool) : traceOf i jobTurns jobOut.1 = jobTrace i := by
  rw [traceOf, (source_jobOut i).1]
  cases i <;> rfl

theorem oneSession_jobTurns (i : Bool) : OneSession (source i jobTurns) := by
  refine ⟨⟨0, .start, .none⟩, ((source i jobTurns).drop 1).dropLast, ⟨0, .stop, .none⟩, ?_⟩
  cases i <;> exact ⟨rfl, rfl, rfl, by simp [jobTurns, source, Call.inRun]⟩

theorem faithful_two_procs :
    FaithfulJob (fun i => (twoProcs i).getpid) (fun _ => 0) jobTrace "tracr/" jobOut.2.2 := by
  have hjob := @faithful_of_job Bool (fun _ => eightPayloads) twoProcs _ twoProcs_injective
    (fun _ => rfl) (fun _ => rfl) "" ∅ jobOut.2.2 (fun _ => World.initial eightPayloads)
    (fun _ => ⟨fresh_initial _, rfl, rfl, rfl⟩) jobTurns jobOut.1 jobOut.2.1 rfl _
    oneSession_jobTurns (fun i => (source_jobOut i).2)
    (fun i => (traceOf_jobOut i).symm ▸ properUse_jobTrace i)
  simp only [traceOf_jobOut] at hjob
  exact hjob

end TraCR
