import TraCR.Proofs.Timeline

/-!
# Thread order and ties do not matter

The directory iterator yields the thread folders in any order and the heap may
return any least entry, so whole merged streams differ.  When payloads of one
channel with equal timestamps come from one thread, the projection of the stream
to a channel is determined, and both exports are functions of these projections.
-/

namespace TraCR

open TraCR.Lib TraCR.Lib.Traversal TraCR.Lib.Interleaving TraCR.Lib.SortedList
  TraCR.Lib.Extrema

/-- Payloads of one channel with equal timestamps are in one file. -/
def SeparatedTies (files : List (List Payload)) : Prop :=
  files.Pairwise fun f g => ∀ a ∈ f, ∀ b ∈ g,
    a.channelId = b.channelId → a.timestamp ≠ b.timestamp

instance (files : List (List Payload)) : Decidable (SeparatedTies files) :=
  inferInstanceAs (Decidable (files.Pairwise _))

/-! ## The projection to a channel -/

theorem SeparatedTies.perm {files files' : List (List Payload)} (h : SeparatedTies files)
    (hperm : files'.Perm files) : SeparatedTies files' := by
  refine (hperm.pairwise_iff ?_).mpr h
  intro f g hfg a ha b hb hchannel htime
  exact hfg b hb a ha hchannel.symm htime.symm

theorem SeparatedTies.separated {files : List (List Payload)} (h : SeparatedTies files)
    {p : Payload → Bool} {c : Nat} (hp : ∀ a, p a → a.channelId.toNat = c) :
    Separated Payload.time p (nthSource files) := by
  intro i j hij a ha b hb hpa hpb htime
  have hi : i < files.length := by
    by_contra hge
    simp [nthSource_of_le (Nat.le_of_not_lt hge)] at ha
  have hj : j < files.length := by
    by_contra hge
    simp [nthSource_of_le (Nat.le_of_not_lt hge)] at hb
  rw [nthSource_of_lt hi] at ha
  rw [nthSource_of_lt hj] at hb
  have hchannel : a.channelId = b.channelId :=
    UInt16.toNat_inj.mp ((hp a hpa).trans (hp b hpb).symm)
  have htime' : a.timestamp = b.timestamp := UInt64.toNat_inj.mp htime
  rcases Nat.lt_or_gt_of_ne hij with hlt | hgt
  · exact List.pairwise_iff_getElem.mp h i j hi hj hlt a ha b hb hchannel htime'
  · exact List.pairwise_iff_getElem.mp h j i hj hi hgt b hb a ha hchannel.symm htime'.symm

theorem exists_nthSource_eq {files files' : List (List Payload)}
    (hperm : files'.Perm files) (i : Nat) :
    ∃ i', nthSource files i = nthSource files' i' := by
  by_cases hi : i < files.length
  · have hmem : files[i] ∈ files' := hperm.mem_iff.mpr (List.getElem_mem hi)
    obtain ⟨i', hi', heq⟩ := List.mem_iff_getElem.mp hmem
    exact ⟨i', by rw [nthSource_of_lt hi, nthSource_of_lt hi', heq]⟩
  · exact ⟨files'.length, by
      rw [nthSource_of_le (Nat.le_of_not_lt hi), nthSource_of_le le_rfl]⟩

/-- A class of payloads of one channel is seen in one order. -/
theorem filter_mergedPayloads_unique {files files' : List (List Payload)}
    (hsorted : ∀ traces ∈ files, TimeSorted traces) (hties : SeparatedTies files)
    (hperm : files'.Perm files) (q q' : HeapTop) {p : Payload → Bool} {c : Nat}
    (hp : ∀ a, p a → a.channelId.toNat = c) :
    (mergedPayloads q files).filter p = (mergedPayloads q' files').filter p :=
  filter_unique (mergedStream_interleaves q files) (mergedStream_interleaves q' files')
    (exists_nthSource_eq hperm) (exists_nthSource_eq hperm.symm)
    (hties.separated hp) ((hties.perm hperm).separated hp)
    (mergedPayloads_sorted hsorted)
    (mergedPayloads_sorted fun traces htraces => hsorted traces (hperm.mem_iff.mp htraces))

/-! ## Reordered procs -/

/-- The same proc with its thread folders listed in another order. -/
structure Reordered (proc proc' : ProcData) : Prop where
  files : proc'.btsFiles.Perm proc.btsFiles
  rest : proc' = { proc with btsFiles := proc'.btsFiles, btsTids := proc'.btsTids }

namespace Reordered

variable {proc proc' : ProcData}

theorem pid (h : Reordered proc proc') : proc'.pid = proc.pid := by rw [h.rest]

theorem metadata (h : Reordered proc proc') : proc'.metadata = proc.metadata := by
  rw [h.rest]

theorem syncStart (h : Reordered proc proc') : proc'.syncStart = proc.syncStart := by
  rw [h.rest]

theorem syncEnd (h : Reordered proc proc') : proc'.syncEnd = proc.syncEnd := by rw [h.rest]

theorem mem_merged (h : Reordered proc proc') (q q' : HeapTop) {p : Payload} :
    p ∈ mergedPayloads q' proc'.btsFiles ↔ p ∈ mergedPayloads q proc.btsFiles := by
  rw [mem_mergedPayloads, mem_mergedPayloads]
  simp only [h.files.mem_iff]

theorem extractSyncAnchors {raw raw' : ProcData} (h : Reordered raw raw')
    (hanchors : TraCR.extractSyncAnchors raw = .ok proc) :
    ∃ proc', TraCR.extractSyncAnchors raw' = .ok proc' ∧ Reordered proc proc' := by
  obtain ⟨first, last, hfirst, hlast, rfl⟩ := extractSyncAnchors_ok hanchors
  have hfiles : fileAnchors raw'.btsFiles = fileAnchors raw.btsFiles := by
    rw [fileAnchors_eq, fileAnchors_eq]
    exact Prod.ext (foldl_min_perm (h.files.filterMap _)) (foldl_max_perm (h.files.filterMap _))
  refine ⟨{ raw' with
    syncStart := if first = uint64Max then 0 else first
    syncEnd := last }, ?_, h.files, ?_⟩
  · simp only [TraCR.extractSyncAnchors, bind_ok_iff, pure_ok_iff]
    rw [hfiles, h.metadata]
    exact ⟨first, hfirst, last, hlast, rfl⟩
  · rw [h.rest]

theorem perfettoTables (h : Reordered proc proc') :
    TraCR.perfettoTables proc' = TraCR.perfettoTables proc :=
  perfettoTables_congr h.pid h.metadata h.syncStart

theorem prvTask (h : Reordered proc proc') (t0 : UInt64) (p : Nat) :
    TraCR.prvTask t0 proc' p = TraCR.prvTask t0 proc p := by
  rw [h.rest]
  rfl

end Reordered

theorem globalT0_reordered {procs procs' : List ProcData}
    (h : List.Forall₂ Reordered procs procs') : globalT0 procs' = globalT0 procs := by
  have hfronts : (rebasedFronts procs').Perm (rebasedFronts procs) := by
    induction h with
    | nil => exact .refl _
    | @cons proc proc' procs procs' hproc _ ih =>
        simp only [rebasedFronts, List.flatMap_cons]
        apply List.Perm.append _ ih
        rw [hproc.syncStart]
        exact hproc.files.filterMap _
  rw [globalT0_eq, globalT0_eq, foldl_min_perm hfronts]

/-! ## Two runs over one proc -/

structure Determined (proc : ProcData) : Prop where
  sorted : ∀ traces ∈ proc.btsFiles, TimeSorted traces
  separated : SeparatedTies proc.btsFiles

def SameTracks (file file' : PerfettoFile) : Prop :=
  ∀ pid tid, slicesOf pid tid file'.traceEvents = slicesOf pid tid file.traceEvents ∧
    flowsOf pid tid file'.traceEvents = flowsOf pid tid file.traceEvents

namespace Reordered

variable {proc proc' : ProcData}

theorem channelEvents (h : Reordered proc proc') (hproc : Determined proc)
    (q q' : HeapTop) (c : Nat) :
    TraCR.channelEvents c (mergedPayloads q' proc'.btsFiles) =
      TraCR.channelEvents c (mergedPayloads q proc.btsFiles) := by
  refine (filter_mergedPayloads_unique hproc.sorted hproc.separated h.files q q'
    (c := c) ?_).symm
  intro p hp
  have hon : p.channelId.toNat = c ∧ p.isFlow = false := by simpa [onChannel] using hp
  exact hon.1

theorem channelFlows (h : Reordered proc proc') (hproc : Determined proc)
    (q q' : HeapTop) (c : Nat) :
    TraCR.channelFlows c (mergedPayloads q' proc'.btsFiles) =
      TraCR.channelFlows c (mergedPayloads q proc.btsFiles) := by
  refine (filter_mergedPayloads_unique hproc.sorted hproc.separated h.files q q'
    (c := c) ?_).symm
  intro p hp
  have hon : p.channelId.toNat = c ∧ p.isFlow = true := by simpa using hp
  exact hon.1

/-- The Perfetto loop over a proc is a function of the projections. -/
theorem perfettoProc (h : Reordered proc proc') (hproc : Determined proc)
    (q q' : HeapTop) (p : Nat) :
    Agree SameTracks (TraCR.perfettoProc q proc p) (TraCR.perfettoProc q' proc' p) := by
  constructor
  · simp only [exists_perfettoProc_iff, h.perfettoTables, intervals,
      h.channelEvents hproc q q', h.mem_merged q q']
  · intro file file' hfile hfile'
    obtain ⟨tables, hexport⟩ := perfettoProc_ok hfile
    obtain ⟨tables', hexport'⟩ := perfettoProc_ok hfile'
    have htables : TraCR.perfettoTables proc = .ok tables' :=
      h.perfettoTables.symm.trans hexport'.tables_of
    obtain rfl : tables = tables' := Except.ok.inj (hexport.tables_of.symm.trans htables)
    intro pid tid
    by_cases hown : pid ≠ tables.pid ∨ tid = 0
    · rw [(hexport.own_track pid tid hown).1, (hexport.own_track pid tid hown).2,
        (hexport'.own_track pid tid hown).1, (hexport'.own_track pid tid hown).2]
      exact ⟨rfl, rfl⟩
    · rw [not_or, not_not] at hown
      obtain ⟨rfl, htid⟩ := hown
      obtain ⟨c, rfl⟩ := Nat.exists_eq_succ_of_ne_zero htid
      constructor
      · have hslices := hexport'.slices c
        rw [intervals_congr (h.channelEvents hproc q q' c)] at hslices
        exact Except.ok.inj (hslices.symm.trans (hexport.slices c))
      · rw [hexport'.flows c, hexport.flows c, h.channelFlows hproc q q' c]

end Reordered

/-! ## Two runs over all procs -/

section Whole

variable {procs procs' : List ProcData}

theorem sameTracks_flatMap {files files' : List PerfettoFile}
    (h : List.Forall₂ SameTracks files files') (pid : Int) (tid : Nat) :
    slicesOf pid tid (files'.flatMap PerfettoFile.traceEvents) =
        slicesOf pid tid (files.flatMap PerfettoFile.traceEvents) ∧
      flowsOf pid tid (files'.flatMap PerfettoFile.traceEvents) =
        flowsOf pid tid (files.flatMap PerfettoFile.traceEvents) := by
  simp only [slicesOf_flatMap, flowsOf_flatMap]
  induction h with
  | nil => exact ⟨rfl, rfl⟩
  | cons hfile _ ih =>
      obtain ⟨hslices, hflows⟩ := hfile pid tid
      simp only [List.flatMap_cons, hslices, hflows, ih.1, ih.2, and_self]

theorem perfetto_agree (h : List.Forall₂ Reordered procs procs')
    (hprocs : ∀ proc ∈ procs, Determined proc) (q q' : HeapTop) (out : OutputFolder) :
    Agree SameTracks (perfetto q out procs) (perfetto q' out procs') := by
  have hboth : List.Forall₂ (fun proc proc' => Determined proc ∧ Reordered proc proc')
      procs procs' := (List.forall₂_and_left _ _).mpr ⟨hprocs, h⟩
  unfold perfetto
  cases out.opens "perfetto.json" with
  | false => simp [Agree]
  | true =>
      simp only [Bool.not_true, Bool.false_eq_true, if_false]
      apply Agree.bind_pure (agree_mapM_zipIdx
        (fun proc proc' p hproc => hproc.2.perfettoProc hproc.1 q q' p) hboth 0)
      intro files files' hfiles pid tid
      exact sameTracks_flatMap hfiles pid tid

theorem tasksOf_reordered (h : List.Forall₂ Reordered procs procs') {t0 : UInt64}
    {tasks : List PrvTask} : TasksOf t0 procs' tasks ↔ TasksOf t0 procs tasks := by
  have heq : procs.zipIdx.mapM (fun x => prvTask t0 x.1 x.2) =
      procs'.zipIdx.mapM (fun x => prvTask t0 x.1 x.2) :=
    mapM_zipIdx_congr (fun _ _ p hproc => (hproc.prvTask t0 p).symm) h 0
  unfold TasksOf
  rw [heq]

theorem mem_prvItems_reordered (h : List.Forall₂ Reordered procs procs') (q q' : HeapTop)
    {t0 : UInt64} {tasks : List PrvTask} (htasks : TasksOf t0 procs tasks)
    {item : PrvTask × Payload} :
    item ∈ prvItems q' procs' tasks ↔ item ∈ prvItems q procs tasks := by
  have hlen := h.length_eq
  rw [((tasksOf_reordered h).mpr htasks).mem_prvItems, htasks.mem_prvItems]
  apply exists_congr
  intro i
  constructor
  · rintro ⟨hi, hi', htask, hp⟩
    have hproc := h.get (by omega) hi
    exact ⟨by omega, hi', htask, (hproc.mem_merged q q').mp hp⟩
  · rintro ⟨hi, hi', htask, hp⟩
    have hproc := h.get hi (by omega)
    exact ⟨by omega, hi', htask, (hproc.mem_merged q q').mpr hp⟩

theorem exists_createTracrPrv_iff {ch : ParaverChoices} {out : OutputFolder}
    {channels : List Nat} :
    (∃ file, createTracrPrv ch out procs channels = .ok file) ↔
      out.opens "tracr.prv" = true ∧ ∃ tasks, TasksOf (globalT0 procs) procs tasks ∧
        ∀ item ∈ prvItems ch.heapTop procs tasks, ∃ r, itemRecord item = .ok r := by
  unfold createTracrPrv
  cases hopens : out.opens "tracr.prv" with
  | false => simp
  | true =>
      simp only [Bool.not_true, Bool.false_eq_true, if_false, bind_ok_iff,
        foldlM_prvProc_ok_iff, List.zipIdx_map_fst, ← exists_mapM_ok_iff, true_and]
      constructor
      · rintro ⟨_, st, ⟨tasks, rs, htasks, hrs, -⟩, -⟩
        exact ⟨tasks, htasks, rs, hrs⟩
      · rintro ⟨tasks, htasks, rs, hrs⟩
        exact ⟨_, _, ⟨tasks, rs, htasks, hrs, rfl⟩, rfl⟩

theorem createTracrPrv_succeeds_reordered (h : List.Forall₂ Reordered procs procs')
    (ch ch' : ParaverChoices) (out : OutputFolder) (channels : List Nat) :
    (∃ file, createTracrPrv ch out procs channels = .ok file) ↔
      ∃ file, createTracrPrv ch' out procs' channels = .ok file := by
  rw [exists_createTracrPrv_iff, exists_createTracrPrv_iff, globalT0_reordered h]
  apply and_congr_right
  intro _
  apply exists_congr
  intro tasks
  rw [tasksOf_reordered h]
  apply and_congr_right
  intro htasks
  simp only [mem_prvItems_reordered h ch.heapTop ch'.heapTop htasks]

theorem recordsOf_reordered (h : List.Forall₂ Reordered procs procs')
    {ch ch' : ParaverChoices} {out : OutputFolder} {channels : List Nat}
    {file file' : PrvFile} (hfile : createTracrPrv ch out procs channels = .ok file)
    (hfile' : createTracrPrv ch' out procs' channels = .ok file') {i : Nat}
    (hi : i < procs.length) (hproc : Determined procs[i]) (thread : Nat) :
    recordsOf (i + 1) thread file'.events = recordsOf (i + 1) thread file.events := by
  obtain ⟨-, tasks, rs, hexport⟩ := createTracrPrv_ok hfile
  obtain ⟨-, tasks', rs', hexport'⟩ := createTracrPrv_ok hfile'
  have htasks : TasksOf (globalT0 procs) procs tasks' := by
    rw [← tasksOf_reordered h, ← globalT0_reordered h]
    exact hexport'.tasks_of
  obtain rfl : tasks' = tasks := Except.ok.inj (htasks.symm.trans hexport.tasks_of)
  have hi' : i < procs'.length := h.length_eq ▸ hi
  have hreordered : Reordered procs[i] procs'[i] := h.get hi hi'
  rw [hexport.recordsOf_events, hexport'.recordsOf_events]
  cases thread with
  | zero =>
      rw [recordsOf_zero hexport.records_of,
        recordsOf_zero hexport'.records_of]
  | succ c =>
      obtain ⟨hlt, -⟩ := hexport.tasks_of.getElem hi
      have hrecords := hexport.tasks_of.recordsOf_eq hexport.records_of hi hlt c
      have hrecords' := hexport'.tasks_of.recordsOf_eq hexport'.records_of hi' hlt c
      rw [hreordered.channelEvents hproc ch.heapTop ch'.heapTop c] at hrecords'
      rw [Except.ok.inj (hrecords'.symm.trans hrecords)]

end Whole

/-! ## Independence of the order -/

/-- What does not depend on the order of the thread files of the procs and on the
heap.  The part about one proc asks nothing of the other procs. -/
structure SameExports (procs procs' : List ProcData) : Prop where
  length : procs'.length = procs.length
  events : ∀ i (hi : i < procs.length) (hi' : i < procs'.length), Determined procs[i] →
    ∀ q q' c, channelEvents c (mergedPayloads q' procs'[i].btsFiles) =
      channelEvents c (mergedPayloads q procs[i].btsFiles)
  tracks : ∀ i (hi : i < procs.length) (hi' : i < procs'.length), Determined procs[i] →
    ∀ q q' p, Agree SameTracks (perfettoProc q procs[i] p) (perfettoProc q' procs'[i] p)
  records : ∀ i (hi : i < procs.length), Determined procs[i] →
    ∀ ch ch' out channels file file', createTracrPrv ch out procs channels = .ok file →
      createTracrPrv ch' out procs' channels = .ok file' →
        ∀ thread, recordsOf (i + 1) thread file'.events = recordsOf (i + 1) thread file.events
  perfetto : (∀ proc ∈ procs, Determined proc) →
    ∀ q q' out, Agree SameTracks (perfetto q out procs) (perfetto q' out procs')
  prv : ∀ ch ch' out channels, (∃ file, createTracrPrv ch out procs channels = .ok file) ↔
    ∃ file, createTracrPrv ch' out procs' channels = .ok file

theorem sameExports_of_reordered {procs procs' : List ProcData}
    (h : List.Forall₂ Reordered procs procs') : SameExports procs procs' where
  length := h.length_eq.symm
  events _ hi hi' hproc q q' c := (h.get hi hi').channelEvents hproc q q' c
  tracks _ hi hi' hproc q q' p := (h.get hi hi').perfettoProc hproc q q' p
  records _ hi hproc _ _ _ _ _ _ hfile hfile' := recordsOf_reordered h hfile hfile' hi hproc
  perfetto hprocs q q' out := perfetto_agree h hprocs q q' out
  prv ch ch' out channels := createTracrPrv_succeeds_reordered h ch ch' out channels

/-- Listing the thread folders of the procs in any other order leads to the same
procs up to that order, and to the same exports whatever the heaps return. -/
theorem sameExports_of_anchors {raws raws' procs : List ProcData}
    (h : List.Forall₂ Reordered raws raws')
    (hprocs : raws.mapM extractSyncAnchors = .ok procs) :
    ∃ procs', raws'.mapM extractSyncAnchors = .ok procs' ∧ SameExports procs procs' := by
  have hreordered : ∃ procs', raws'.mapM extractSyncAnchors = .ok procs' ∧
      List.Forall₂ Reordered procs procs' := by
    simp only [mapM_ok_iff] at hprocs ⊢
    induction h generalizing procs with
    | nil =>
        cases hprocs
        exact ⟨[], .nil, .nil⟩
    | cons hraw _ ih =>
        cases hprocs with
        | cons hproc hrest =>
            obtain ⟨proc', hproc', hsame⟩ := hraw.extractSyncAnchors hproc
            obtain ⟨procs', hprocs', hsames⟩ := ih hrest
            exact ⟨proc' :: procs', .cons hproc' hprocs', .cons hsame hsames⟩
  obtain ⟨procs', hprocs', hsame⟩ := hreordered
  exact ⟨procs', hprocs', sameExports_of_reordered hsame⟩

def twoThreads : ProcData where
  pid := 7
  metadata := .object [("num_channels", .number 2)]
  btsFiles := [[⟨0, 4, uint32Max, 10⟩, ⟨0, eventIdReset, uint32Max, 20⟩],
    [⟨1, 5, uint32Max, 10⟩, ⟨1, eventIdReset, uint32Max, 15⟩]]
  btsTids := [71, 72]
  syncStart := 0
  syncEnd := 0

def twoThreadsSwapped : ProcData :=
  { twoThreads with btsFiles := twoThreads.btsFiles.reverse, btsTids := [72, 71] }

theorem sameExports_two_threads :
    Determined twoThreads ∧ ∃ procs procs',
      [twoThreads].mapM extractSyncAnchors = .ok procs ∧
        [twoThreadsSwapped].mapM extractSyncAnchors = .ok procs' ∧
          SameExports procs procs' := by
  have hreordered : Reordered twoThreads twoThreadsSwapped :=
    ⟨List.reverse_perm _, rfl⟩
  obtain ⟨procs', hprocs', hsame⟩ := @sameExports_of_anchors _ _
    [{ twoThreads with syncStart := 10, syncEnd := 20 }] (.cons hreordered .nil) rfl
  exact ⟨⟨by decide, by decide⟩, _, procs', rfl, hprocs', hsame⟩

end TraCR
