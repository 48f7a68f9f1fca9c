import TraCR.Lib.Extrema
import TraCR.Proofs.Perfetto
import TraCR.Proofs.Paraver

/-!
# The timeline arithmetic

Every timestamp is rebased by unsigned subtraction, once for Perfetto and twice
for Paraver.  The anchors are folds of `min` and `max` over the ends of the
files; for files in time order they bound every payload, so no subtraction wraps
and the header of `tracr.prv` bounds every record.
-/

namespace TraCR

open TraCR.Lib TraCR.Lib.Extrema TraCR.Lib.Traversal TraCR.Lib.SortedList

theorem time_le_iff {a b : Payload} : a.time ≤ b.time ↔ a.timestamp ≤ b.timestamp :=
  UInt64.le_iff_toNat_le.symm

/-! ## Ends of a file -/

theorem front_le {traces : List Payload} (h : TimeSorted traces) {front p : Payload}
    (hfront : traces.head? = some front) (hp : p ∈ traces) :
    front.timestamp ≤ p.timestamp := by
  obtain ⟨rest, rfl⟩ := List.head?_eq_some_iff.mp hfront
  exact time_le_iff.mp (h.head_le hp)

theorem le_back {traces : List Payload} (h : TimeSorted traces) {back p : Payload}
    (hback : traces.getLast? = some back) (hp : p ∈ traces) :
    p.timestamp ≤ back.timestamp := by
  have hne : traces ≠ [] := List.ne_nil_of_mem hp
  rw [List.getLast?_eq_some_getLast hne, Option.some.injEq] at hback
  exact hback ▸ time_le_iff.mp (h.le_getLast hne hp)

/-! ## Sync anchors -/

theorem fileAnchors_eq (files : List (List Payload)) :
    fileAnchors files =
      ((files.filterMap fun traces => traces.head?.map Payload.timestamp).foldl min uint64Max,
        (files.filterMap fun traces => traces.getLast?.map Payload.timestamp).foldl max 0) := by
  unfold fileAnchors
  change _ =
    ((files.filterMap fun traces => traces.head?.map Payload.timestamp).foldl min
        (uint64Max, (0 : UInt64)).1,
      (files.filterMap fun traces => traces.getLast?.map Payload.timestamp).foldl max
        (uint64Max, (0 : UInt64)).2)
  generalize (uint64Max, (0 : UInt64)) = anchors
  induction files generalizing anchors with
  | nil => rfl
  | cons traces files ih =>
      rw [List.foldl_cons, ih]
      cases traces with
      | nil => rfl
      | cons p traces =>
          rw [List.getLast?_eq_some_getLast (List.cons_ne_nil p traces)]
          rfl

theorem metadataAnchor_ok {metadata : Json} {key : String}
    {combine : UInt64 → UInt64 → UInt64} {anchor r : UInt64}
    (h : metadataAnchor metadata key combine anchor = .ok r) :
    r = anchor ∨ ∃ n, r = combine n anchor := by
  rw [metadataAnchor] at h
  split at h
  · exact .inl (by simpa using h.symm)
  · split at h
    · cases h
    · exact .inr ⟨_, by simpa using h.symm⟩

theorem extractSyncAnchors_ok {raw proc : ProcData} (h : extractSyncAnchors raw = .ok proc) :
    ∃ first last, metadataAnchor raw.metadata "start_time" min
          (fileAnchors raw.btsFiles).1 = .ok first ∧
      metadataAnchor raw.metadata "end_time" max (fileAnchors raw.btsFiles).2 = .ok last ∧
      proc = { raw with
        syncStart := if first = uint64Max then 0 else first
        syncEnd := last } := by
  simp only [extractSyncAnchors, bind_ok_iff, pure_ok_iff] at h
  obtain ⟨first, hfirst, last, hlast, rfl⟩ := h
  exact ⟨first, last, hfirst, hlast, rfl⟩

/-- A proc whose anchors bound the payloads of its sorted files. -/
structure Anchored (proc : ProcData) : Prop where
  sorted : ∀ traces ∈ proc.btsFiles, TimeSorted traces
  start_le : ∀ traces ∈ proc.btsFiles, ∀ p ∈ traces, proc.syncStart ≤ p.timestamp
  le_end : ∀ traces ∈ proc.btsFiles, ∀ p ∈ traces, p.timestamp ≤ proc.syncEnd

theorem anchored_of_extract {raw proc : ProcData} (h : extractSyncAnchors raw = .ok proc)
    (hsorted : ∀ traces ∈ raw.btsFiles, TimeSorted traces) : Anchored proc := by
  obtain ⟨first, last, hfirst, hlast, rfl⟩ := extractSyncAnchors_ok h
  refine ⟨hsorted, ?_, ?_⟩
  · intro traces htraces p hp
    obtain ⟨front, rest, rfl⟩ := List.exists_cons_of_ne_nil (List.ne_nil_of_mem hp)
    have hfront : (front :: rest).head? = some front := rfl
    have hle : first ≤ (fileAnchors raw.btsFiles).1 := by
      rcases metadataAnchor_ok hfirst with rfl | ⟨n, rfl⟩
      · exact le_rfl
      · exact min_le_right _ _
    have hmin : (fileAnchors raw.btsFiles).1 ≤ front.timestamp := by
      rw [fileAnchors_eq]
      exact foldl_min_le (List.mem_filterMap.mpr ⟨_, htraces, by simp [hfront]⟩)
    have hp' : first ≤ p.timestamp :=
      (hle.trans hmin).trans (front_le (hsorted _ htraces) hfront hp)
    show (if first = uint64Max then 0 else first) ≤ p.timestamp
    split
    · exact UInt64.le_iff_toNat_le.mpr (Nat.zero_le _)
    · exact hp'
  · intro traces htraces p hp
    have hback := List.getLast?_eq_some_getLast (List.ne_nil_of_mem hp)
    have hle : (fileAnchors raw.btsFiles).2 ≤ last := by
      rcases metadataAnchor_ok hlast with rfl | ⟨n, rfl⟩
      · exact le_rfl
      · exact le_max_right _ _
    have hmax : (traces.getLast (List.ne_nil_of_mem hp)).timestamp ≤
        (fileAnchors raw.btsFiles).2 := by
      rw [fileAnchors_eq]
      exact le_foldl_max (List.mem_filterMap.mpr ⟨traces, htraces, by simp [hback]⟩)
    exact ((le_back (hsorted traces htraces) hback hp).trans hmax).trans hle

/-! ## The common origin -/

def rebasedFronts (procs : List ProcData) : List UInt64 :=
  procs.flatMap fun proc => proc.btsFiles.filterMap fun traces =>
    traces.head?.map fun front => front.timestamp - proc.syncStart

/-- A loop that looks at the front of every file is a minimum over the fronts. -/
theorem foldl_fronts {round : UInt64 → List Payload → UInt64} {start : UInt64}
    (hnil : ∀ t0, round t0 [] = t0)
    (hcons : ∀ t0 front rest, round t0 (front :: rest) = min t0 (front.timestamp - start))
    (t0 : UInt64) (files : List (List Payload)) :
    files.foldl round t0 =
      (files.filterMap fun traces =>
        traces.head?.map fun front => front.timestamp - start).foldl min t0 := by
  induction files generalizing t0 with
  | nil => rfl
  | cons traces files ih =>
      rw [List.foldl_cons, ih]
      cases traces with
      | nil =>
          rw [hnil]
          rfl
      | cons front rest =>
          rw [hcons]
          rfl

theorem foldl_rebasedFronts {round : ProcData → UInt64 → List Payload → UInt64}
    (hnil : ∀ proc t0, round proc t0 [] = t0)
    (hcons : ∀ proc t0 front rest,
      round proc t0 (front :: rest) = min t0 (front.timestamp - proc.syncStart))
    (t0 : UInt64) (procs : List ProcData) :
    procs.foldl (fun t0 proc => proc.btsFiles.foldl (round proc) t0) t0 =
      (rebasedFronts procs).foldl min t0 := by
  induction procs generalizing t0 with
  | nil => rfl
  | cons proc procs ih =>
      rw [List.foldl_cons, foldl_fronts (hnil proc) (hcons proc), ih, rebasedFronts,
        rebasedFronts, List.flatMap_cons, List.foldl_append]

theorem globalT0_eq (procs : List ProcData) :
    globalT0 procs =
      if (rebasedFronts procs).foldl min uint64Max = uint64Max then 0
      else (rebasedFronts procs).foldl min uint64Max :=
  congrArg (fun t => if t = uint64Max then 0 else t)
    (foldl_rebasedFronts (fun _ _ => rfl) (fun _ _ _ _ => rfl) uint64Max procs)

theorem mem_rebasedFronts {procs : List ProcData} {t : UInt64} :
    t ∈ rebasedFronts procs ↔ ∃ proc ∈ procs, ∃ traces ∈ proc.btsFiles,
      ∃ front, traces.head? = some front ∧ front.timestamp - proc.syncStart = t := by
  simp [rebasedFronts]

variable {procs : List ProcData}

theorem globalT0_le (hanchored : ∀ proc ∈ procs, Anchored proc) {proc : ProcData}
    (hproc : proc ∈ procs) {traces : List Payload} (htraces : traces ∈ proc.btsFiles)
    {p : Payload} (hp : p ∈ traces) :
    globalT0 procs ≤ p.timestamp - proc.syncStart := by
  have h := hanchored proc hproc
  obtain ⟨front, rest, rfl⟩ := List.exists_cons_of_ne_nil (List.ne_nil_of_mem hp)
  have hfront : (front :: rest).head? = some front := rfl
  have hle : front.timestamp - proc.syncStart ≤ p.timestamp - proc.syncStart :=
    sub_le_sub (h.start_le _ htraces front (by simp)) (front_le (h.sorted _ htraces) hfront hp)
  have hmin : (rebasedFronts procs).foldl min uint64Max ≤
      front.timestamp - proc.syncStart :=
    foldl_min_le (mem_rebasedFronts.mpr ⟨proc, hproc, _, htraces, front, hfront, rfl⟩)
  rw [globalT0_eq]
  split
  · exact UInt64.le_iff_toNat_le.mpr (Nat.zero_le _)
  · exact hmin.trans hle

theorem exists_at_globalT0 (hanchored : ∀ proc ∈ procs, Anchored proc)
    (hbelow : ∀ proc ∈ procs, ∀ traces ∈ proc.btsFiles, ∀ p ∈ traces,
      p.timestamp < uint64Max)
    (hsome : ∃ proc ∈ procs, ∃ traces ∈ proc.btsFiles, traces ≠ []) :
    ∃ proc ∈ procs, ∃ traces ∈ proc.btsFiles, ∃ p ∈ traces,
      p.timestamp - proc.syncStart - globalT0 procs = 0 := by
  obtain ⟨proc, hproc, traces, htraces, hne⟩ := hsome
  obtain ⟨front, rest, rfl⟩ := List.exists_cons_of_ne_nil hne
  have h := hanchored proc hproc
  have hlt : (rebasedFronts procs).foldl min uint64Max < uint64Max := by
    have hmin : (rebasedFronts procs).foldl min uint64Max ≤
        front.timestamp - proc.syncStart :=
      foldl_min_le (mem_rebasedFronts.mpr ⟨proc, hproc, _, htraces, front, rfl, rfl⟩)
    have hstart := h.start_le _ htraces front (by simp)
    have hfront := hbelow proc hproc _ htraces front (by simp)
    rw [UInt64.le_iff_toNat_le, toNat_sub hstart] at hmin
    rw [UInt64.lt_iff_toNat_lt] at hfront ⊢
    omega
  rcases foldl_min_mem uint64Max (rebasedFronts procs) with heq | hmem
  · exact absurd heq (ne_of_lt hlt)
  · obtain ⟨proc', hproc', traces', htraces', p, hp, hvalue⟩ := mem_rebasedFronts.mp hmem
    obtain ⟨rest', rfl⟩ := List.head?_eq_some_iff.mp hp
    refine ⟨proc', hproc', _, htraces', p, by simp, ?_⟩
    rw [globalT0_eq, if_neg (ne_of_lt hlt), hvalue]
    exact UInt64.sub_self _

/-! ## The header -/

theorem totalTime_eq (procs : List ProcData) (t0 : UInt64) :
    totalTime procs t0 =
      let total := (procs.filterMap fun proc =>
        if proc.syncStart < proc.syncEnd then some (proc.syncEnd - proc.syncStart)
        else none).foldl max 0
      if t0 < total then total - t0 else 0 := by
  have hfold : ∀ total : UInt64,
      procs.foldl (fun total proc =>
        if proc.syncStart < proc.syncEnd then max total (proc.syncEnd - proc.syncStart)
        else total) total =
      (procs.filterMap fun proc =>
        if proc.syncStart < proc.syncEnd then some (proc.syncEnd - proc.syncStart)
        else none).foldl max total := by
    induction procs with
    | nil => exact fun _ => rfl
    | cons proc procs ih =>
        intro total
        rw [List.foldl_cons, ih]
        by_cases hlt : proc.syncStart < proc.syncEnd <;> simp [hlt]
  simp only [totalTime, hfold]

theorem rebased_le_totalTime (hanchored : ∀ proc ∈ procs, Anchored proc) {proc : ProcData}
    (hproc : proc ∈ procs) {traces : List Payload} (htraces : traces ∈ proc.btsFiles)
    {p : Payload} (hp : p ∈ traces) :
    p.timestamp - proc.syncStart - globalT0 procs ≤ totalTime procs (globalT0 procs) := by
  have h := hanchored proc hproc
  have hstart := h.start_le _ htraces p hp
  have hend := h.le_end _ htraces p hp
  have ht0 := globalT0_le hanchored hproc htraces hp
  have hspan := sub_le_sub hstart hend
  rw [totalTime_eq]
  generalize hlist : (procs.filterMap fun proc =>
    if proc.syncStart < proc.syncEnd then some (proc.syncEnd - proc.syncStart)
    else none) = spans
  have htotal : proc.syncEnd - proc.syncStart ≤ spans.foldl max 0 := by
    by_cases hlt : proc.syncStart < proc.syncEnd
    · apply le_foldl_max
      rw [← hlist]
      exact List.mem_filterMap.mpr ⟨proc, hproc, by simp [hlt]⟩
    · have heq : proc.syncEnd = proc.syncStart :=
        le_antisymm (not_lt.mp hlt) (hstart.trans hend)
      rw [heq, UInt64.sub_self]
      exact UInt64.le_iff_toNat_le.mpr (Nat.zero_le _)
  have hle := hspan.trans htotal
  simp only
  split
  · exact sub_le_sub ht0 hle
  next hge =>
    -- the payload sits at the origin of an empty timeline
    have heq : p.timestamp - proc.syncStart = globalT0 procs :=
      le_antisymm (hle.trans (not_lt.mp hge)) ht0
    rw [heq, UInt64.sub_self]

/-- In stream order the payload that ends an interval is not earlier than the one
that `perfetto` remembers for its channel. -/
theorem prevPayload_le {q : HeapTop} {proc : ProcData}
    (hsorted : ∀ traces ∈ proc.btsFiles, TimeSorted traces) {tables : PerfettoTables}
    {pre post : List Payload} {p : Payload}
    (hsplit : mergedPayloads q proc.btsFiles = pre ++ p :: post)
    {obs : List (List TraceEvent)} {prevs : PrevPayloads tables}
    (hrun : emitPayloads tables pre = .ok (obs, prevs))
    (hlt : p.channelId.toNat < tables.numChannels.toNat)
    (hopen : prevs[p.channelId.toNat].isReset = false) :
    prevs[p.channelId.toNat].timestamp ≤ p.timestamp := by
  have hstream := mergedPayloads_sorted (q := q) hsorted
  rw [hsplit] at hstream
  have hlast := emit_prevPayloads hrun hlt
  have hmem := List.getLast_mem (List.cons_ne_nil (initialPrevPayloads tables)[p.channelId.toNat]
    (channelEvents p.channelId.toNat pre))
  rw [← hlast] at hmem
  rcases List.mem_cons.mp hmem with heq | hmem
  · rw [heq] at hopen
    simp [initialPrevPayloads, Payload.isReset] at hopen
  · exact time_le_iff.mp ((List.pairwise_append.mp hstream).2.2 _
      (mem_channelEvents.mp hmem).1 p (by simp))

/-- No subtraction of the exporters wraps, the header of `tracr.prv` bounds every
record, and the timeline starts at a payload. -/
structure SafeTimeline (procs : List ProcData) : Prop where
  start_le : ∀ proc ∈ procs, ∀ traces ∈ proc.btsFiles, ∀ p ∈ traces,
    proc.syncStart ≤ p.timestamp
  le_end : ∀ proc ∈ procs, ∀ traces ∈ proc.btsFiles, ∀ p ∈ traces,
    p.timestamp ≤ proc.syncEnd
  origin_le : ∀ proc ∈ procs, ∀ traces ∈ proc.btsFiles, ∀ p ∈ traces,
    globalT0 procs ≤ p.timestamp - proc.syncStart
  /-- The duration of a slice, wherever the loop of `perfetto` has got to. -/
  prev_le : ∀ proc ∈ procs, ∀ (q : HeapTop) (tables : PerfettoTables)
    (pre post : List Payload) (p : Payload) (obs : List (List TraceEvent))
    (prevs : PrevPayloads tables) (hlt : p.channelId.toNat < tables.numChannels.toNat),
    mergedPayloads q proc.btsFiles = pre ++ p :: post →
    emitPayloads tables pre = .ok (obs, prevs) →
    prevs[p.channelId.toNat].isReset = false →
    prevs[p.channelId.toNat].timestamp ≤ p.timestamp
  event_le : ∀ (ch : ParaverChoices) (out : OutputFolder) (channels : List Nat)
    (file : PrvFile), createTracrPrv ch out procs channels = .ok file →
    ∀ r ∈ file.events, r.timestamp ≤ file.totalTime
  comm_le : ∀ (ch : ParaverChoices) (out : OutputFolder) (channels : List Nat)
    (file : PrvFile), createTracrPrv ch out procs channels = .ok file →
    ∀ comm ∈ file.comms,
      comm.send.timestamp ≤ file.totalTime ∧ comm.recv.timestamp ≤ file.totalTime
  origin : (∃ proc ∈ procs, ∃ traces ∈ proc.btsFiles, traces ≠ []) →
    ∃ proc ∈ procs, ∃ traces ∈ proc.btsFiles, ∃ p ∈ traces,
      p.timestamp - proc.syncStart - globalT0 procs = 0

theorem normalize_le {q : HeapTop} {tasks : List PrvTask}
    (hanchored : ∀ proc ∈ procs, Anchored proc)
    (htasks : TasksOf (globalT0 procs) procs tasks) {item : PrvTask × Payload}
    (hitem : item ∈ prvItems q procs tasks) :
    item.1.normalize item.2 ≤ totalTime procs (globalT0 procs) := by
  obtain ⟨i, hi, hi', htask, hp⟩ := htasks.mem_prvItems.mp hitem
  obtain ⟨_, _, _, hstart, hglobal⟩ := htasks.getElem hi
  obtain ⟨traces, htraces, hmem⟩ := mem_mergedPayloads.mp hp
  rw [PrvTask.normalize, htask, hstart, hglobal]
  exact rebased_le_totalTime hanchored (List.getElem_mem hi) htraces hmem

/-- The timeline of procs that went through `extract_sync_anchors` is safe. -/
theorem safeTimeline_of_extract {raw procs : List ProcData}
    (hanchors : raw.mapM extractSyncAnchors = .ok procs)
    (hsorted : ∀ proc ∈ raw, ∀ traces ∈ proc.btsFiles, TimeSorted traces)
    (hbelow : ∀ proc ∈ raw, ∀ traces ∈ proc.btsFiles, ∀ p ∈ traces,
      p.timestamp < uint64Max) : SafeTimeline procs := by
  have hanchored : ∀ proc ∈ procs, Anchored proc := by
    intro proc hproc
    obtain ⟨raw', hraw, hextract⟩ := exists_of_mem_mapM hanchors hproc
    exact anchored_of_extract hextract (hsorted raw' hraw)
  have hbelow' : ∀ proc ∈ procs, ∀ traces ∈ proc.btsFiles, ∀ p ∈ traces,
      p.timestamp < uint64Max := by
    intro proc hproc
    obtain ⟨raw', hraw, hextract⟩ := exists_of_mem_mapM hanchors hproc
    obtain ⟨first, last, -, -, rfl⟩ := extractSyncAnchors_ok hextract
    exact hbelow raw' hraw
  constructor
  case start_le => exact fun proc hproc => (hanchored proc hproc).start_le
  case le_end => exact fun proc hproc => (hanchored proc hproc).le_end
  case origin_le =>
    exact fun proc hproc traces htraces p hp => globalT0_le hanchored hproc htraces hp
  case prev_le =>
    exact fun proc hproc q tables pre post p obs prevs hlt hsplit hrun hopen =>
      prevPayload_le (hanchored proc hproc).sorted hsplit hrun hlt hopen
  case event_le =>
    intro ch out channels file hfile r hr
    obtain ⟨-, tasks, rs, hexport⟩ := createTracrPrv_ok hfile
    rw [hexport.events_eq, mem_stableSort] at hr
    obtain ⟨item, hitem, hrecord⟩ :=
      exists_of_mem_mapM (mapM_taskRecord hexport.records_of) hr
    rw [(taskRecord_ok_iff.mp hrecord).2.1, hexport.total_time]
    exact normalize_le hanchored hexport.tasks_of (List.mem_filter.mp hitem).1
  case comm_le =>
    intro ch out channels file hfile comm hcomm
    obtain ⟨-, tasks, rs, hexport⟩ := createTracrPrv_ok hfile
    obtain ⟨item, hitem, -, hsend⟩ := hexport.comm_send comm hcomm
    obtain ⟨item', hitem', -, hrecv⟩ := hexport.comm_recv comm hcomm
    rw [hsend, hrecv, hexport.total_time]
    exact ⟨normalize_le hanchored hexport.tasks_of hitem,
      normalize_le hanchored hexport.tasks_of hitem'⟩
  case origin => exact exists_at_globalT0 hanchored hbelow'

/-- A start anchor before the first payload, no end anchor, an empty second file. -/
theorem safeTimeline_of_extract_anchored :
    SafeTimeline [{
      pid := 7
      metadata := .object [("end_time", .null), ("start_time", .number 5)]
      btsFiles := [[⟨0, 0, uint32Max, 7⟩, ⟨0, eventIdReset, uint32Max, 9⟩], []]
      btsTids := [7, 8]
      syncStart := 5
      syncEnd := 9 }] :=
  @safeTimeline_of_extract [{
      pid := 7
      metadata := .object [("end_time", .null), ("start_time", .number 5)]
      btsFiles := [[⟨0, 0, uint32Max, 7⟩, ⟨0, eventIdReset, uint32Max, 9⟩], []]
      btsTids := [7, 8]
      syncStart := 0
      syncEnd := 0 }] _ rfl (by decide) (by decide)

end TraCR
