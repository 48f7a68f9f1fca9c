import TraCR.Proofs.Folder

/-!
# Full buffers cut, they do not invent

A buffer that is full drops its oldest or its newest payloads.  The file then holds
a suffix or a prefix of what the thread stored, and the intervals of a suffix are
those that open in it, the intervals of a prefix those that close in it.
-/

namespace TraCR

open TraCR.Lib TraCR.Lib.Traversal TraCR.Lib.Pairs TraCR.Lib.Extrema
open TraCRThread (tracesFile)

/-! ## Intervals with positions -/

def openPairsAt (c : Nat) (items : List (Payload × Nat)) :
    List ((Payload × Nat) × (Payload × Nat)) :=
  (consecutive (items.filter fun x => onChannel c x.1)).filter fun x => !x.1.1.isReset

/-- The intervals of channel `c`, both ends with their position among the payloads. -/
def intervalsAt (c : Nat) (payloads : List Payload) :
    List ((Payload × Nat) × (Payload × Nat)) :=
  openPairsAt c payloads.zipIdx

def ends (x : (Payload × Nat) × (Payload × Nat)) : Payload × Payload := (x.1.1, x.2.1)

theorem map_ends_openPairsAt (c : Nat) (items : List (Payload × Nat)) :
    (openPairsAt c items).map ends = intervals c (items.map Prod.fst) := by
  unfold openPairsAt intervals openPairs channelEvents
  rw [List.filter_map, consecutive_map, List.filter_map]
  rfl

theorem map_ends_intervalsAt (c : Nat) (payloads : List Payload) :
    (intervalsAt c payloads).map ends = intervals c payloads := by
  rw [intervalsAt, map_ends_openPairsAt, List.zipIdx_map_fst]

section Cut

variable (c : Nat) (l₁ l₂ : List Payload)

/-- The intervals that open in a suffix are the intervals of the suffix. -/
theorem intervalsAt_suffix :
    ((intervalsAt c (l₁ ++ l₂)).filter fun x => l₁.length ≤ x.1.2).map ends =
      intervals c l₂ := by
  have hfirst : ∀ x ∈ l₁.zipIdx.filter (fun x => onChannel c x.1),
      decide (l₁.length ≤ x.2) = false := by
    rintro ⟨p, i⟩ hmem
    have hlt := (List.mem_zipIdx (List.mem_filter.mp hmem).1).2.1
    simpa using hlt
  have hsecond : ∀ x ∈ (l₂.zipIdx l₁.length).filter (fun x => onChannel c x.1),
      decide (l₁.length ≤ x.2) = true := by
    rintro ⟨p, i⟩ hmem
    have hle := (List.mem_zipIdx (List.mem_filter.mp hmem).1).1
    simpa using hle
  have hcut := consecutive_suffix _ hfirst hsecond
  calc ((intervalsAt c (l₁ ++ l₂)).filter fun x => l₁.length ≤ x.1.2).map ends
      = (openPairsAt c (l₂.zipIdx l₁.length)).map ends := by
        unfold intervalsAt openPairsAt
        rw [List.zipIdx_append, List.filter_append, Nat.zero_add, List.filter_comm, hcut]
    _ = intervals c l₂ := by rw [map_ends_openPairsAt, List.zipIdx_map_fst]

theorem intervalsAt_prefix :
    ((intervalsAt c (l₁ ++ l₂)).filter fun x => x.2.2 < l₁.length).map ends =
      intervals c l₁ := by
  have hfirst : ∀ x ∈ l₁.zipIdx.filter (fun x => onChannel c x.1),
      decide (x.2 < l₁.length) = true := by
    rintro ⟨p, i⟩ hmem
    have hlt := (List.mem_zipIdx (List.mem_filter.mp hmem).1).2.1
    simpa using hlt
  have hsecond : ∀ x ∈ (l₂.zipIdx l₁.length).filter (fun x => onChannel c x.1),
      decide (x.2 < l₁.length) = false := by
    rintro ⟨p, i⟩ hmem
    have hle := (List.mem_zipIdx (List.mem_filter.mp hmem).1).1
    simpa using hle
  have hcut := consecutive_prefix _ hfirst hsecond
  calc ((intervalsAt c (l₁ ++ l₂)).filter fun x => x.2.2 < l₁.length).map ends
      = (openPairsAt c l₁.zipIdx).map ends := by
        unfold intervalsAt openPairsAt
        rw [List.zipIdx_append, List.filter_append, Nat.zero_add, List.filter_comm, hcut]
    _ = intervals c l₁ := by rw [map_ends_openPairsAt, List.zipIdx_map_fst]

end Cut

/-! ## Storing and flushing -/

def storeAll (b : Build) (memory : Nat → Payload) (tid : Pid) (stored : List Payload) :
    Except Stop (TraCRThread b) :=
  stored.foldlM TraCRThread.storeTrace (TraCRThread.create b memory tid)

variable {b : Build}

theorem tracesFile_flushTraces {th : TraCRThread b} {stored : List Payload}
    (hrecorded : TraCRThread.Recorded th stored) {disk disk' : Disk} {path : ProcPath}
    {fault : Fault} (habsent : tracesFile disk path th.tid = none)
    (hflush : th.flushTraces disk path fault = .ok disk') :
    tracesFile disk' path th.tid =
      if stored = [] then none else some (payloadBytes (TraCRThread.kept b stored)) := by
  rcases TraCRThread.flushTraces_ok hflush with ⟨hzero, rfl⟩ | ⟨hpos, dir, -, rfl⟩
  · rw [if_pos (hrecorded.traceIdx_eq_zero_iff.mp hzero), habsent]
  · rw [if_neg fun hnil => hpos (hrecorded.traceIdx_eq_zero_iff.mpr hnil)]
    simp [TraCRThread.tracesFile, hrecorded.written_eq]

/-- What a loader reads from the file a flush leaves is what the policy keeps. -/
theorem readPayloads_tracesFile {th : TraCRThread b} {stored : List Payload}
    (hrecorded : TraCRThread.Recorded th stored) {disk disk' : Disk} {path : ProcPath}
    {fault : Fault} (habsent : tracesFile disk path th.tid = none)
    (hflush : th.flushTraces disk path fault = .ok disk') :
    ((tracesFile disk' path th.tid).map readPayloads).getD [] = TraCRThread.kept b stored := by
  rw [tracesFile_flushTraces hrecorded habsent hflush]
  split
  next hnil =>
    rw [hnil]
    unfold TraCRThread.kept
    cases b.policy <;> simp
  · simp

/-! ## The folder around the file -/

/-- What a proc folder holds besides the file of one thread: metadata with a start
time no payload precedes, as the library writes it, and the files of other threads,
which do not change channel `c`. -/
structure RestOfFolder (dir : ProcDir) (tid : Pid) (start : UInt64) (c : Nat) : Prop where
  absent : dir.threads.lookup (TraCRThread.folderName tid) = none
  started : ∃ metadata, dir.metadata = some metadata ∧
    metadata.field? "start_time" = some (.number start.toNat)
  start_le : ∀ e ∈ dir.threads.entries, ∀ p ∈ readPayloads e.2, start ≤ p.timestamp
  sole : ∀ e ∈ dir.threads.entries, ∀ p ∈ readPayloads e.2, onChannel c p = false

section Loaded

variable {dir : ProcDir} {tid : Pid} {start : UInt64} {c : Nat} {folder : String}
  {file : Option (List UInt8)} {entry : ProcEntry} {proc : ProcData}

theorem RestOfFolder.intervals (hrest : RestOfFolder dir tid start c)
    (hload : LoadedWith folder dir file proc) (q : HeapTop) :
    TraCR.intervals c (mergedPayloads q proc.btsFiles) =
      TraCR.intervals c ((file.map readPayloads).getD []) := by
  apply intervals_congr
  obtain ⟨others, tids, hothers, hperm⟩ := hload.files
  have hsole : ∀ traces ∈ others, ∀ p ∈ traces, onChannel c p = false := by
    intro traces htraces p hp
    obtain ⟨e, he, rfl⟩ := mem_of_loadThreadTraces_entries hothers htraces
    exact hrest.sole e he p hp
  cases file with
  | none => exact channelEvents_eq_nil fun traces htraces => hsole traces (hperm.mem_iff.mp htraces)
  | some bytes => exact channelEvents_of_perm hperm hsole

theorem RestOfFolder.syncStart (hrest : RestOfFolder dir tid start c)
    (hload : LoadedWith folder dir file proc)
    (hfile : ∀ bytes ∈ file, ∀ p ∈ readPayloads bytes, start ≤ p.timestamp) :
    proc.syncStart = if start = uint64Max then 0 else start := by
  obtain ⟨others, tids, hothers, hperm⟩ := hload.files
  obtain ⟨metadata, hmetadata, hstart⟩ := hrest.started
  obtain ⟨raw, hanchors, hraw, hfiles⟩ := hload.anchors
  obtain rfl : metadata = proc.metadata :=
    Option.some.inj (hmetadata.symm.trans hload.metadata)
  have hvalue := syncStart_eq_of_start_time hanchors (by rw [hraw]; exact hstart) (by
    rw [hfiles, castUInt64_natCast]
    intro traces htraces p hp
    rcases List.mem_append.mp (hperm.mem_iff.mp htraces) with hown | hother
    · obtain ⟨bytes, hbytes, rfl⟩ : ∃ bytes, file = some bytes ∧ readPayloads bytes = traces := by
        simpa using hown
      exact hfile bytes hbytes p hp
    · obtain ⟨e, he, rfl⟩ := mem_of_loadThreadTraces_entries hothers hother
      exact hrest.start_le e he p hp)
  rwa [castUInt64_natCast] at hvalue

variable {file' : Option (List UInt8)} {proc' : ProcData}

theorem RestOfFolder.perfettoTables_eq (hrest : RestOfFolder dir tid start c)
    (hload : LoadedWith folder dir file proc) (hload' : LoadedWith folder dir file' proc')
    (hfile : ∀ bytes ∈ file, ∀ p ∈ readPayloads bytes, start ≤ p.timestamp)
    (hfile' : ∀ bytes ∈ file', ∀ p ∈ readPayloads bytes, start ≤ p.timestamp) :
    perfettoTables proc' = perfettoTables proc := by
  refine perfettoTables_congr ?_ ?_ ?_
  · exact Option.some.inj (hload'.pid.symm.trans hload.pid)
  · exact Option.some.inj (hload'.metadata.symm.trans hload.metadata)
  · rw [hrest.syncStart hload hfile, hrest.syncStart hload' hfile']

theorem LoadedWith.mem_of_subset (hload : LoadedWith folder dir file proc)
    (hload' : LoadedWith folder dir file' proc')
    (hsub : ∀ bytes' ∈ file', ∀ p ∈ readPayloads bytes', ∃ bytes ∈ file, p ∈ readPayloads bytes)
    {traces : List Payload} (htraces : traces ∈ proc'.btsFiles) {p : Payload} (hp : p ∈ traces) :
    ∃ traces' ∈ proc.btsFiles, p ∈ traces' := by
  obtain ⟨others, tids, hothers, hperm⟩ := hload.files
  obtain ⟨others', tids', hothers', hperm'⟩ := hload'.files
  obtain rfl : others = others' :=
    (Prod.mk.inj (Except.ok.inj (hothers.symm.trans hothers'))).1
  rcases List.mem_append.mp (hperm'.mem_iff.mp htraces) with hown | hother
  · obtain ⟨bytes', hbytes', rfl⟩ : ∃ bytes, file' = some bytes ∧ readPayloads bytes = traces := by
      simpa using hown
    obtain ⟨bytes, hbytes, hmem⟩ := hsub bytes' hbytes' p hp
    refine ⟨readPayloads bytes, hperm.mem_iff.mpr (List.mem_append_left _ ?_), hmem⟩
    rw [Option.mem_def.mp hbytes]
    exact List.mem_singleton_self _
  · exact ⟨traces, hperm.mem_iff.mpr (List.mem_append_right _ hother), hp⟩

theorem LoadedWith.exists_perfettoProc {q q' : HeapTop} {out : PerfettoFile}
    (hload : LoadedWith folder dir file proc) (hload' : LoadedWith folder dir file' proc')
    (hsub : ∀ bytes' ∈ file', ∀ p ∈ readPayloads bytes', ∃ bytes ∈ file, p ∈ readPayloads bytes)
    (htables : perfettoTables proc' = perfettoTables proc) (hlabelled : Labelled proc)
    (hproc : perfettoProc q proc 0 = .ok out) : ∃ out', perfettoProc q' proc' 0 = .ok out' := by
  obtain ⟨tables, htables', ⟨metadata, hmetadata⟩, hchannel, -⟩ :=
    exists_perfettoProc_iff.mp ⟨out, hproc⟩
  refine exists_perfettoProc_of_closable (htables.trans htables') hmetadata ?_ ?_
  · intro traces htraces p hp
    exact hchannel p (mem_mergedPayloads.mpr (hload.mem_of_subset hload' hsub htraces hp))
  · intro traces htraces p hp hset
    obtain ⟨traces', htraces', hp'⟩ := hload.mem_of_subset hload' hsub htraces hp
    exact hlabelled tables htables' traces' htraces' p hp' hset

end Loaded

/-! ## What is cut from the slices -/

/-- `full` shows the intervals of everything stored; `cut` are the slices among them
whose interval opens, or closes, among the payloads that were kept. -/
structure KeepsSlices (b : Build) (c : Nat) (stored : List Payload)
    (full cut : List Slice) : Prop where
  shows : ∃ tables, List.Forall₂ (fun x s => Shows tables (ends x) s)
    (intervalsAt c stored) full
  periodic : b.policy = .periodic →
    cut = (((intervalsAt c stored).zip full).filter fun x =>
      stored.length - min stored.length b.capacity ≤ x.1.1.2).map Prod.snd
  ignoreIfFull : b.policy = .ignoreIfFull →
    cut = (((intervalsAt c stored).zip full).filter fun x =>
      x.1.2.2 < min stored.length b.capacity).map Prod.snd

theorem keepsSlices_of_mapM {tables : PerfettoTables} {c : Nat} {stored : List Payload}
    {full cut : List Slice}
    (hfull : (intervals c stored).mapM (closePair tables) = .ok full)
    (hcut : (intervals c (TraCRThread.kept b stored)).mapM (closePair tables) = .ok cut) :
    KeepsSlices b c stored full cut := by
  rw [← map_ends_intervalsAt, List.mapM_map] at hfull
  have hfilter : ∀ keep : (Payload × Nat) × (Payload × Nat) → Bool,
      ((intervalsAt c stored).filter keep).map ends =
          intervals c (TraCRThread.kept b stored) →
        cut = (((intervalsAt c stored).zip full).filter fun x => keep x.1).map Prod.snd := by
    intro keep hkeep
    have hkept := mapM_filter_zip_ok keep hfull
    rw [← List.mapM_map, hkeep, hcut] at hkept
    exact Except.ok.inj hkept
  refine ⟨⟨tables, ?_⟩, ?_, ?_⟩
  · exact (mapM_ok_iff.mp hfull).imp fun x s hs => closePair_ok_iff.mp hs
  · intro hpolicy
    refine hfilter (fun x => stored.length - min stored.length b.capacity ≤ x.1.2) ?_
    have hsuffix := intervalsAt_suffix c (stored.take (stored.length - b.capacity))
      (stored.drop (stored.length - b.capacity))
    have hlen : (stored.take (stored.length - b.capacity)).length =
        stored.length - min stored.length b.capacity := by
      rw [List.length_take]
      omega
    rw [List.take_append_drop, hlen] at hsuffix
    rw [hsuffix, TraCRThread.kept, hpolicy]
  · intro hpolicy
    refine hfilter (fun x => x.2.2 < min stored.length b.capacity) ?_
    have htaken := intervalsAt_prefix c (stored.take b.capacity) (stored.drop b.capacity)
    rw [List.take_append_drop, List.length_take, Nat.min_comm] at htaken
    rw [htaken, TraCRThread.kept, hpolicy]

/-- The slices on a channel of one thread, from the file a flush leaves and from
everything the thread stored. -/
theorem keepsSlices_of_flush {memory : Nat → Payload} {tid : Pid} {stored : List Payload}
    {th : TraCRThread b} (hstore : storeAll b memory tid stored = .ok th)
    {disk disk' : Disk} {path : ProcPath} {fault : Fault}
    (habsent : tracesFile disk path tid = none)
    (hflush : th.flushTraces disk path fault = .ok disk')
    {dir : ProcDir} {start : UInt64} {c : Nat} (hrest : RestOfFolder dir tid start c)
    (hstart : ∀ p ∈ stored, start ≤ p.timestamp) {folder : String} {entry entry' : ProcEntry}
    (hlists : Lists folder (dir.withFile tid (some (payloadBytes stored))) entry)
    (hlists' : Lists folder (dir.withFile tid (tracesFile disk' path tid)) entry')
    {q : HeapTop} {out : OutputFolder} {full : List Slice}
    (hfull : FolderSlices q out entry c full) :
    (∀ q' out' cut, FolderSlices q' out' entry' c cut → KeepsSlices b c stored full cut) ∧
      ((∀ proc, LoadsAs entry proc → Labelled proc) →
        ∀ q', ∃ cut, FolderSlices q' out entry' c cut) := by
  obtain ⟨hrecorded, htid⟩ := (TraCRThread.recorded_create memory tid).foldlM hstore
  rw [List.nil_append] at hrecorded
  have htid' : th.tid = tid := htid
  subst htid'
  have hkept := readPayloads_tracesFile hrecorded habsent hflush
  have hsub : ∀ bytes' ∈ tracesFile disk' path th.tid, ∀ p ∈ readPayloads bytes',
      ∃ bytes ∈ some (payloadBytes stored), p ∈ readPayloads bytes := by
    intro bytes' hbytes' p hp
    have hmem : p ∈ stored := by
      apply TraCRThread.mem_of_mem_kept
      rw [← hkept, Option.mem_def.mp hbytes']
      exact hp
    exact ⟨_, rfl, by rwa [readPayloads_payloadBytes]⟩
  have hbound : ∀ bytes ∈ some (payloadBytes stored), ∀ p ∈ readPayloads bytes,
      start ≤ p.timestamp := by
    simpa using hstart
  have hbound' : ∀ bytes' ∈ tracesFile disk' path th.tid, ∀ p ∈ readPayloads bytes',
      start ≤ p.timestamp := by
    intro bytes' hbytes' p hp
    obtain ⟨bytes, hbytes, hmem⟩ := hsub bytes' hbytes' p hp
    exact hbound bytes hbytes p hmem
  obtain ⟨proc, file, hload, hperfetto, rfl⟩ := hfull
  obtain ⟨hopens, hproc⟩ := perfetto_singleton_ok_iff.mp hperfetto
  have hloaded := loadedWith_of_loadsAs hrest.absent hlists hload
  -- both folders give the loop the same tables
  have hsame : ∀ proc', LoadsAs entry' proc' →
      LoadedWith folder dir (tracesFile disk' path th.tid) proc' ∧
        perfettoTables proc' = perfettoTables proc := by
    intro proc' hload'
    have hloaded' := loadedWith_of_loadsAs hrest.absent hlists' hload'
    exact ⟨hloaded', hrest.perfettoTables_eq hloaded hloaded' hbound hbound'⟩
  constructor
  · rintro q' out' cut ⟨proc', file', hload', hperfetto', rfl⟩
    obtain ⟨hloaded', htables⟩ := hsame proc' hload'
    obtain ⟨tables, htables', hslices⟩ := perfettoProc_slices hproc
    obtain ⟨tables', htables'', hslices'⟩ :=
      perfettoProc_slices (perfetto_singleton_ok_iff.mp hperfetto').2
    obtain rfl : tables = tables' :=
      Except.ok.inj ((htables.trans htables').symm.trans htables'')
    have hfullSlices := hslices c
    have hcutSlices := hslices' c
    rw [hrest.intervals hloaded] at hfullSlices
    rw [hrest.intervals hloaded', hkept] at hcutSlices
    exact keepsSlices_of_mapM (by simpa using hfullSlices) hcutSlices
  · intro hlabelled q'
    obtain ⟨hfolder, -⟩ := loadsAs_iff.mp hload
    rw [isProcFolder, hlists.name, hlists.isDirectory, Bool.true_and] at hfolder
    obtain ⟨proc', hload'⟩ := hloaded.exists_loadsAs hfolder hrest.absent hlists'
    obtain ⟨hloaded', htables⟩ := hsame proc' hload'
    obtain ⟨file', hfile'⟩ :=
      hloaded.exists_perfettoProc hloaded' hsub htables (hlabelled proc hload) hproc
    exact ⟨_, proc', file', hload', perfetto_singleton_ok_iff.mpr ⟨hopens, hfile'⟩, rfl⟩

def ringOfTwo : Build := ⟨2, by decide, .periodic, false⟩

def threePayloads : List Payload :=
  [⟨0, 4, uint32Max, 10⟩, ⟨0, 5, uint32Max, 20⟩, ⟨0, eventIdReset, uint32Max, 30⟩]

def otherThread : ProcDir where
  metadata := some (.object [("num_channels", .number 2), ("start_time", .number 5)])
  threads := AList.singleton "thread.8" (payloadBytes [⟨1, 6, uint32Max, 12⟩])

def ProcDir.listing (dir : ProcDir) (folder : String) : ProcEntry :=
  ⟨folder, true, dir.metadataFile, dir.entries⟩

theorem keepsSlices_ring_of_two :
    KeepsSlices ringOfTwo 0 threePayloads
      [⟨"4", 5, 10, 3, 1, none, none⟩, ⟨"5", 15, 10, 3, 1, none, none⟩]
      [⟨"5", 15, 10, 3, 1, none, none⟩] := by
  have hrest : RestOfFolder otherThread ⟨7, by decide⟩ 5 0 := by
    refine ⟨rfl, ⟨_, rfl, rfl⟩, ?_, ?_⟩ <;> decide
  have hlists : ∀ dir : ProcDir, Lists "proc.3" dir (dir.listing "proc.3") :=
    fun _ => ⟨rfl, rfl, rfl, .refl _⟩
  have hfull : FolderSlices .first ⟨true, fun _ => true⟩
      ((otherThread.withFile ⟨7, by decide⟩ (some (payloadBytes threePayloads))).listing "proc.3") 0
      [⟨"4", 5, 10, 3, 1, none, none⟩, ⟨"5", 15, 10, 3, 1, none, none⟩] :=
    ⟨_, _, (rfl : loadProcFolder _ = .ok (some _)), rfl, rfl⟩
  exact (@keepsSlices_of_flush ringOfTwo (fun _ => ⟨0, 0, 0, 0⟩) ⟨7, by decide⟩
    threePayloads _ rfl (AList.singleton ⟨"tracr/", "proc.3"⟩ ⟨none, ∅⟩) _
    ⟨"tracr/", "proc.3"⟩ .none rfl rfl otherThread 5 0 hrest (by decide) "proc.3" _ _
    (hlists _) (hlists _) .first ⟨true, fun _ => true⟩ _ hfull).1
    .first ⟨true, fun _ => true⟩ _ ⟨_, _, (rfl : loadProcFolder _ = .ok (some _)), rfl, rfl⟩

end TraCR
