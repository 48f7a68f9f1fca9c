import TraCR.Engine.Thread
import TraCR.Proofs.ProcOrder
import TraCR.Proofs.Timeline

/-!
# Reading back a written folder

What the library leaves on disk, as the directory listing the postprocessor walks.
`metadata.json` is an entry that is not a directory; every thread folder is one
that is loaded.  The iterator yields the entries in any order.
-/

namespace TraCR

open TraCR.Lib TraCR.Lib.Traversal TraCR.Lib.Extrema TraCR.Lib.Interleaving
open TraCRThread (toList_folderName)

/-! ## Listings -/

def threadEntry (name : String) (bytes : List UInt8) : ThreadEntry where
  name := name
  isDirectory := true
  tracesBts := .contents bytes

def ProcDir.entries (dir : ProcDir) : List ThreadEntry :=
  (dir.metadata.map fun _ => ThreadEntry.mk "metadata.json" false .missing).toList ++
    dir.threads.entries.map fun e => threadEntry e.1 e.2

def ProcDir.metadataFile (dir : ProcDir) : File (Option Json) :=
  match dir.metadata with
  | none => .missing
  | some metadata => .contents (some metadata)

structure Lists (folder : String) (dir : ProcDir) (entry : ProcEntry) : Prop where
  name : entry.name = folder
  isDirectory : entry.isDirectory = true
  metadata : entry.metadata = dir.metadataFile
  threads : entry.threads.Perm dir.entries

/-! ## Thread folders -/

theorem loadThreadFolder_folderName (tid : Pid) (bytes : List UInt8) :
    loadThreadFolder (threadEntry (TraCRThread.folderName tid) bytes) =
      .ok (some (readPayloads bytes, (tid.val : Int))) := by
  have hstarts : startsWith (TraCRThread.folderName tid) "thread." = true := by
    rw [startsWith, toList_folderName]
    exact List.isPrefixOf_iff_prefix.mpr (List.prefix_append _ _)
  have hdot : afterDot (TraCRThread.folderName tid) = (toString tid.val).toList := by
    rw [afterDot, toList_folderName]
    rfl
  unfold loadThreadFolder
  simp only [threadEntry, hstarts, hdot, Decimal.stoi_toString tid.2.2, Bool.not_true,
    Bool.or_false, Bool.false_eq_true, if_false]

theorem loadThreadTraces_ok_iff {entries : List ThreadEntry} {files : List (List Payload)}
    {tids : List Int} :
    loadThreadTraces entries = .ok (files, tids) ↔
      ∃ loaded, entries.mapM loadThreadFolder = .ok loaded ∧
        loaded.reduceOption.map Prod.fst = files ∧
          loaded.reduceOption.map Prod.snd = tids := by
  simp only [loadThreadTraces, bind_ok_iff, pure_ok_iff, Prod.mk.injEq]

theorem loadThreadTraces_perm {entries entries' : List ThreadEntry}
    {files : List (List Payload)} {tids : List Int}
    (h : loadThreadTraces entries = .ok (files, tids)) (hperm : entries'.Perm entries) :
    ∃ files' tids', loadThreadTraces entries' = .ok (files', tids') ∧ files'.Perm files := by
  obtain ⟨loaded, hloaded, rfl, rfl⟩ := loadThreadTraces_ok_iff.mp h
  obtain ⟨loaded', hloaded', hsame⟩ := mapM_perm hloaded hperm
  exact ⟨_, _, loadThreadTraces_ok_iff.mpr ⟨loaded', hloaded', rfl, rfl⟩,
    (hsame.filterMap id).map Prod.fst⟩

theorem loadThreadTraces_cons {tid : Pid} {bytes : List UInt8} {entries : List ThreadEntry}
    {files : List (List Payload)} {tids : List Int} :
    loadThreadTraces (threadEntry (TraCRThread.folderName tid) bytes :: entries) =
        .ok (files, tids) ↔
      ∃ files' tids', loadThreadTraces entries = .ok (files', tids') ∧
        files = readPayloads bytes :: files' ∧ tids = (tid.val : Int) :: tids' := by
  simp only [loadThreadTraces_ok_iff, List.mapM_cons, bind_ok_iff, pure_ok_iff,
    loadThreadFolder_folderName, Except.ok.injEq]
  constructor
  · rintro ⟨_, ⟨_, rfl, loaded, hloaded, rfl⟩, rfl, rfl⟩
    exact ⟨_, _, ⟨loaded, hloaded, rfl, rfl⟩, by simp, by simp⟩
  · rintro ⟨_, _, ⟨loaded, hloaded, rfl, rfl⟩, rfl, rfl⟩
    exact ⟨_, ⟨_, rfl, loaded, hloaded, rfl⟩, by simp, by simp⟩

theorem mem_of_loadThreadTraces {entries : List ThreadEntry} {files : List (List Payload)}
    {tids : List Int} (h : loadThreadTraces entries = .ok (files, tids))
    {traces : List Payload} (htraces : traces ∈ files) :
    ∃ entry ∈ entries, ∃ bytes, entry.tracesBts = .contents bytes ∧
      traces = readPayloads bytes := by
  obtain ⟨loaded, hloaded, rfl, -⟩ := loadThreadTraces_ok_iff.mp h
  obtain ⟨⟨traces', tid⟩, hmem, rfl⟩ := List.mem_map.mp htraces
  obtain ⟨entry, hentry, hload⟩ :=
    exists_of_mem_mapM hloaded (List.reduceOption_mem_iff.mp hmem)
  refine ⟨entry, hentry, ?_⟩
  unfold loadThreadFolder at hload
  split at hload
  · cases hload
  · split at hload
    · cases hload
    · cases hload
    next bytes hbytes =>
      split at hload
      · cases hload
      · exact ⟨bytes, hbytes, ((Prod.mk.inj (Option.some.inj (Except.ok.inj hload))).1).symm⟩

theorem mem_of_loadThreadTraces_entries {dir : ProcDir} {files : List (List Payload)}
    {tids : List Int} (h : loadThreadTraces dir.entries = .ok (files, tids))
    {traces : List Payload} (htraces : traces ∈ files) :
    ∃ e ∈ dir.threads.entries, traces = readPayloads e.2 := by
  obtain ⟨entry, hentry, bytes, hbytes, rfl⟩ := mem_of_loadThreadTraces h htraces
  rcases List.mem_append.mp hentry with hmetadata | hthread
  · obtain ⟨-, rfl⟩ : (∃ metadata, dir.metadata = some metadata) ∧
        ThreadEntry.mk "metadata.json" false .missing = entry := by
      simpa using hmetadata
    cases hbytes
  · obtain ⟨e, he, rfl⟩ := List.mem_map.mp hthread
    obtain rfl : e.2 = bytes := by simpa [threadEntry] using hbytes
    exact ⟨e, he, rfl⟩

theorem exists_loadThreadTraces_entries {dir : ProcDir}
    (hnames : ∀ e ∈ dir.threads.entries, ∃ tid, e.1 = TraCRThread.folderName tid) :
    ∃ tids, loadThreadTraces dir.entries =
      .ok (dir.threads.entries.map fun e => readPayloads e.2, tids) := by
  have hthreads : ∀ entries : List (Sigma fun _ : String => List UInt8),
      (∀ e ∈ entries, ∃ tid, e.1 = TraCRThread.folderName tid) →
        ∃ tids, loadThreadTraces (entries.map fun e => threadEntry e.1 e.2) =
          .ok (entries.map fun e => readPayloads e.2, tids) := by
    intro entries
    induction entries with
    | nil => exact fun _ => ⟨[], rfl⟩
    | cons e entries ih =>
        intro hentries
        obtain ⟨tid, htid⟩ := hentries e List.mem_cons_self
        obtain ⟨tids, htids⟩ := ih fun e' he' => hentries e' (List.mem_cons_of_mem _ he')
        refine ⟨(tid.val : Int) :: tids, ?_⟩
        rw [List.map_cons, htid]
        exact loadThreadTraces_cons.mpr ⟨_, tids, htids, rfl, rfl⟩
  obtain ⟨tids, htids⟩ := hthreads _ hnames
  refine ⟨tids, ?_⟩
  unfold ProcDir.entries
  cases dir.metadata with
  | none => exact htids
  | some metadata =>
      -- `metadata.json` is skipped
      obtain ⟨loaded, hloaded, hfiles, hids⟩ := loadThreadTraces_ok_iff.mp htids
      refine loadThreadTraces_ok_iff.mpr ⟨none :: loaded, ?_, hfiles, hids⟩
      simp only [Option.map_some, Option.toList_some, List.singleton_append, List.mapM_cons,
        bind_ok_iff, pure_ok_iff]
      exact ⟨none, rfl, loaded, hloaded, rfl⟩

/-! ## The folder of a proc -/

theorem toList_procFolder (pid : Pid) :
    s!"proc.{pid}".toList = "proc.".toList ++ (toString pid.val).toList := by
  simp [toString]

theorem stoi_afterDot_procFolder (pid : Pid) :
    startsWith s!"proc.{pid}" "proc." = true ∧
      Decimal.stoi (afterDot s!"proc.{pid}") = some (pid.val : Int) := by
  constructor
  · rw [startsWith, toList_procFolder]
    exact List.isPrefixOf_iff_prefix.mpr (List.prefix_append _ _)
  · have hdot : afterDot s!"proc.{pid}" = (toString pid.val).toList := by
      rw [afterDot, toList_procFolder]
      rfl
    rw [hdot]
    exact Decimal.stoi_toString pid.2.2

/-! ## One file in a folder -/

def ProcDir.withFile (dir : ProcDir) (tid : Pid) (file : Option (List UInt8)) : ProcDir :=
  match file with
  | none => dir
  | some bytes =>
      { dir with threads := dir.threads.insert (TraCRThread.folderName tid) bytes }

section WithFile

variable {dir : ProcDir} {tid : Pid} {file : Option (List UInt8)} {folder : String}
  {entry : ProcEntry} {proc : ProcData}

theorem entries_withFile
    (habsent : dir.threads.lookup (TraCRThread.folderName tid) = none) :
    (dir.withFile tid file).entries.Perm
      ((file.map (threadEntry (TraCRThread.folderName tid))).toList ++ dir.entries) := by
  cases file with
  | none => exact .refl _
  | some bytes =>
      unfold ProcDir.entries ProcDir.withFile
      rw [AList.entries_insert_of_notMem (AList.lookup_eq_none.mp habsent), List.map_cons]
      exact List.perm_middle

theorem loadThreadTraces_withFile {entries : List ThreadEntry} {files : List (List Payload)}
    {tids : List Int} :
    loadThreadTraces
        ((file.map (threadEntry (TraCRThread.folderName tid))).toList ++ entries) =
        .ok (files, tids) ↔
      ∃ others tids', loadThreadTraces entries = .ok (others, tids') ∧
        files = (file.map readPayloads).toList ++ others ∧
          tids = (file.map fun _ => (tid.val : Int)).toList ++ tids' := by
  cases file with
  | none =>
      constructor
      · exact fun h => ⟨files, tids, h, rfl, rfl⟩
      · rintro ⟨others, tids', h, rfl, rfl⟩
        exact h
  | some bytes => exact loadThreadTraces_cons

/-- What is loaded of a folder with a file put in. -/
structure LoadedWith (folder : String) (dir : ProcDir) (file : Option (List UInt8))
    (proc : ProcData) : Prop where
  pid : Decimal.stoi (afterDot folder) = some proc.pid
  metadata : dir.metadata = some proc.metadata
  files : ∃ others tids, loadThreadTraces dir.entries = .ok (others, tids) ∧
    proc.btsFiles.Perm ((file.map readPayloads).toList ++ others)
  anchors : ∃ raw, extractSyncAnchors raw = .ok proc ∧ raw.metadata = proc.metadata ∧
    raw.btsFiles = proc.btsFiles

theorem loadedWith_of_loadsAs
    (habsent : dir.threads.lookup (TraCRThread.folderName tid) = none)
    (hlists : Lists folder (dir.withFile tid file) entry) (hload : LoadsAs entry proc) :
    LoadedWith folder dir file proc := by
  obtain ⟨-, pid, metadata, files, tids, hpid, hmetadata, hfiles, hanchors⟩ :=
    loadsAs_iff.mp hload
  obtain ⟨first, last, -, -, hproc⟩ := extractSyncAnchors_ok hanchors
  have hlisting : entry.threads.Perm _ := hlists.threads.trans (entries_withFile habsent)
  obtain ⟨files', tids', hfiles', hperm⟩ := loadThreadTraces_perm hfiles hlisting.symm
  obtain ⟨others, _, hothers, rfl, -⟩ := loadThreadTraces_withFile.mp hfiles'
  have hdir : (dir.withFile tid file).metadata = dir.metadata := by cases file <;> rfl
  refine ⟨?_, ?_, ⟨others, _, hothers, ?_⟩, ⟨_, hanchors, ?_, ?_⟩⟩
  · rw [← hlists.name, hpid, hproc]
  · rw [hlists.metadata, ProcDir.metadataFile, hdir] at hmetadata
    cases hmeta : dir.metadata with
    | none => simp [hmeta, loadMetadataJson] at hmetadata
    | some metadata' =>
        obtain rfl : metadata' = metadata := by simpa [hmeta, loadMetadataJson] using hmetadata
        rw [hproc]
  · rw [hproc]
    exact hperm.symm
  · rw [hproc]
  · rw [hproc]

/-- Whether the anchors can be extracted depends on the metadata alone. -/
theorem exists_extractSyncAnchors {raw raw' : ProcData} (h : extractSyncAnchors raw = .ok proc)
    (hmetadata : raw'.metadata = raw.metadata) :
    ∃ proc', extractSyncAnchors raw' = .ok proc' := by
  have hanchor : ∀ {key : String} {combine : UInt64 → UInt64 → UInt64} {anchor r : UInt64},
      metadataAnchor raw.metadata key combine anchor = .ok r →
        ∀ anchor', ∃ r', metadataAnchor raw.metadata key combine anchor' = .ok r' := by
    intro key combine anchor r hr anchor'
    unfold metadataAnchor at hr ⊢
    split at hr
    · exact ⟨_, rfl⟩
    · split at hr
      · cases hr
      · exact ⟨_, rfl⟩
  obtain ⟨first, last, hfirst, hlast, -⟩ := extractSyncAnchors_ok h
  obtain ⟨first', hfirst'⟩ := hanchor hfirst (fileAnchors raw'.btsFiles).1
  obtain ⟨last', hlast'⟩ := hanchor hlast (fileAnchors raw'.btsFiles).2
  simp only [extractSyncAnchors, bind_ok_iff, pure_ok_iff, hmetadata]
  exact ⟨_, first', hfirst', last', hlast', rfl⟩

theorem LoadedWith.exists_loadsAs (hload : LoadedWith folder dir file proc)
    (hfolder : startsWith folder "proc." = true) {file' : Option (List UInt8)}
    (habsent : dir.threads.lookup (TraCRThread.folderName tid) = none)
    (hlists : Lists folder (dir.withFile tid file') entry) :
    ∃ proc', LoadsAs entry proc' := by
  obtain ⟨others, tids, hothers, -⟩ := hload.files
  obtain ⟨files, tids', hfiles, -⟩ := loadThreadTraces_perm
    (loadThreadTraces_withFile.mpr ⟨others, tids, hothers, rfl, rfl⟩)
    (hlists.threads.trans (entries_withFile habsent))
  obtain ⟨raw, hanchors, hraw, -⟩ := hload.anchors
  obtain ⟨proc', hproc'⟩ := @exists_extractSyncAnchors _ raw
    ⟨proc.pid, proc.metadata, files, tids', 0, 0⟩ hanchors hraw.symm
  have hdir : (dir.withFile tid file').metadata = some proc.metadata := by
    cases file' <;> exact hload.metadata
  refine ⟨proc', loadsAs_iff.mpr ⟨?_, proc.pid, proc.metadata, files, tids', ?_, ?_, hfiles,
    hproc'⟩⟩
  · simp [isProcFolder, hlists.isDirectory, hlists.name, hfolder]
  · rw [hlists.name, hload.pid]
  · rw [hlists.metadata, ProcDir.metadataFile, hdir]
    rfl

end WithFile

/-! ## Proc folders -/

/-- The slices on a channel in the file written for a folder with this proc alone. -/
def FolderSlices (q : HeapTop) (out : OutputFolder) (entry : ProcEntry) (c : Nat)
    (slices : List Slice) : Prop :=
  ∃ proc file, LoadsAs entry proc ∧ perfetto q out [proc] = .ok file ∧
    slices = slicesOf (perfettoPid proc.pid) (c + 1) file.traceEvents

def Labelled (proc : ProcData) : Prop :=
  ∀ tables, perfettoTables proc = .ok tables →
    ∀ traces ∈ proc.btsFiles, ∀ p ∈ traces, p.isSet = true → Closable tables p

theorem perfetto_singleton_ok_iff {q : HeapTop} {out : OutputFolder} {proc : ProcData}
    {file : PerfettoFile} :
    perfetto q out [proc] = .ok file ↔
      out.opens "perfetto.json" = true ∧ perfettoProc q proc 0 = .ok file := by
  unfold perfetto
  cases hopens : out.opens "perfetto.json" with
  | false => simp
  | true =>
      simp only [Bool.not_true, Bool.false_eq_true, if_false, bind_ok_iff, pure_ok_iff,
        List.zipIdx_cons, List.zipIdx_nil, List.mapM_cons, List.mapM_nil, true_and]
      constructor
      · rintro ⟨_, ⟨file₀, hfile₀, _, rfl, rfl⟩, rfl⟩
        simpa using hfile₀
      · intro hfile
        exact ⟨[file], ⟨file, hfile, [], rfl, rfl⟩, by simp⟩

/-! ## Channels of one thread -/

/-- A channel that only one file writes shows what that file holds. -/
theorem channelEvents_of_perm {q : HeapTop} {files others : List (List Payload)}
    {own : List Payload} (hperm : files.Perm (own :: others)) {c : Nat}
    (hothers : ∀ traces ∈ others, ∀ p ∈ traces, onChannel c p = false) :
    channelEvents c (mergedPayloads q files) = channelEvents c own := by
  have hmem : own ∈ files := hperm.mem_iff.mpr (List.mem_cons_self ..)
  obtain ⟨i, hi, rfl⟩ := List.mem_iff_getElem.mp hmem
  have hrest : (files.eraseIdx i).Perm others :=
    ((List.getElem_cons_eraseIdx_perm hi).trans hperm).cons_inv
  have hsingle := (mergedStream_interleaves q files).filter_eq_single (onChannel c)
    (i := i) (by
      intro j hj p hp
      by_cases hlt : j < files.length
      · rw [nthSource_of_lt hlt] at hp
        refine hothers _ (hrest.mem_iff.mp ?_) p hp
        exact List.mem_eraseIdx_iff_getElem.mpr ⟨j, hlt, hj, rfl⟩
      · rw [nthSource_of_le (Nat.le_of_not_lt hlt)] at hp
        cases hp)
  rw [nthSource_of_lt hi] at hsingle
  exact hsingle

theorem channelEvents_eq_nil {q : HeapTop} {files : List (List Payload)} {c : Nat}
    (hfiles : ∀ traces ∈ files, ∀ p ∈ traces, onChannel c p = false) :
    channelEvents c (mergedPayloads q files) = [] := by
  rw [channelEvents, List.filter_eq_nil_iff]
  intro p hp
  obtain ⟨traces, htraces, hmem⟩ := mem_mergedPayloads.mp hp
  simp [hfiles traces htraces p hmem]

/-! ## The start anchor -/

theorem syncStart_eq_of_start_time {raw proc : ProcData}
    (h : extractSyncAnchors raw = .ok proc) {n : Int}
    (hstart : raw.metadata.field? "start_time" = some (.number n))
    (hle : ∀ traces ∈ raw.btsFiles, ∀ p ∈ traces, castUInt64 n ≤ p.timestamp) :
    proc.syncStart = if castUInt64 n = uint64Max then 0 else castUInt64 n := by
  obtain ⟨first, last, hfirst, -, rfl⟩ := extractSyncAnchors_ok h
  have hfronts : castUInt64 n ≤ (fileAnchors raw.btsFiles).1 := by
    rw [fileAnchors_eq]
    refine le_foldl_min_iff.mpr ⟨UInt64.le_iff_toNat_le.mpr (by
      have hlt := (castUInt64 n).toNat_lt
      change _ ≤ 18446744073709551615
      omega), ?_⟩
    intro t ht
    obtain ⟨traces, htraces, hhead⟩ := List.mem_filterMap.mp ht
    obtain ⟨front, hfront, rfl⟩ := Option.map_eq_some_iff.mp hhead
    exact hle traces htraces front (List.mem_of_mem_head? hfront)
  have hvalue : min (castUInt64 n) (fileAnchors raw.btsFiles).1 = first := by
    simpa [metadataAnchor, hstart, Json.asNumber?] using hfirst
  rw [min_eq_left hfronts] at hvalue
  rw [hvalue]

end TraCR
