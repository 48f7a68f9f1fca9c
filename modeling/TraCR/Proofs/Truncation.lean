import TraCR.Proofs.Folder

/-!
# Trace files cut short

A process that dies while it flushes leaves the first bytes of its trace files.  The
loader reads the whole records among them.  Where no two threads record on one channel,
what the export then shows on a channel is the beginning of what the whole files show:
nothing is invented, moved or renamed, and the interval that was cut is left out.
-/

namespace TraCR

open TraCR.Lib TraCR.Lib.Traversal TraCR.Lib.Pairs TraCR.Lib.Interleaving TraCR.Lib.Records

/-! ## Torn folders -/

/-- The second file is what a write of the first one left. -/
inductive TornFile : File (List UInt8) → File (List UInt8) → Prop where
  | whole (file : File (List UInt8)) : TornFile file file
  | cut {bytes bytes' : List UInt8} : bytes' <+: bytes →
      TornFile (.contents bytes) (.contents bytes')

structure TornThread (entry entry' : ThreadEntry) : Prop where
  name : entry'.name = entry.name
  isDirectory : entry'.isDirectory = entry.isDirectory
  tracesBts : TornFile entry.tracesBts entry'.tracesBts

/-- Any of the trace files of a proc folder may be cut, each at a byte of its own. -/
structure TornFolder (entry entry' : ProcEntry) : Prop where
  name : entry'.name = entry.name
  isDirectory : entry'.isDirectory = entry.isDirectory
  metadata : entry'.metadata = entry.metadata
  threads : List.Forall₂ TornThread entry.threads entry'.threads

theorem loadThreadFolder_torn {entry entry' : ThreadEntry} {loaded : Option (List Payload × Int)}
    (h : TornThread entry entry') (hload : loadThreadFolder entry = .ok loaded) :
    ∃ loaded', loadThreadFolder entry' = .ok loaded' ∧
      Option.Rel (fun x x' => x'.1 <+: x.1 ∧ x'.2 = x.2) loaded loaded' := by
  obtain ⟨name, isDirectory, tracesBts⟩ := entry
  obtain ⟨name', isDirectory', tracesBts'⟩ := entry'
  obtain ⟨hname, hdirectory, hfile⟩ := h
  obtain rfl : name' = name := hname
  obtain rfl : isDirectory' = isDirectory := hdirectory
  unfold loadThreadFolder at hload ⊢
  simp only at hload ⊢ hfile
  split at hload
  next hskip =>
    obtain rfl := Except.ok.inj hload
    exact ⟨none, if_pos hskip, .none⟩
  next hthread =>
    rw [if_neg hthread]
    cases hfile with
    | whole =>
        refine ⟨loaded, hload, ?_⟩
        cases loaded with
        | none => exact .none
        | some x => exact .some ⟨List.prefix_rfl, rfl⟩
    | @cut bytes bytes' hbytes =>
        cases htid : Decimal.stoi (afterDot name') with
        | none => simp [htid] at hload
        | some tid =>
            simp only [htid, Except.ok.injEq] at hload ⊢
            subst hload
            exact ⟨_, rfl, .some ⟨readRecords_isPrefix hbytes, rfl⟩⟩

theorem loadThreadTraces_torn {entries entries' : List ThreadEntry}
    (htorn : List.Forall₂ TornThread entries entries') {files : List (List Payload)}
    {tids : List Int} (h : loadThreadTraces entries = .ok (files, tids)) :
    ∃ files', loadThreadTraces entries' = .ok (files', tids) ∧
      List.Forall₂ (fun traces traces' => traces' <+: traces) files files' := by
  obtain ⟨loaded, hloaded, rfl, rfl⟩ := loadThreadTraces_ok_iff.mp h
  obtain ⟨loaded', hloaded', hrel⟩ :=
    @mapM_forall₂ _ _ _ loadThreadFolder _ _ _ _ loadThreadFolder
      (fun _ _ _ => loadThreadFolder_torn) _ _ htorn _ hloaded
  have hkept : List.Forall₂ (fun x x' => x'.1 <+: x.1 ∧ x'.2 = x.2)
      loaded.reduceOption loaded'.reduceOption :=
    List.rel_filterMap (fun _ _ hx => hx) hrel
  have hfiles : List.Forall₂ (fun traces traces' => traces' <+: traces)
      (loaded.reduceOption.map Prod.fst) (loaded'.reduceOption.map Prod.fst) := by
    rw [List.forall₂_map_left_iff, List.forall₂_map_right_iff]
    exact hkept.imp fun _ _ hx => hx.1
  have htids : loaded'.reduceOption.map Prod.snd = loaded.reduceOption.map Prod.snd := by
    rw [← List.forall₂_eq_eq_eq, List.forall₂_map_left_iff, List.forall₂_map_right_iff]
    exact hkept.flip.imp fun _ _ hx => hx.2
  exact ⟨_, loadThreadTraces_ok_iff.mpr ⟨loaded', hloaded', rfl, htids⟩, hfiles⟩

/-! ## Channels of one writer -/

/-- No file but the one at position `i` has payloads of channel `c`. -/
def WritesAlone (files : List (List Payload)) (i c : Nat) : Prop :=
  ∀ j, j ≠ i → ∀ p ∈ nthSource files j, p.channelId.toNat ≠ c

section WritesAlone

variable {files files' : List (List Payload)} {i c : Nat}

theorem nthSource_isPrefix
    (h : List.Forall₂ (fun traces traces' => traces' <+: traces) files files') (j : Nat) :
    nthSource files' j <+: nthSource files j := by
  induction h generalizing j with
  | nil => exact List.prefix_rfl
  | cons hhead _ ih =>
      cases j with
      | zero => exact hhead
      | succ j => exact ih j

theorem WritesAlone.torn (h : WritesAlone files i c)
    (hfiles : List.Forall₂ (fun traces traces' => traces' <+: traces) files files') :
    WritesAlone files' i c :=
  fun j hj p hp => h j hj p ((nthSource_isPrefix hfiles j).subset hp)

theorem WritesAlone.channelEvents (h : WritesAlone files i c) (q : HeapTop) :
    TraCR.channelEvents c (mergedPayloads q files) =
      TraCR.channelEvents c (nthSource files i) := by
  refine (mergedStream_interleaves q files).filter_eq_single (onChannel c) ?_
  intro j hj p hp
  simp [onChannel, h j hj p hp]

theorem WritesAlone.channelFlows (h : WritesAlone files i c) (q : HeapTop) :
    TraCR.channelFlows c (mergedPayloads q files) =
      TraCR.channelFlows c (nthSource files i) := by
  refine (mergedStream_interleaves q files).filter_eq_single _ ?_
  intro j hj p hp
  simp [h j hj p hp]

/-- The channel loses its last intervals and no others. -/
theorem WritesAlone.intervals_isPrefix (h : WritesAlone files i c)
    (hfiles : List.Forall₂ (fun traces traces' => traces' <+: traces) files files')
    (q q' : HeapTop) :
    intervals c (mergedPayloads q' files') <+: intervals c (mergedPayloads q files) := by
  rw [intervals_congr (h.channelEvents q), intervals_congr ((h.torn hfiles).channelEvents q')]
  exact (consecutive_isPrefix ((nthSource_isPrefix hfiles i).filter _)).filter _

theorem WritesAlone.channelFlows_isPrefix (h : WritesAlone files i c)
    (hfiles : List.Forall₂ (fun traces traces' => traces' <+: traces) files files')
    (q q' : HeapTop) :
    TraCR.channelFlows c (mergedPayloads q' files') <+:
      TraCR.channelFlows c (mergedPayloads q files) := by
  rw [h.channelFlows q, (h.torn hfiles).channelFlows q']
  exact (nthSource_isPrefix hfiles i).filter _

end WritesAlone

/-! ## The export of a torn folder -/

structure TornProc (proc proc' : ProcData) : Prop where
  pid : proc'.pid = proc.pid
  metadata : proc'.metadata = proc.metadata
  btsFiles : List.Forall₂ (fun traces traces' => traces' <+: traces) proc.btsFiles proc'.btsFiles

theorem TornProc.mem {proc proc' : ProcData} (h : TornProc proc proc') {traces' : List Payload}
    (htraces : traces' ∈ proc'.btsFiles) : ∃ traces ∈ proc.btsFiles, traces' <+: traces := by
  obtain ⟨i, hi, rfl⟩ := List.getElem_of_mem htraces
  obtain ⟨hlength, hget⟩ := List.forall₂_iff_get.mp h.btsFiles
  exact ⟨_, List.getElem_mem (hlength ▸ hi), hget i (hlength ▸ hi) hi⟩

theorem loadsAs_torn {entry entry' : ProcEntry} (htorn : TornFolder entry entry')
    {proc : ProcData} (hload : LoadsAs entry proc) :
    ∃ proc', LoadsAs entry' proc' ∧ TornProc proc proc' := by
  obtain ⟨hfolder, pid, metadata, files, tids, hpid, hmetadata, hfiles, hanchors⟩ :=
    loadsAs_iff.mp hload
  obtain ⟨files', hfiles', hbegin⟩ := loadThreadTraces_torn htorn.threads hfiles
  obtain ⟨proc', hproc'⟩ := @exists_extractSyncAnchors _ _
    ⟨pid, metadata, files', tids, 0, 0⟩ hanchors rfl
  refine ⟨proc', loadsAs_iff.mpr ⟨?_, pid, metadata, files', tids, ?_, ?_, hfiles', hproc'⟩, ?_⟩
  · rw [isProcFolder, htorn.isDirectory, htorn.name]
    exact hfolder
  · rw [htorn.name, hpid]
  · rw [htorn.metadata, hmetadata]
  · obtain ⟨first, last, -, -, rfl⟩ := extractSyncAnchors_ok hanchors
    obtain ⟨first', last', -, -, rfl⟩ := extractSyncAnchors_ok hproc'
    exact ⟨rfl, rfl, hbegin⟩

theorem LoadsAs.syncStart_eq {entry : ProcEntry} {proc : ProcData} (hload : LoadsAs entry proc)
    {n : Int} (hstart : proc.metadata.field? "start_time" = some (.number n))
    (hle : ∀ traces ∈ proc.btsFiles, ∀ p ∈ traces, castUInt64 n ≤ p.timestamp) :
    proc.syncStart = if castUInt64 n = uint64Max then 0 else castUInt64 n := by
  obtain ⟨-, pid, metadata, files, tids, -, -, -, hanchors⟩ := loadsAs_iff.mp hload
  obtain ⟨first, last, -, -, rfl⟩ := extractSyncAnchors_ok hanchors
  exact syncStart_eq_of_start_time hanchors hstart hle

/-- On every track, the first slices and the first arrow ends. -/
def Begins (events events' : List TraceEvent) : Prop :=
  ∀ pid tid, slicesOf pid tid events' <+: slicesOf pid tid events ∧
    flowsOf pid tid events' <+: flowsOf pid tid events

/-- Where every channel has one writer and the start time is that of the proc, a folder
that exports still does when its trace files are torn but not its metadata, and shows the
beginning of each track. -/
theorem begins_of_torn {entry entry' : ProcEntry} (htorn : TornFolder entry entry')
    {proc : ProcData} (hload : LoadsAs entry proc) {n : Int}
    (hstart : proc.metadata.field? "start_time" = some (.number n))
    (hle : ∀ traces ∈ proc.btsFiles, ∀ p ∈ traces, castUInt64 n ≤ p.timestamp)
    (halone : ∀ c, ∃ i, WritesAlone proc.btsFiles i c) {q : HeapTop} {p : Nat}
    {file : PerfettoFile} (hexport : perfettoProc q proc p = .ok file) :
    ∃ proc', LoadsAs entry' proc' ∧ ∀ q', ∃ file', perfettoProc q' proc' p = .ok file' ∧
      Begins file.traceEvents file'.traceEvents := by
  obtain ⟨proc', hload', hproc⟩ := loadsAs_torn htorn hload
  refine ⟨proc', hload', fun q' => ?_⟩
  have hle' : ∀ traces' ∈ proc'.btsFiles, ∀ a ∈ traces', castUInt64 n ≤ a.timestamp := by
    intro traces' htraces' a ha
    obtain ⟨traces, htraces, hbegin⟩ := hproc.mem htraces'
    exact hle traces htraces a (hbegin.subset ha)
  have hsync : proc'.syncStart = proc.syncStart := by
    rw [hload.syncStart_eq hstart hle,
      hload'.syncStart_eq (by rw [hproc.metadata]; exact hstart) hle']
  have htables : perfettoTables proc' = perfettoTables proc :=
    perfettoTables_congr hproc.pid hproc.metadata hsync
  have hintervals : ∀ c, intervals c (mergedPayloads q' proc'.btsFiles) <+:
      intervals c (mergedPayloads q proc.btsFiles) := by
    intro c
    obtain ⟨i, hi⟩ := halone c
    exact hi.intervals_isPrefix hproc.btsFiles q q'
  obtain ⟨tables, hfile⟩ := perfettoProc_ok hexport
  obtain ⟨tables₁, htables₁, hmetadata, hchannel, hclose⟩ :=
    exists_perfettoProc_iff.mp ⟨file, hexport⟩
  obtain ⟨file', hexport'⟩ : ∃ file', perfettoProc q' proc' p = .ok file' := by
    refine exists_perfettoProc_iff.mpr
      ⟨tables₁, htables.trans htables₁, hmetadata, ?_, ?_⟩
    · intro a ha
      obtain ⟨traces', htraces', ha⟩ := mem_mergedPayloads.mp ha
      obtain ⟨traces, htraces, hbegin⟩ := hproc.mem htraces'
      exact hchannel a (mem_mergedPayloads.mpr ⟨traces, htraces, hbegin.subset ha⟩)
    · exact fun c x hx => hclose c x ((hintervals c).subset hx)
  obtain ⟨tables', hfile'⟩ := perfettoProc_ok hexport'
  obtain rfl : tables = tables' :=
    Except.ok.inj ((htables.trans hfile.tables_of).symm.trans hfile'.tables_of)
  refine ⟨file', hexport', fun pid tid => ?_⟩
  by_cases hother : pid ≠ tables.pid ∨ tid = 0
  · rw [(hfile'.own_track pid tid hother).1, (hfile'.own_track pid tid hother).2]
    constructor <;> exact List.nil_prefix
  · obtain ⟨rfl, htid⟩ : pid = tables.pid ∧ tid ≠ 0 := by simpa using hother
    obtain ⟨c, rfl⟩ := Nat.exists_eq_succ_of_ne_zero htid
    obtain ⟨i, hi⟩ := halone c
    constructor
    · obtain ⟨slices, hslices, hbegin⟩ := mapM_isPrefix (hfile.slices c) (hintervals c)
      obtain rfl := Except.ok.inj (hslices.symm.trans (hfile'.slices c))
      exact hbegin
    · rw [hfile.flows c, hfile'.flows c]
      exact (hi.channelFlows_isPrefix hproc.btsFiles q q').map _

def twoThreadFolder (bytes bytes' : List UInt8) : ProcEntry where
  name := "proc.7"
  isDirectory := true
  metadata := .contents (some (.object [("num_channels", .number 2), ("start_time", .number 5)]))
  threads := [threadEntry "thread.7" bytes, threadEntry "thread.8" bytes']

def threeOnZero : List Payload :=
  [⟨0, 4, uint32Max, 10⟩, ⟨0, 5, uint32Max, 30⟩, ⟨0, eventIdReset, uint32Max, 60⟩]

def threeOnOne : List Payload :=
  [⟨1, 6, uint32Max, 20⟩, ⟨1, 7, 3, 25⟩, ⟨1, eventIdReset, uint32Max, 40⟩]

/-- The second file loses its reset and half of a set. -/
theorem begins_of_torn_twoThreads :
    ∃ file file' proc',
      LoadsAs (twoThreadFolder (payloadBytes threeOnZero)
          ((payloadBytes threeOnOne).take 24)) proc' ∧
        perfettoProc .first proc' 0 = .ok file' ∧
          Begins (PerfettoFile.traceEvents file) file'.traceEvents := by
  have hcut : (payloadBytes threeOnOne).take 24 <+: payloadBytes threeOnOne :=
    List.take_prefix _ _
  have htorn : TornFolder (twoThreadFolder (payloadBytes threeOnZero) (payloadBytes threeOnOne))
      (twoThreadFolder (payloadBytes threeOnZero) ((payloadBytes threeOnOne).take 24)) :=
    ⟨rfl, rfl, rfl, .cons ⟨rfl, rfl, .whole _⟩ (.cons ⟨rfl, rfl, .cut hcut⟩ .nil)⟩
  have halone : ∀ c, ∃ i, WritesAlone [threeOnZero, threeOnOne] i c := by
    intro c
    by_cases hc : c = 0
    · refine ⟨0, fun j hj p hp => ?_⟩
      match j with
      | 1 =>
          have hone : ∀ p ∈ threeOnOne, p.channelId.toNat ≠ 0 := by decide
          exact hc ▸ hone p hp
      | j + 2 => cases hp
    · refine ⟨1, fun j hj p hp => ?_⟩
      match j with
      | 0 =>
          have hzero : ∀ p ∈ threeOnZero, p.channelId.toNat = 0 := by decide
          exact hzero p hp ▸ Ne.symm hc
      | j + 2 => cases hp
  obtain ⟨proc', hload', hfile'⟩ := @begins_of_torn _ _ htorn
    ⟨7, _, [threeOnZero, threeOnOne], [7, 8], 5, 60⟩ rfl 5 rfl (by decide) halone .first 0 _ rfl
  obtain ⟨file', hexport', hbegins⟩ := hfile' .first
  exact ⟨_, file', proc', hload', hexport', hbegins⟩

end TraCR
