import TraCR.Proofs.Timeline

/-!
# Both exports show the same intervals

`perfetto` runs a machine per channel over one proc, `create_tracr_prv` writes
point records for all procs, rebases them and sorts them.  Read as neighbouring
pairs, the records of a track are the slices of the channel, as long as the slices
of a process come from one proc.
-/

namespace TraCR

open TraCR.Lib TraCR.Lib.Traversal TraCR.Lib.Pairs TraCR.Lib.Extrema TraCR.Lib.SortedList

/-- The intervals the records of a track stand for: neighbours of which the first
is not the record of a reset. -/
def recordIntervals (records : List PrvRecord) : List (PrvRecord × PrvRecord) :=
  (consecutive records).filter fun x => x.1.colorId ≠ "0"

/-- The records and the slice describe one interval: the slice starts and ends `t0`
later, and one event id has the label of the slice and the colour of the record. -/
structure Matches (t0 : UInt64) (labels colours : List String) (x : PrvRecord × PrvRecord)
    (s : Slice) : Prop where
  start : s.ts.toNat = x.1.time + t0.toNat
  stop : s.ts.toNat + s.dur.toNat = x.2.time + t0.toNat
  dur : x.1.time + s.dur.toNat = x.2.time
  marker : ∃ e : Nat, labels[e]? = some s.name ∧ colours[e]? = some x.1.colorId

def SameIntervals (procs : List ProcData) (file : PerfettoFile) (prv : PrvFile) : Prop :=
  ∀ i (_ : i < procs.length) (c : Nat), ∃ labels colours,
    perfettoMarkerLabels procs[i].metadata = .ok labels ∧
      extractMarkerColorIds procs[i].metadata = .ok colours ∧
        List.Forall₂ (Matches (globalT0 procs) labels colours)
          (recordIntervals (recordsOf (i + 1) (c + 1) prv.events))
          (slicesOf (perfettoPid procs[i].pid) (c + 1) file.traceEvents)

/-- The labels and the colours cover the events of the proc, none of them has the
colour of a reset, and the channels are below the channel count. -/
structure Coloured (proc : ProcData) (labels colours : List String) : Prop where
  labels_of : perfettoMarkerLabels proc.metadata = .ok labels
  colours_of : extractMarkerColorIds proc.metadata = .ok colours
  declared : ∀ traces ∈ proc.btsFiles, ∀ p ∈ traces, ChannelDeclared proc p
  label_lt : ∀ traces ∈ proc.btsFiles, ∀ p ∈ traces, p.isSet = true →
    p.eventId.toNat < labels.length
  colour_lt : ∀ traces ∈ proc.btsFiles, ∀ p ∈ traces, p.isSet = true →
    p.eventId.toNat < colours.length
  colour_ne : ∀ traces ∈ proc.btsFiles, ∀ p ∈ traces, p.isSet = true →
    colours[p.eventId.toNat]? ≠ some "0"

/-- A proc whose process another proc shares shows no interval. -/
def OwnProcess (q : HeapTop) (procs : List ProcData) : Prop :=
  ∀ i j (_ : i < procs.length) (_ : j < procs.length), i ≠ j →
    perfettoPid procs[i].pid = perfettoPid procs[j].pid →
      ∀ c, intervals c (mergedPayloads q procs[i].btsFiles) = []

/-! ## One payload and its record -/

section Record

variable {proc : ProcData} {labels colours : List String} {task : PrvTask} {q : HeapTop}
  {p : Payload} {r : PrvRecord}

theorem Coloured.colorId_eq_zero_iff (h : Coloured proc labels colours)
    (hp : p ∈ mergedPayloads q proc.btsFiles) (hflow : p.isFlow = false)
    (hcolour : recordColorId colours p.eventId = .ok r.colorId) :
    r.colorId = "0" ↔ p.isReset = true := by
  obtain ⟨traces, htraces, hmem⟩ := mem_mergedPayloads.mp hp
  unfold recordColorId at hcolour
  by_cases hreset : p.eventId = eventIdReset
  · rw [if_pos hreset] at hcolour
    simp [Payload.isReset, hreset, ← Except.ok.inj hcolour]
  · rw [if_neg hreset] at hcolour
    have hset : p.isSet = true := Payload.isSet_iff.mpr ⟨hflow, hreset⟩
    have hlt := h.colour_lt traces htraces p hmem hset
    have hne := h.colour_ne traces htraces p hmem hset
    have hnil : colours ≠ [] := by
      intro hnil
      simp [hnil] at hlt
    rw [if_neg hnil, List.getElem?_eq_getElem hlt] at hcolour
    rw [List.getElem?_eq_getElem hlt] at hne
    have hvalue : colours[p.eventId.toNat] = r.colorId := Except.ok.inj hcolour
    simp only [Payload.isReset, hreset, decide_false, Bool.false_eq_true, iff_false]
    intro hzero
    exact hne (by rw [hvalue, hzero])

end Record

/-! ## The records of a track -/

structure RecordedAs (q : HeapTop) (proc : ProcData) (task : PrvTask) (p : Payload)
    (r : PrvRecord) : Prop where
  mem : p ∈ mergedPayloads q proc.btsFiles
  isFlow : p.isFlow = false
  record : taskRecord (task, p) = .ok r

section Track

variable {ch : ParaverChoices} {procs : List ProcData} {prv : PrvFile}
  {tasks : List PrvTask} {rs : List (Option PrvRecord)}

theorem normalize_mono (hanchored : ∀ proc ∈ procs, Anchored proc) {proc : ProcData}
    (hproc : proc ∈ procs) {task : PrvTask} (hstart : task.syncStart = proc.syncStart)
    (hglobal : task.globalT0 = globalT0 procs) {q : HeapTop} {a b : Payload}
    (ha : a ∈ mergedPayloads q proc.btsFiles) (hle : a.time ≤ b.time) :
    (task.normalize a).toNat ≤ (task.normalize b).toNat := by
  obtain ⟨traces, htraces, hmem⟩ := mem_mergedPayloads.mp ha
  have hbase := (hanchored proc hproc).start_le traces htraces a hmem
  have ht0 := globalT0_le hanchored hproc htraces hmem
  unfold PrvTask.normalize
  rw [hstart, hglobal]
  exact UInt64.le_iff_toNat_le.mp (sub_le_sub ht0 (sub_le_sub hbase (time_le_iff.mp hle)))

/-- In file order the records of a track are those of the state changes of its
channel, in stream order. -/
theorem Exported.forall₂_recordedAs (h : Exported ch procs prv tasks rs)
    (hanchored : ∀ proc ∈ procs, Anchored proc) {i : Nat} (hi : i < procs.length)
    (hi' : i < tasks.length) (c : Nat) :
    List.Forall₂ (RecordedAs ch.heapTop procs[i] tasks[i])
      (channelEvents c (mergedPayloads ch.heapTop procs[i].btsFiles))
      (recordsOf (i + 1) (c + 1) prv.events) := by
  obtain ⟨_, _, _, hstart, hglobal⟩ := h.tasks_of.getElem hi
  have hanchor := hanchored _ (List.getElem_mem hi)
  have hmapM := h.tasks_of.recordsOf_eq h.records_of hi hi' c
  rw [List.mapM_map, mapM_ok_iff] at hmapM
  have hevents : SortedBy Payload.time
      (channelEvents c (mergedPayloads ch.heapTop procs[i].btsFiles)) :=
    (mergedPayloads_sorted hanchor.sorted).filter _
  have htimes : (recordsOf (i + 1) (c + 1) rs.reduceOption).map PrvRecord.time =
      (channelEvents c (mergedPayloads ch.heapTop procs[i].btsFiles)).map
        fun p => (tasks[i].normalize p).toNat := by
    rw [← List.forall₂_eq_eq_eq, List.forall₂_map_left_iff, List.forall₂_map_right_iff]
    exact hmapM.flip.imp fun r p hr => congrArg UInt64.toNat (taskRecord_ok_iff.mp hr).2.1
  have hsorted : SortedBy PrvRecord.time (recordsOf (i + 1) (c + 1) rs.reduceOption) := by
    unfold SortedBy
    rw [← List.pairwise_map (f := PrvRecord.time) (R := (· ≤ ·)), htimes, List.pairwise_map]
    exact hevents.imp_of_mem fun ha _ hle =>
      normalize_mono hanchored (List.getElem_mem hi) hstart hglobal
        (mem_channelEvents.mp ha).1 hle
  rw [h.recordsOf_events, stableSort_eq_self hsorted]
  refine ((List.forall₂_and_left _ _).mpr ⟨fun p hp => hp, hmapM⟩).imp ?_
  rintro p r ⟨hp, hr⟩
  exact ⟨(mem_channelEvents.mp hp).1, (mem_channelEvents.mp hp).2.2, hr⟩

theorem Exported.forall₂_recordIntervals (h : Exported ch procs prv tasks rs)
    (hanchored : ∀ proc ∈ procs, Anchored proc) {i : Nat} (hi : i < procs.length)
    (hi' : i < tasks.length) {labels colours : List String}
    (hcoloured : Coloured procs[i] labels colours) (c : Nat) :
    List.Forall₂ (fun x y => RecordedAs ch.heapTop procs[i] tasks[i] x.1 y.1 ∧
        RecordedAs ch.heapTop procs[i] tasks[i] x.2 y.2)
      (intervals c (mergedPayloads ch.heapTop procs[i].btsFiles))
      (recordIntervals (recordsOf (i + 1) (c + 1) prv.events)) := by
  obtain ⟨_, hcolours, -⟩ := h.tasks_of.getElem hi
  have hsame : tasks[i].markerColorIds = colours :=
    Except.ok.inj (hcolours.symm.trans hcoloured.colours_of)
  apply List.rel_filter _ (forall₂_consecutive (h.forall₂_recordedAs hanchored hi hi' c))
  rintro x y ⟨hx, -⟩
  obtain ⟨hcolour, -⟩ := taskRecord_ok_iff.mp hx.record
  rw [hsame] at hcolour
  have hzero := hcoloured.colorId_eq_zero_iff hx.mem hx.isFlow hcolour
  simp [hzero]

end Track

/-! ## One interval in both files -/

theorem getElem?_of_markerName {labels : List String} {eventId : UInt16} {name : String}
    (h : markerName labels eventId = .ok name) (hlt : eventId.toNat < labels.length) :
    labels[eventId.toNat]? = some name := by
  have hnil : labels ≠ [] := by
    intro hnil
    simp [hnil] at hlt
  unfold markerName at h
  rw [if_neg hnil, List.getElem?_eq_getElem hlt] at h
  rw [List.getElem?_eq_getElem hlt, Except.ok.inj h]

theorem getElem?_of_recordColorId {colours : List String} {eventId : UInt16}
    {colorId : String} (h : recordColorId colours eventId = .ok colorId)
    (hne : eventId ≠ eventIdReset) (hlt : eventId.toNat < colours.length) :
    colours[eventId.toNat]? = some colorId := by
  have hnil : colours ≠ [] := by
    intro hnil
    simp [hnil] at hlt
  unfold recordColorId at h
  rw [if_neg hne, if_neg hnil, List.getElem?_eq_getElem hlt] at h
  rw [List.getElem?_eq_getElem hlt, Except.ok.inj h]

theorem matches_of_interval {procs : List ProcData} (hanchored : ∀ proc ∈ procs, Anchored proc)
    {proc : ProcData} (hproc : proc ∈ procs) {labels colours : List String}
    (hcoloured : Coloured proc labels colours) {task : PrvTask}
    (hcolours : task.markerColorIds = colours) (hstart : task.syncStart = proc.syncStart)
    (hglobal : task.globalT0 = globalT0 procs) {tables : PerfettoTables}
    (htables : perfettoTables proc = .ok tables) {q : HeapTop} {c : Nat}
    {x : Payload × Payload} (hx : x ∈ intervals c (mergedPayloads q proc.btsFiles))
    {y : PrvRecord × PrvRecord} (hfirst : RecordedAs q proc task x.1 y.1)
    (hsecond : RecordedAs q proc task x.2 y.2) {s : Slice} (hs : Shows tables x s) :
    Matches (globalT0 procs) labels colours y s := by
  obtain ⟨-, hlabels, -, -, -, hsync⟩ := perfettoTables_ok_iff.mp htables
  have hsame : tables.markerLabels = labels :=
    Except.ok.inj (hlabels.symm.trans hcoloured.labels_of)
  obtain ⟨hcolour, htime, -⟩ := taskRecord_ok_iff.mp hfirst.record
  obtain ⟨-, htime', -⟩ := taskRecord_ok_iff.mp hsecond.record
  obtain ⟨traces, htraces, hmem⟩ := mem_mergedPayloads.mp hfirst.mem
  obtain ⟨traces', htraces', hmem'⟩ := mem_mergedPayloads.mp hsecond.mem
  have hanchor := hanchored proc hproc
  have hbase := hanchor.start_le traces htraces x.1 hmem
  have hbase' := hanchor.start_le traces' htraces' x.2 hmem'
  have ht0 := globalT0_le hanchored hproc htraces hmem
  have ht0' := globalT0_le hanchored hproc htraces' hmem'
  have hle : x.1.timestamp ≤ x.2.timestamp :=
    time_le_iff.mp (time_le_of_mem_intervals (mergedPayloads_sorted hanchor.sorted) hx)
  have hset : x.1.isSet = true := isSet_of_mem_intervals hx
  -- all four times as numbers
  have hts : s.ts.toNat = x.1.timestamp.toNat - proc.syncStart.toNat := by
    rw [hs.ts, hsync, toNat_sub hbase]
  have hdur : s.dur.toNat = x.2.timestamp.toNat - x.1.timestamp.toNat := by
    rw [hs.dur, toNat_sub hle]
  have hrecord : y.1.time =
      x.1.timestamp.toNat - proc.syncStart.toNat - (globalT0 procs).toNat := by
    unfold PrvRecord.time
    rw [htime, PrvTask.normalize, hstart, hglobal, toNat_sub ht0, toNat_sub hbase]
  have hrecord' : y.2.time =
      x.2.timestamp.toNat - proc.syncStart.toNat - (globalT0 procs).toNat := by
    unfold PrvRecord.time
    rw [htime', PrvTask.normalize, hstart, hglobal, toNat_sub ht0', toNat_sub hbase']
  rw [UInt64.le_iff_toNat_le, toNat_sub hbase] at ht0
  rw [UInt64.le_iff_toNat_le, toNat_sub hbase'] at ht0'
  rw [UInt64.le_iff_toNat_le] at hbase hbase' hle
  refine ⟨by omega, by omega, by omega, x.1.eventId.toNat, ?_, ?_⟩
  · have hname := hs.name
    rw [hsame] at hname
    exact getElem?_of_markerName hname (hcoloured.label_lt traces htraces x.1 hmem hset)
  · rw [hcolours] at hcolour
    exact getElem?_of_recordColorId hcolour (Payload.isSet_iff.mp hset).2
      (hcoloured.colour_lt traces htraces x.1 hmem hset)

/-! ## Slices of one process -/

section Process

variable {q : HeapTop} {procs : List ProcData} {files : List PerfettoFile}

theorem exists_procExport
    (hfiles : procs.zipIdx.mapM (fun x => perfettoProc q x.1 x.2) = .ok files) {i : Nat}
    (hi : i < procs.length) (hi' : i < files.length) :
    ∃ tables, perfettoTables procs[i] = .ok tables ∧
      ∀ c, (intervals c (mergedPayloads q procs[i].btsFiles)).mapM (closePair tables) =
        .ok (slicesOf (perfettoPid procs[i].pid) (c + 1) files[i].traceEvents) :=
  perfettoProc_slices (getElem_of_mapM_zipIdx hfiles hi hi')

theorem slicesOf_eq_nil
    (hfiles : procs.zipIdx.mapM (fun x => perfettoProc q x.1 x.2) = .ok files) {j : Nat}
    (hj : j < procs.length) (hj' : j < files.length) {pid : Int} {c : Nat}
    (h : perfettoPid procs[j].pid = pid →
      intervals c (mergedPayloads q procs[j].btsFiles) = []) :
    slicesOf pid (c + 1) files[j].traceEvents = [] := by
  by_cases hpid : perfettoPid procs[j].pid = pid
  · obtain ⟨tables, -, hslices⟩ := exists_procExport hfiles hj hj'
    have hc := hslices c
    rw [h hpid, hpid] at hc
    exact (Except.ok.inj hc).symm
  · obtain ⟨tables, hexport⟩ := perfettoProc_ok (getElem_of_mapM_zipIdx hfiles hj hj')
    obtain ⟨-, -, htables, -⟩ := perfettoTables_ok_iff.mp hexport.tables_of
    refine (hexport.own_track pid (c + 1) (.inl ?_)).1
    rw [htables]
    exact Ne.symm hpid

theorem slicesOf_of_ownProcess (hown : OwnProcess q procs)
    (hfiles : procs.zipIdx.mapM (fun x => perfettoProc q x.1 x.2) = .ok files) {i : Nat}
    (hi : i < procs.length) (hi' : i < files.length) (c : Nat) :
    slicesOf (perfettoPid procs[i].pid) (c + 1) (files.flatMap PerfettoFile.traceEvents) =
      slicesOf (perfettoPid procs[i].pid) (c + 1) files[i].traceEvents := by
  have hlen : files.length = procs.length := by simpa using length_mapM hfiles
  have hsingle := Interleaving.filter_flatMap_eq_single (l := files) (i := i)
    (g := fun file => slicesOf (perfettoPid procs[i].pid) (c + 1) file.traceEvents)
    (p := fun _ => true) hi' (by
      intro j hj hne a ha
      have hnil := slicesOf_eq_nil hfiles (hlen ▸ hj) hj (c := c)
        fun hpid => hown j i (hlen ▸ hj) hi hne hpid c
      rw [hnil] at ha
      cases ha)
  rw [slicesOf_flatMap]
  simpa using hsingle

/-- Two procs of one process both contribute to its tracks. -/
theorem length_slicesOf_add_le {i j : Nat} (hi : i < files.length) (hj : j < files.length)
    (hne : i ≠ j) (pid : Int) (tid : Nat) :
    (slicesOf pid tid files[i].traceEvents).length +
        (slicesOf pid tid files[j].traceEvents).length ≤
      (slicesOf pid tid (files.flatMap PerfettoFile.traceEvents)).length := by
  have hperm := List.getElem_cons_eraseIdx_perm hi
  have hmem : files[j] ∈ files.eraseIdx i :=
    List.mem_eraseIdx_iff_getElem.mpr ⟨j, hj, Ne.symm hne, rfl⟩
  rw [slicesOf_flatMap,
    ← (hperm.flatMap_right fun file => slicesOf pid tid file.traceEvents).length_eq,
    List.flatMap_cons, List.length_append]
  have hsub : (slicesOf pid tid files[j].traceEvents).length ≤
      ((files.eraseIdx i).flatMap fun file => slicesOf pid tid file.traceEvents).length := by
    rw [List.flatMap_def]
    apply List.Sublist.length_le
    apply List.sublist_flatten_of_mem
    exact List.mem_map.mpr ⟨files[j], hmem, rfl⟩
  omega

end Process

/-- Read as intervals, the records of every track of `tracr.prv` are the slices of
the channel in `perfetto.json` exactly when no proc that shares its process with
another one shows an interval. -/
theorem sameIntervals_iff {raws procs : List ProcData}
    (hanchors : raws.mapM extractSyncAnchors = .ok procs)
    (hsorted : ∀ raw ∈ raws, ∀ traces ∈ raw.btsFiles, TimeSorted traces)
    (hcoloured : ∀ proc ∈ procs, ∃ labels colours, Coloured proc labels colours)
    {ch : ParaverChoices} {out out' : OutputFolder} {channels : List Nat}
    {file : PerfettoFile} {prv : PrvFile}
    (hfile : perfetto ch.heapTop out procs = .ok file)
    (hprv : createTracrPrv ch out' procs channels = .ok prv) :
    SameIntervals procs file prv ↔ OwnProcess ch.heapTop procs := by
  have hanchored : ∀ proc ∈ procs, Anchored proc := by
    intro proc hproc
    obtain ⟨raw, hraw, hextract⟩ := exists_of_mem_mapM hanchors hproc
    exact anchored_of_extract hextract (hsorted raw hraw)
  obtain ⟨files, hfiles, hevents⟩ := perfetto_ok hfile
  obtain ⟨-, tasks, rs, hexport⟩ := createTracrPrv_ok hprv
  have hlen : files.length = procs.length := by simpa using length_mapM hfiles
  -- what each proc contributes matches its records
  have hown : ∀ i (hi : i < procs.length) (hi' : i < files.length) (c : Nat),
      ∃ labels colours, perfettoMarkerLabels procs[i].metadata = .ok labels ∧
        extractMarkerColorIds procs[i].metadata = .ok colours ∧
          List.Forall₂ (Matches (globalT0 procs) labels colours)
            (recordIntervals (recordsOf (i + 1) (c + 1) prv.events))
            (slicesOf (perfettoPid procs[i].pid) (c + 1) files[i].traceEvents) := by
    intro i hi hi' c
    obtain ⟨labels, colours, hcolour⟩ := hcoloured _ (List.getElem_mem hi)
    obtain ⟨htask, hcolours, -, hstart, hglobal⟩ := hexport.tasks_of.getElem hi
    obtain ⟨tables, htables, hslices⟩ := exists_procExport hfiles hi hi'
    have hsame : tasks[i].markerColorIds = colours :=
      Except.ok.inj (hcolours.symm.trans hcolour.colours_of)
    have hrecords := hexport.forall₂_recordIntervals hanchored hi htask hcolour c
    have hshown := (List.forall₂_and_left _ _).mpr
      ⟨fun x hx => hx, mapM_ok_iff.mp (hslices c)⟩
    refine ⟨labels, colours, hcolour.labels_of, hcolour.colours_of,
      forall₂_join hrecords hshown ?_⟩
    rintro x y s ⟨hfirst, hsecond⟩ ⟨hx, hs⟩
    exact matches_of_interval hanchored (List.getElem_mem hi) hcolour hsame hstart hglobal
      htables hx hfirst hsecond (closePair_ok_iff.mp hs)
  constructor
  · intro hsame i j hi hj hne hpid c
    -- the slices of the process leave no room for those of the other proc
    obtain ⟨_, _, -, -, hall⟩ := hsame j hj c
    obtain ⟨_, _, -, -, hself⟩ := hown j hj (hlen ▸ hj) c
    have hi' : i < files.length := hlen ▸ hi
    have hj' : j < files.length := hlen ▸ hj
    have hsum := length_slicesOf_add_le hi' hj' hne (perfettoPid procs[j].pid) (c + 1)
    rw [← hevents, ← hall.length_eq, hself.length_eq] at hsum
    obtain ⟨tables, -, hslices⟩ := exists_procExport hfiles hi (hlen ▸ hi)
    have hcount := length_mapM (hslices c)
    rw [hpid] at hcount
    exact List.length_eq_zero_iff.mp (by omega)
  · intro hprocess i hi c
    rw [hevents, slicesOf_of_ownProcess hprocess hfiles hi (hlen ▸ hi) c]
    exact hown i hi (hlen ▸ hi) c

theorem ownProcess_of_nodup {q : HeapTop} {procs : List ProcData}
    (h : (procs.map fun proc => perfettoPid proc.pid).Nodup) : OwnProcess q procs := by
  intro i j hi hj hne hpid
  have hinj := List.nodup_iff_injective_get.mp h
  have heq := @hinj ⟨i, by simpa using hi⟩ ⟨j, by simpa using hj⟩ (by simpa using hpid)
  exact absurd (Fin.mk.inj heq) hne

def oneInterval (pid : Int) : ProcData where
  pid := pid
  metadata := .object [("markerColorIds", .array [.number 23]),
    ("markerLabels", .array [.string "compute"])]
  btsFiles := [[⟨0, 0, uint32Max, 10⟩, ⟨0, eventIdReset, uint32Max, 25⟩]]
  btsTids := [1]
  syncStart := 10
  syncEnd := 25

def oneIntervalFolder (name : String) : ProcEntry where
  name := name
  isDirectory := true
  metadata := .contents (some (oneInterval 0).metadata)
  threads := [⟨"thread.1", true,
    .contents (payloadBytes [⟨0, 0, uint32Max, 10⟩, ⟨0, eventIdReset, uint32Max, 25⟩])⟩]

theorem coloured_oneInterval (pid : Int) : Coloured (oneInterval pid) ["compute"] ["23"] := by
  have hfiles : (oneInterval pid).btsFiles = (oneInterval 0).btsFiles := rfl
  have hchannel : ∀ traces ∈ (oneInterval 0).btsFiles, ∀ p ∈ traces,
      p.channelId.toNat < (1 : UInt32).toNat := by decide
  constructor
  case labels_of => rfl
  case colours_of => rfl
  case declared => exact fun traces htraces p hp => ⟨1, rfl, hchannel traces htraces p hp⟩
  case label_lt =>
    rw [hfiles]
    decide
  case colour_lt =>
    rw [hfiles]
    decide
  case colour_ne =>
    rw [hfiles]
    decide

theorem sameIntervals_two_procs :
    ∃ file prv, perfetto .first ⟨true, fun _ => true⟩ [oneInterval 3, oneInterval 7] = .ok file ∧
      createTracrPrv .first ⟨true, fun _ => true⟩ [oneInterval 3, oneInterval 7] [1, 1] =
        .ok prv ∧ SameIntervals [oneInterval 3, oneInterval 7] file prv := by
  have hcoloured : ∀ proc ∈ [oneInterval 3, oneInterval 7],
      ∃ labels colours, Coloured proc labels colours := by
    intro proc hproc
    rcases List.mem_pair.mp hproc with rfl | rfl
    · exact ⟨_, _, coloured_oneInterval 3⟩
    · exact ⟨_, _, coloured_oneInterval 7⟩
  obtain ⟨file, hfile⟩ : ∃ file, perfetto ParaverChoices.first.heapTop ⟨true, fun _ => true⟩
      [oneInterval 3, oneInterval 7] = .ok file := ⟨_, rfl⟩
  obtain ⟨prv, hprv⟩ : ∃ prv, createTracrPrv .first ⟨true, fun _ => true⟩
      [oneInterval 3, oneInterval 7] [1, 1] = .ok prv := ⟨_, rfl⟩
  refine ⟨file, prv, hfile, hprv, ?_⟩
  exact (@sameIntervals_iff [oneInterval 3, oneInterval 7] [oneInterval 3, oneInterval 7] rfl
    (by decide) hcoloured _ _ _ _ _ _ hfile hprv).mpr (ownProcess_of_nodup (by decide))

/-- Two folders with one number, each with one interval: a track of the process
they share shows both intervals, a track of either task one. -/
theorem not_sameIntervals_shared_pid :
    ¬∀ (sorter : Sorter ProcData.pid) (entries : List ProcEntry) (procs : List ProcData)
        (ch : ParaverChoices) (out out' : OutputFolder) (channels : List Nat)
        (file : PerfettoFile) (prv : PrvFile),
      (entries.map ProcEntry.name).Nodup → extractBtsMetadata sorter entries = .ok procs →
        (∀ proc ∈ procs, ∀ traces ∈ proc.btsFiles, TimeSorted traces) →
          (∀ proc ∈ procs, ∃ labels colours, Coloured proc labels colours) →
            perfetto ch.heapTop out procs = .ok file →
              createTracrPrv ch out' procs channels = .ok prv →
                SameIntervals procs file prv := by
  intro h
  have hcoloured : ∀ proc ∈ [oneInterval 1, oneInterval 1],
      ∃ labels colours, Coloured proc labels colours := by
    intro proc hproc
    rcases List.mem_pair.mp hproc with rfl | rfl <;> exact ⟨_, _, coloured_oneInterval 1⟩
  have hsame := h (.stable _) [oneIntervalFolder "proc.1", oneIntervalFolder "proc.01"]
    [oneInterval 1, oneInterval 1] .first ⟨true, fun _ => true⟩ ⟨true, fun _ => true⟩ [1, 1]
    _ _ (by decide) rfl (by decide) hcoloured rfl rfl
  obtain ⟨labels, colours, -, -, hall⟩ := hsame 0 (by decide) 0
  exact absurd hall.length_eq (by decide)

end TraCR
