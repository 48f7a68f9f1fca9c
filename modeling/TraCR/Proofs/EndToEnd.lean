import Mathlib.Data.Fintype.EquivFin
import TraCR.Proofs.Recording
import TraCR.Proofs.Reordering
import TraCR.Proofs.Folder

/-!
# From the calls to the slices

A program that uses the library properly gets, from the folder it leaves, the slices
of its own calls: the merged stream shows on each channel what the log shows, and the
metadata gives each marker the label it was registered with.
-/

namespace TraCR

open TraCR.Lib TraCR.Lib.Run TraCR.Lib.Traversal TraCR.Lib.SortedList
  TraCR.Lib.Interleaving TraCR.Lib.Contents
open TraCRThread (folderName folderName_injective)

variable {b : Build} {pf : Platform}

/-! ## The statement -/

/-- The number of channels declared: the names set last, else the number set last,
else one. -/
def declaredChannels (actions : List Action) : Nat :=
  match declaredNames actions with
  | some names => (castUInt32 names.size).toNat
  | none =>
      match declaredNumber actions with
      | some n => n.toNat
      | none => 1

def labelOf (trace : List (Action × Obs)) (eventId : UInt16) : String :=
  (trace.findSome? fun x =>
    match x.2 with
    | .eventId id => if id = eventId then x.1.call.label? else none
    | _ => none).getD ""

/-- How the program uses the library, and what it may expect of the clock. -/
structure ProperUse (pf : Platform) (trace : List (Action × Obs)) : Prop where
  clock : Monotone pf.clock
  tids : ((openedBy (trace.map Prod.fst)).map pf.gettid).Nodup
  ties : ∀ x ∈ storedLog trace, ∀ y ∈ storedLog trace, x.2.channelId = y.2.channelId →
    x.2.timestamp = y.2.timestamp → x.1 = y.1
  sets : ∀ x ∈ trace, ∀ channelId eventId extraId,
    x.1.call = .markSet channelId eventId extraId → ∃ y ∈ trace, y.2 = .eventId eventId
  channels : ∀ x ∈ trace, ∀ ids, x.1.call.record? = some ids →
    ids.1.toNat < declaredChannels (trace.map Prod.fst)
  names : ∀ x ∈ trace, ∀ names, x.1.call = .addCustomChannelNames names →
    ∃ l : List String, names = .array (l.map .string)

/-- The entries of the output directory, in the order the iterator yields them. -/
def ListsOutput (base : String) (disk : Disk) (entries : List ProcEntry) : Prop :=
  ∃ dirs, dirs.Perm (disk.entries.filter fun e => e.1.base = base) ∧
    List.Forall₂ (fun e entry => Lists e.1.folder e.2 entry) dirs entries

def sliceOf (pid : Pid) (start : UInt64) (trace : List (Action × Obs)) (x : Payload × Payload) :
    Slice where
  name := labelOf trace x.1.eventId
  ts := x.1.timestamp - start
  dur := x.2.timestamp - x.1.timestamp
  pid := pid.val
  tid := x.1.channelId.toNat + 1
  extraId := if x.1.extraId = uint32Max then none else some x.1.extraId
  extraLabel := none

/-- The recording calls are in the log, and what the output directory shows of them on
each channel are their intervals. -/
structure Faithful (pf : Platform) (start : UInt64) (trace : List (Action × Obs)) (base : String)
    (disk : Disk) : Prop where
  recorded : ∀ x ∈ trace, x.1.call.record? = x.2.payload?.map Payload.ids
  exported : ∀ entries, ListsOutput base disk entries →
    ∀ (sorter : Sorter ProcData.pid) q (out : OutputFolder), out.opens "perfetto.json" = true →
      ∃ procs file, extractBtsMetadata sorter entries = .ok procs ∧
        perfetto q out procs = .ok file ∧
          ∀ c, slicesOf pf.getpid.val (c + 1) file.traceEvents =
            (intervals c ((storedLog trace).map Prod.snd)).map (sliceOf pf.getpid start trace)

/-! ## The log and the files -/

section Files

variable {trace : List (Action × Obs)} {start : UInt64} {labels : List String} {dir : ProcDir}

theorem WrittenFolder.exists_thread (h : WrittenFolder pf start trace labels dir)
    {e : Sigma fun _ : String => List UInt8} (he : e ∈ dir.threads.entries) :
    ∃ t, e.1 = folderName (pf.gettid t) ∧ readPayloads e.2 = storedBy t (storedLog trace) := by
  obtain ⟨t, -, -, hname, hbytes⟩ := (h.files e.1 e.2).mp (AList.mem_lookup_iff.mpr he)
  exact ⟨t, hname, by rw [hbytes, readPayloads_payloadBytes]⟩

theorem WrittenFolder.exists_file (h : WrittenFolder pf start trace labels dir) {t : OsThread}
    (hne : storedBy t (storedLog trace) ≠ []) :
    ∃ e ∈ dir.threads.entries, readPayloads e.2 = storedBy t (storedLog trace) := by
  have hopened : t ∈ openedBy (trace.map Prod.fst) := by
    by_contra hnot
    exact hne (h.opened t hnot)
  have hlookup := (h.files (folderName (pf.gettid t)) _).mpr ⟨t, hopened, hne, rfl, rfl⟩
  exact ⟨_, AList.mem_lookup_iff.mp hlookup, readPayloads_payloadBytes _⟩

theorem sublist_storedBy (t : OsThread) (log : List (OsThread × Payload)) :
    (storedBy t log).Sublist (log.map Prod.snd) := by
  have hsub : (storedBy t log).Sublist ((log.map Prod.swap).map Prod.fst) :=
    List.filter_sublist.map Prod.fst
  have hswap : (log.map Prod.swap).map Prod.fst = log.map Prod.snd := by simp
  rwa [hswap] at hsub

theorem WrittenFolder.separatedTies (h : WrittenFolder pf start trace labels dir)
    (huse : ProperUse pf trace) :
    SeparatedTies (dir.threads.entries.map fun e => readPayloads e.2) := by
  have hkeys : dir.threads.entries.Pairwise fun e e' => e.1 ≠ e'.1 :=
    List.pairwise_map.mp dir.threads.nodupKeys
  refine List.pairwise_map.mpr (hkeys.imp_of_mem ?_)
  intro e e' he he' hne p hp p' hp' hchannel htime
  obtain ⟨t, hname, hstored⟩ := h.exists_thread he
  obtain ⟨t', hname', hstored'⟩ := h.exists_thread he'
  rw [hstored] at hp
  rw [hstored'] at hp'
  have heq : t = t' :=
    huse.ties _ (mem_storedBy.mp hp) _ (mem_storedBy.mp hp') hchannel htime
  exact hne (by rw [hname, hname', heq])

/-- What the merged stream shows of a channel is what the log shows. -/
theorem WrittenFolder.filter_mergedPayloads (h : WrittenFolder pf start trace labels dir)
    (huse : ProperUse pf trace) (hsorted : SortedBy Payload.time ((storedLog trace).map Prod.snd))
    {files : List (List Payload)}
    (hfiles : files.Perm (dir.threads.entries.map fun e => readPayloads e.2)) (q : HeapTop)
    {c : Nat} {shown : Payload → Bool} (hon : ∀ p, shown p = true → p.channelId.toNat = c) :
    (mergedPayloads q files).filter shown = ((storedLog trace).map Prod.snd).filter shown := by
  have hlog : ((storedLog trace).map Prod.swap).map Prod.fst = (storedLog trace).map Prod.snd := by
    simp
  have hmem : ∀ traces, traces ∈ files ↔
      ∃ e ∈ dir.threads.entries, readPayloads e.2 = traces := by
    intro traces
    rw [hfiles.mem_iff, List.mem_map]
  have hnone : ∃ t, storedBy t (storedLog trace) = [] := by
    obtain ⟨t, ht⟩ := Infinite.exists_notMem_finset ((storedLog trace).map Prod.fst).toFinset
    refine ⟨t, List.eq_nil_iff_forall_not_mem.mpr fun p hp => ht ?_⟩
    rw [List.mem_toFinset]
    exact List.mem_map_of_mem (mem_storedBy.mp hp)
  have hthreads : Interleaves (fun t => storedBy t (storedLog trace))
      ((storedLog trace).map Prod.swap) := fun _ => rfl
  unfold mergedPayloads
  rw [← hlog]
  refine filter_unique (mergedStream_interleaves q files) hthreads ?_ ?_
    (((h.separatedTies huse).perm hfiles).separated hon) ?_ ?_ ?_
  · intro i
    by_cases hi : i < files.length
    · obtain ⟨e, he, hstored⟩ := (hmem _).mp (List.getElem_mem hi)
      obtain ⟨t, -, hthread⟩ := h.exists_thread he
      exact ⟨t, by rw [nthSource_of_lt hi, ← hstored, hthread]⟩
    · obtain ⟨t, ht⟩ := hnone
      exact ⟨t, by rw [nthSource_of_le (Nat.le_of_not_lt hi), ht]⟩
  · intro t
    by_cases ht : storedBy t (storedLog trace) = []
    · exact ⟨files.length, by rw [nthSource_of_le le_rfl, ht]⟩
    · obtain ⟨e, he, hstored⟩ := h.exists_file ht
      obtain ⟨i, hi, hget⟩ := List.mem_iff_getElem.mp ((hmem _).mpr ⟨e, he, hstored⟩)
      exact ⟨i, by rw [nthSource_of_lt hi, hget]⟩
  · intro t t' hne p hp p' hp' hpc hpc' htime
    have hchannel : p.channelId = p'.channelId :=
      UInt16.toNat_inj.mp ((hon p hpc).trans (hon p' hpc').symm)
    exact hne (huse.ties _ (mem_storedBy.mp hp) _ (mem_storedBy.mp hp') hchannel
      (UInt64.toNat_inj.mp htime))
  · apply mergedPayloads_sorted
    intro traces htraces
    obtain ⟨e, he, rfl⟩ := (hmem traces).mp htraces
    obtain ⟨t, -, hthread⟩ := h.exists_thread he
    rw [hthread]
    exact hsorted.sublist (sublist_storedBy t _)
  · rw [hlog]
    exact hsorted

theorem WrittenFolder.channelEvents (h : WrittenFolder pf start trace labels dir)
    (huse : ProperUse pf trace) (hsorted : SortedBy Payload.time ((storedLog trace).map Prod.snd))
    {files : List (List Payload)}
    (hfiles : files.Perm (dir.threads.entries.map fun e => readPayloads e.2)) (q : HeapTop)
    (c : Nat) :
    channelEvents c (mergedPayloads q files) =
      TraCR.channelEvents c ((storedLog trace).map Prod.snd) := by
  refine h.filter_mergedPayloads huse hsorted hfiles q (c := c) fun p hp => ?_
  exact ((by simpa [onChannel] using hp : p.channelId.toNat = c ∧ p.isFlow = false)).1

theorem WrittenFolder.channelFlows (h : WrittenFolder pf start trace labels dir)
    (huse : ProperUse pf trace) (hsorted : SortedBy Payload.time ((storedLog trace).map Prod.snd))
    {files : List (List Payload)}
    (hfiles : files.Perm (dir.threads.entries.map fun e => readPayloads e.2)) (q : HeapTop)
    (c : Nat) :
    channelFlows c (mergedPayloads q files) =
      TraCR.channelFlows c ((storedLog trace).map Prod.snd) := by
  refine h.filter_mergedPayloads huse hsorted hfiles q (c := c) fun p hp => ?_
  exact ((by simpa using hp : p.channelId.toNat = c ∧ p.isFlow = true)).1

end Files

/-! ## The metadata -/

section Metadata

variable {start : UInt64} {actions : List Action} {labels : List String}
  {fields : List (String × Json)}

theorem Document.numChannels (h : Document start actions labels fields)
    (hnames : ∀ names, declaredNames actions = some names →
      ∃ l : List String, names = .array (l.map .string)) :
    ∃ n, perfettoNumChannels (.object fields) = .ok n ∧ n.toNat = declaredChannels actions := by
  unfold perfettoNumChannels declaredChannels
  have hlookup := h.names
  cases hdeclared : declaredNames actions with
  | some names =>
      obtain ⟨l, rfl⟩ := hnames names hdeclared
      rw [hdeclared] at hlookup
      rw [Json.field?_of_lookup hlookup (by simp)]
      exact ⟨_, rfl, rfl⟩
  | none =>
      rw [hdeclared] at hlookup
      rw [Json.field?_of_lookup_none hlookup]
      have hnumber := h.number hdeclared
      cases hdeclared' : declaredNumber actions with
      | none =>
          rw [hdeclared'] at hnumber
          rw [Json.field?_of_lookup_none hnumber]
          exact ⟨1, rfl, rfl⟩
      | some n =>
          rw [hdeclared'] at hnumber
          rw [Json.field?_of_lookup hnumber (by simp)]
          refine ⟨_, rfl, ?_⟩
          have hlt : n.toNat < 2 ^ 16 := n.toNat_lt
          show (castUInt32 (n.toNat : Int)).toNat = n.toNat
          rw [castUInt32_toNat]
          omega

theorem Document.exists_metadataEvents (h : Document start actions labels fields)
    (hnames : ∀ names, declaredNames actions = some names →
      ∃ l : List String, names = .array (l.map .string))
    {tables : PerfettoTables}
    (hnum : perfettoNumChannels (.object fields) = .ok tables.numChannels)
    (hjson : tables.channelsJson = (Json.object fields).field? "channel_names") (p : Nat) :
    ∃ events, metadataEvents tables p = .ok events := by
  refine exists_metadataEvents_of_names hnum hjson ?_ p
  intro j hj
  have hlookup := h.names
  cases hdeclared : declaredNames actions with
  | none =>
      rw [hdeclared] at hlookup
      rw [Json.field?_of_lookup_none hlookup] at hj
      cases hj
  | some names =>
      obtain ⟨l, rfl⟩ := hnames names hdeclared
      rw [hdeclared] at hlookup
      rw [Json.field?_of_lookup hlookup (by simp)] at hj
      exact ⟨l, (Option.some.inj hj).symm⟩

theorem Document.markerLabels (h : Document start actions labels fields) :
    perfettoMarkerLabels (.object fields) = .ok labels := by
  unfold perfettoMarkerLabels
  rw [Json.field?_of_lookup h.labels (by simp)]
  exact mapM_getString labels

end Metadata

/-! ## Loading -/

structure LoadedFolder (start : UInt64) (trace : List (Action × Obs)) (labels : List String)
    (dir : ProcDir) (pid : Pid) (proc : ProcData) : Prop where
  pid : proc.pid = pid.val
  metadata : ∃ fields, proc.metadata = .object fields ∧
    Document start (trace.map Prod.fst) labels fields
  files : proc.btsFiles.Perm (dir.threads.entries.map fun e => readPayloads e.2)
  syncStart : proc.syncStart = if start = uint64Max then 0 else start

theorem WrittenFolder.exists_loadsAs {trace : List (Action × Obs)} {start : UInt64}
    {labels : List String} {dir : ProcDir} {entry : ProcEntry}
    (h : WrittenFolder pf start trace labels dir)
    (hstart : ∀ x ∈ storedLog trace, start ≤ x.2.timestamp)
    (hlists : Lists s!"proc.{pf.getpid}" dir entry) :
    ∃ proc, LoadsAs entry proc ∧ LoadedFolder start trace labels dir pf.getpid proc := by
  obtain ⟨fields, hfields, hdocument⟩ := h.metadata
  obtain ⟨n, hended⟩ := hdocument.ended
  obtain ⟨tids, htids⟩ := exists_loadThreadTraces_entries fun e he => by
    obtain ⟨t, hname, -⟩ := h.exists_thread he
    exact ⟨_, hname⟩
  obtain ⟨files, tids', hload, hperm⟩ := loadThreadTraces_perm htids hlists.threads
  have hstarted := Json.field?_of_lookup hdocument.started (by simp)
  have hmetadata : loadMetadataJson entry.metadata = .ok (.object fields) := by
    rw [hlists.metadata, ProcDir.metadataFile, hfields]
    rfl
  obtain ⟨hprefix', hpid⟩ := stoi_afterDot_procFolder pf.getpid
  obtain ⟨proc, hanchors⟩ : ∃ proc, extractSyncAnchors
      ⟨pf.getpid.val, .object fields, files, tids', 0, 0⟩ = .ok proc := by
    simp only [extractSyncAnchors, metadataAnchor, hstarted,
      Json.field?_of_lookup hended (by simp), Json.asNumber?, bind_ok_iff, pure_ok_iff]
    exact ⟨_, _, rfl, _, rfl, rfl⟩
  refine ⟨proc, loadsAs_iff.mpr ⟨?_, _, _, _, _, ?_, hmetadata, hload, hanchors⟩, ?_⟩
  · rw [isProcFolder, hlists.isDirectory, hlists.name, hprefix']
    rfl
  · rw [hlists.name, hpid]
  · have hsync := syncStart_eq_of_start_time hanchors hstarted (by
      rw [castUInt64_natCast]
      intro traces htraces p hp
      obtain ⟨e, he, rfl⟩ := List.mem_map.mp (hperm.mem_iff.mp htraces)
      obtain ⟨t, -, hthread⟩ := h.exists_thread he
      rw [hthread] at hp
      exact hstart _ (mem_storedBy.mp hp))
    rw [castUInt64_natCast] at hsync
    obtain ⟨first, last, -, -, rfl⟩ := extractSyncAnchors_ok hanchors
    exact ⟨rfl, ⟨fields, rfl, hdocument⟩, hperm, hsync⟩

theorem extractBtsMetadata_singleton {sorter : Sorter ProcData.pid} {entry : ProcEntry}
    {proc : ProcData} (h : LoadsAs entry proc) :
    extractBtsMetadata sorter [entry] = .ok [proc] := by
  unfold extractBtsMetadata
  rw [bind_ok_iff]
  refine ⟨[some proc], mapM_ok_iff.mpr (.cons h .nil), ?_⟩
  have hsort : sorter.sort [proc] = [proc] := List.perm_singleton.mp (sorter.perm [proc])
  simp [List.reduceOption, hsort]

/-! ## Labels -/

theorem markerLabels_eq_labelOf {trace : List (Action × Obs)} {markerLabels : List String}
    (hlabels : ∀ x ∈ trace, ∀ id, x.2 = .eventId id →
      ∃ label, x.1.call.label? = some label ∧ markerLabels[id.toNat]? = some label)
    {eventId : UInt16} (hsome : ∃ x ∈ trace, x.2 = .eventId eventId) :
    markerLabels[eventId.toNat]? = some (labelOf trace eventId) := by
  unfold labelOf
  obtain ⟨y, hy, hobs⟩ := hsome
  cases hfind : trace.findSome? fun x =>
      match x.2 with
      | .eventId id => if id = eventId then x.1.call.label? else none
      | _ => none with
  | none =>
      obtain ⟨label, hcall, -⟩ := hlabels y hy eventId hobs
      have hnone := List.findSome?_eq_none_iff.mp hfind y hy
      simp [hobs, hcall] at hnone
  | some label =>
      obtain ⟨x, hx, hlabel⟩ := List.exists_of_findSome?_eq_some hfind
      cases hid : x.2 with
      | eventId id =>
          simp only [hid] at hlabel
          split at hlabel
          next heq =>
            obtain ⟨label', hcall, hregistered⟩ := hlabels x hx id hid
            obtain rfl : label' = label := Option.some.inj (hcall.symm.trans hlabel)
            rw [← heq, hregistered]
            rfl
          · cases hlabel
      | nothing | stored | document => simp [hid] at hlabel

section Recorded

variable {trace : List (Action × Obs)} {p : Payload}

theorem exists_record (hrecorded : ∀ x ∈ trace, x.1.call.record? = x.2.payload?.map Payload.ids)
    (hp : p ∈ (storedLog trace).map Prod.snd) :
    ∃ x ∈ trace, x.1.call.record? = some p.ids := by
  obtain ⟨y, hy, rfl⟩ := List.mem_map.mp hp
  obtain ⟨x, hx, hstored⟩ := List.mem_filterMap.mp hy
  refine ⟨x, hx, ?_⟩
  rw [hrecorded x hx]
  cases hobs : x.2 with
  | nothing | eventId | document => simp [hobs] at hstored
  | stored payload =>
      simp only [hobs, Option.some.injEq] at hstored
      rw [← hstored]
      rfl

theorem exists_markSet
    (hrecorded : ∀ x ∈ trace, x.1.call.record? = x.2.payload?.map Payload.ids)
    (hp : p ∈ (storedLog trace).map Prod.snd) (hset : p.isSet = true) :
    ∃ x ∈ trace, x.1.call = .markSet p.channelId p.eventId p.extraId := by
  obtain ⟨x, hx, hids⟩ := exists_record hrecorded hp
  refine ⟨x, hx, ?_⟩
  obtain ⟨hflow, hreset⟩ := Payload.isSet_iff.mp hset
  simp only [Payload.isFlow, Bool.or_eq_false_iff, decide_eq_false_iff_not] at hflow
  cases hcall : x.1.call <;>
    simp only [hcall, Call.record?, Payload.ids, Option.some.injEq, Prod.mk.injEq,
      reduceCtorEq] at hids
  case markSet c e i =>
    obtain ⟨rfl, rfl, rfl⟩ := hids
    rfl
  case markReset c => exact absurd hids.2.1.symm hreset
  case flowStart c flowId => exact absurd hids.2.1.symm hflow.1
  case flowEnd c flowId => exact absurd hids.2.1.symm hflow.2

end Recorded

/-! ## Exporting -/

def tablesOf (pid : Pid) (start : UInt64) (numChannels : UInt32)
    (fields : List (String × Json)) (markerLabels : List String) : PerfettoTables where
  pid := pid.val
  numChannels := numChannels
  channelsJson := (Json.object fields).field? "channel_names"
  markerLabels := markerLabels
  extraIdLabels := none
  syncStart := if start = uint64Max then 0 else start

theorem ProperUse.exists_names {trace : List (Action × Obs)} (huse : ProperUse pf trace)
    {names : Json} (hdeclared : declaredNames (trace.map Prod.fst) = some names) :
    ∃ l : List String, names = .array (l.map .string) := by
  obtain ⟨a, ha, hcall⟩ := List.mem_filterMap.mp (List.mem_of_getLast? hdeclared)
  obtain ⟨x, hx, rfl⟩ := List.mem_map.mp ha
  cases hc : x.1.call <;> simp only [hc, reduceCtorEq, Option.some.injEq] at hcall
  exact huse.names x hx names (hcall ▸ hc)

section Loaded

variable {trace : List (Action × Obs)} {start : UInt64} {markerLabels : List String}
  {dir : ProcDir} {proc : ProcData}

theorem LoadedFolder.perfettoPid_eq
    (h : LoadedFolder start trace markerLabels dir pf.getpid proc) :
    perfettoPid proc.pid = pf.getpid.val := by
  rw [h.pid, perfettoPid, if_neg (by omega)]

theorem LoadedFolder.perfettoTables_eq {fields : List (String × Json)} {numChannels : UInt32}
    (h : LoadedFolder start trace markerLabels dir pf.getpid proc)
    (hmetadata : proc.metadata = .object fields)
    (hdocument : Document start (trace.map Prod.fst) markerLabels fields)
    (hnum : perfettoNumChannels (.object fields) = .ok numChannels) :
    perfettoTables proc = .ok (tablesOf pf.getpid start numChannels fields markerLabels) := by
  rw [perfettoTables_ok_iff, hmetadata, h.perfettoPid_eq]
  exact ⟨hnum, hdocument.markerLabels, rfl, rfl,
    (Json.field?_of_lookup_none hdocument.unlabelled).symm, h.syncStart.symm⟩

theorem LoadedFolder.mem_storedLog
    (h : LoadedFolder start trace markerLabels dir pf.getpid proc)
    (hdir : WrittenFolder pf start trace markerLabels dir) {traces : List Payload}
    (htraces : traces ∈ proc.btsFiles) {a : Payload} (ha : a ∈ traces) :
    a ∈ (storedLog trace).map Prod.snd := by
  obtain ⟨e, he, rfl⟩ := List.mem_map.mp (h.files.mem_iff.mp htraces)
  obtain ⟨t, -, hthread⟩ := hdir.exists_thread he
  rw [hthread] at ha
  exact (sublist_storedBy t _).subset ha

/-- The slice of an interval that a `mark_set` opens. -/
theorem closePair_sliceOf (huse : ProperUse pf trace)
    (hrecorded : ∀ x ∈ trace, x.1.call.record? = x.2.payload?.map Payload.ids)
    (hlabels : ∀ x ∈ trace, ∀ id, x.2 = .eventId id →
      ∃ label, x.1.call.label? = some label ∧ markerLabels[id.toNat]? = some label)
    {a : Payload} (ha : a ∈ (storedLog trace).map Prod.snd) (hset : a.isSet = true)
    (a' : Payload) (numChannels : UInt32) (fields : List (String × Json)) :
    closePair (tablesOf pf.getpid start numChannels fields markerLabels) (a, a') =
      .ok (sliceOf pf.getpid (if start = uint64Max then 0 else start) trace (a, a')) := by
  obtain ⟨x, hx, hcall⟩ := exists_markSet hrecorded ha hset
  have hlabel := markerLabels_eq_labelOf hlabels (huse.sets x hx _ _ _ hcall)
  have hne : markerLabels ≠ [] := by
    rintro rfl
    simp at hlabel
  refine closePair_ok_iff.mpr ⟨?_, rfl, rfl, rfl, rfl, rfl, ?_⟩
  · simp only [markerName, tablesOf, if_neg hne, hlabel, sliceOf]
  · simp [extraLabel, tablesOf, sliceOf]

def flowOf (pid : Pid) (start : UInt64) (payload : Payload) : Flow where
  isStart := payload.eventId = eventIdFlowStart
  id := payload.extraId
  ts := payload.timestamp - start
  pid := pid.val
  tid := payload.channelId.toNat + 1

/-- What the export of a loaded folder shows is what the log shows, wherever the proc is in
the file. -/
theorem LoadedFolder.exists_perfettoProc
    (h : LoadedFolder start trace markerLabels dir pf.getpid proc)
    (hdir : WrittenFolder pf start trace markerLabels dir) (huse : ProperUse pf trace)
    (hrecorded : ∀ x ∈ trace, x.1.call.record? = x.2.payload?.map Payload.ids)
    (hsorted : SortedBy Payload.time ((storedLog trace).map Prod.snd))
    (hlabels : ∀ x ∈ trace, ∀ id, x.2 = .eventId id →
      ∃ label, x.1.call.label? = some label ∧ markerLabels[id.toNat]? = some label)
    (q : HeapTop) (position : Nat) :
    ∃ file, perfettoProc q proc position = .ok file ∧
      (∀ c, slicesOf pf.getpid.val (c + 1) file.traceEvents =
        (intervals c ((storedLog trace).map Prod.snd)).map
          (sliceOf pf.getpid (if start = uint64Max then 0 else start) trace)) ∧
      (∀ c, flowsOf pf.getpid.val (c + 1) file.traceEvents =
        (channelFlows c ((storedLog trace).map Prod.snd)).map
          (flowOf pf.getpid (if start = uint64Max then 0 else start))) ∧
      ∀ (pid : Int) tid, pid ≠ pf.getpid.val ∨ tid = 0 →
        slicesOf pid tid file.traceEvents = [] ∧ flowsOf pid tid file.traceEvents = [] := by
  obtain ⟨fields, hmetadata, hdocument⟩ := h.metadata
  obtain ⟨numChannels, hnum, hcount⟩ := hdocument.numChannels fun _ => huse.exists_names
  have htables := h.perfettoTables_eq hmetadata hdocument hnum
  obtain ⟨metadata, hevents⟩ := @Document.exists_metadataEvents _ _ _ _ hdocument
    (fun _ => huse.exists_names) (tablesOf pf.getpid start numChannels fields markerLabels)
    hnum rfl position
  have hshows := fun a ha hset a' =>
    @closePair_sliceOf _ _ start _ huse hrecorded hlabels a ha hset a' numChannels fields
  obtain ⟨file, hfile⟩ := exists_perfettoProc_of_closable (q := q) htables hevents
    (fun traces htraces a ha => by
      obtain ⟨x, hx, hids⟩ := exists_record hrecorded (h.mem_storedLog hdir htraces ha)
      show a.channelId.toNat < numChannels.toNat
      rw [hcount]
      exact huse.channels x hx _ hids)
    (fun traces htraces a ha hset =>
      ⟨_, hshows a (h.mem_storedLog hdir htraces ha) hset a⟩)
  obtain ⟨tables, hexport⟩ := perfettoProc_ok hfile
  obtain rfl := Except.ok.inj (htables.symm.trans hexport.tables_of)
  refine ⟨file, hfile, fun c => ?_, fun c => ?_, hexport.own_track⟩
  · have hintervals : intervals c (mergedPayloads q proc.btsFiles) =
        intervals c ((storedLog trace).map Prod.snd) :=
      intervals_congr (hdir.channelEvents huse hsorted h.files q c)
    have hc := hexport.slices c
    rw [hintervals] at hc
    refine Except.ok.inj (hc.symm.trans (mapM_eq_ok_map ?_))
    rintro ⟨a, a'⟩ hx
    exact hshows a (mem_channelEvents.mp (mem_intervals hx).1).1 (isSet_of_mem_intervals hx) a'
  · have hc := hexport.flows c
    rw [hdir.channelFlows huse hsorted h.files q c] at hc
    exact hc

theorem LoadedFolder.perfetto
    (h : LoadedFolder start trace markerLabels dir pf.getpid proc)
    (hdir : WrittenFolder pf start trace markerLabels dir) (huse : ProperUse pf trace)
    (hrecorded : ∀ x ∈ trace, x.1.call.record? = x.2.payload?.map Payload.ids)
    (hsorted : SortedBy Payload.time ((storedLog trace).map Prod.snd))
    (hlabels : ∀ x ∈ trace, ∀ id, x.2 = .eventId id →
      ∃ label, x.1.call.label? = some label ∧ markerLabels[id.toNat]? = some label)
    (q : HeapTop) {out : OutputFolder} (hopens : out.opens "perfetto.json" = true) :
    ∃ file, TraCR.perfetto q out [proc] = .ok file ∧
      ∀ c, slicesOf pf.getpid.val (c + 1) file.traceEvents =
        (intervals c ((storedLog trace).map Prod.snd)).map
          (sliceOf pf.getpid (if start = uint64Max then 0 else start) trace) := by
  obtain ⟨file, hfile, hslices, -⟩ :=
    h.exists_perfettoProc hdir huse hrecorded hsorted hlabels q 0
  exact ⟨file, perfetto_singleton_ok_iff.mpr ⟨hopens, hfile⟩, hslices⟩

end Loaded

/-- From the default library with an empty output directory, a run from START to END of
a program that uses it properly is recorded faithfully. -/
theorem faithful_of_run (hflush : b.disableFlush = false) (hpolicy : b.policy = .abortIfFull)
    {w₀ w : World b} (hfresh : Fresh w₀) (henabled : w₀.enableTracr = true)
    {first last : Action} {body : List Action} {obs : List Obs}
    (hstart : first.call = .start) (hstop : last.call = .stop)
    (hbody : ∀ a ∈ body, a.call.inRun)
    (huse : ProperUse pf ((first :: body ++ [last]).zip obs))
    (hrun : run pf w₀ (first :: body ++ [last]) = .ok (obs, w)) :
    Faithful pf (if pf.clock w₀.reads = uint64Max then 0 else pf.clock w₀.reads)
      ((first :: body ++ [last]).zip obs) (w₀.traceFolderPath ++ "tracr/") w.disk := by
  obtain ⟨obs₀, before, obs₁, hmost, hlast, rfl⟩ := exec_append_ok_iff.mp hrun
  obtain ⟨o, w₁, obs₂, hfirst, hrest, rfl⟩ := exec_cons_ok_iff.mp hmost
  obtain ⟨o', hend, rfl⟩ := exec_singleton_ok_iff.mp hlast
  have htrace : (first :: body ++ [last]).zip (o :: obs₂ ++ [o']) =
      ([(first, o)] ++ body.zip obs₂) ++ [(last, o')] := by
    rw [List.cons_append, List.cons_append, List.zip_cons_cons,
      List.zip_append (exec_length hrest).symm]
    rfl
  rw [htrace] at huse ⊢
  have htids : ((openedBy (([(first, o)] ++ body.zip obs₂).map Prod.fst)).map pf.gettid).Nodup := by
    have hall := huse.tids
    rw [List.map_append, List.map_cons, List.map_nil, openedBy_concat, hstop] at hall
    simpa [Call.opensSession] using hall
  have hj := (journal_start hflush hfresh henabled hstart hfirst).run hflush hpolicy huse.clock
    hbody htids hrest
  obtain ⟨rfl, halone, proc, dir, hrec, hdir, hwritten⟩ :=
    hj.stop hflush hpolicy hstop htids hend
  have hlog : storedLog (([(first, o)] ++ body.zip obs₂) ++ [(last, .nothing)]) =
      storedLog ([(first, o)] ++ body.zip obs₂) := by
    rw [storedLog_concat]
    exact List.append_nil _
  have hrecorded : ∀ x ∈ ([(first, o)] ++ body.zip obs₂) ++ [(last, Obs.nothing)],
      x.1.call.record? = x.2.payload?.map Payload.ids := by
    intro x hx
    rcases List.mem_append.mp hx with hx | hx
    · exact hj.recorded x hx
    · obtain rfl := List.mem_singleton.mp hx
      rw [hstop]
      rfl
  have hlabels : ∀ x ∈ ([(first, o)] ++ body.zip obs₂) ++ [(last, Obs.nothing)],
      ∀ id, x.2 = .eventId id →
        ∃ label, x.1.call.label? = some label ∧ proc.markerLabels[id.toNat]? = some label := by
    intro x hx id hid
    rcases List.mem_append.mp hx with hx | hx
    · exact hrec.labels x hx id hid
    · obtain rfl := List.mem_singleton.mp hx
      cases hid
  have hsorted := hj.timed.sorted
  have hread := hj.timed.read
  rw [← hlog] at hsorted hread
  refine ⟨hrecorded, ?_⟩
  rintro entries ⟨dirs, hdirs, hlists⟩ sorter q out hopens
  -- the proc folder is the only entry
  have hone : (w.disk.entries.filter fun e => e.1.base = w₀.traceFolderPath ++ "tracr/") =
      [⟨outputPath pf w₀, dir⟩] :=
    filter_entries_eq_singleton (p := fun path => path.base = w₀.traceFolderPath ++ "tracr/")
      hdir (by simp [outputPath]) fun path' hbase hne => halone path' (of_decide_eq_true hbase) hne
  rw [hone] at hdirs
  obtain rfl := List.perm_singleton.mp hdirs
  obtain ⟨entry, rfl, hentry⟩ : ∃ entry, entries = [entry] ∧
      Lists s!"proc.{pf.getpid}" dir entry := by
    cases hlists with
    | cons hentry hnil =>
        cases hnil
        exact ⟨_, rfl, hentry⟩
  obtain ⟨procData, hload, hloaded⟩ :=
    hwritten.exists_loadsAs (fun x hx => (hread x hx).1) hentry
  obtain ⟨file, hfile, hslices⟩ :=
    hloaded.perfetto hwritten huse hrecorded hsorted hlabels q hopens
  exact ⟨[procData], file, extractBtsMetadata_singleton hload, hfile, hslices⟩

def twoThreadCalls : List Action :=
  callsBy 0 [.markAdd "compute", .addNumberOfChannels 2, .markSet 0 0 1] ++
    callsBy 1 [.threadInit, .markSet 1 0 2, .markSet 0 0 3] ++
      callsBy 0 [.markReset 0] ++ callsBy 1 [.markReset 1, .threadFinalize]

def twoThreadRun : List (Action × Obs) :=
  (⟨0, .start, .none⟩ :: twoThreadCalls ++ [⟨0, .stop, .none⟩] : List Action).zip
    [.nothing, .eventId 0, .nothing, .stored ⟨0, 0, 1, 1⟩, .nothing, .stored ⟨1, 0, 2, 2⟩,
      .stored ⟨0, 0, 3, 3⟩, .stored ⟨0, eventIdReset, uint32Max, 4⟩,
      .stored ⟨1, eventIdReset, uint32Max, 5⟩, .nothing, .nothing]

theorem monotone_tickingClock : Monotone tickingPlatform.clock := by
  intro m n hmn
  show UInt64.ofNat (min m 100) ≤ UInt64.ofNat (min n 100)
  rw [UInt64.le_iff_toNat_le, UInt64.toNat_ofNat_of_lt' (by show _ < 2 ^ 64; omega),
    UInt64.toNat_ofNat_of_lt' (by show _ < 2 ^ 64; omega)]
  omega

theorem properUse_twoThreadRun : ProperUse tickingPlatform twoThreadRun where
  clock := monotone_tickingClock
  tids := by decide
  ties := by decide
  sets := by simp [twoThreadRun, twoThreadCalls, callsBy]
  channels := by
    have hdeclared : declaredChannels (twoThreadRun.map Prod.fst) = 2 := rfl
    rw [hdeclared]
    simp [twoThreadRun, twoThreadCalls, callsBy, Call.record?]
  names := by simp [twoThreadRun, twoThreadCalls, callsBy]

theorem faithful_two_threads :
    ∃ w, run tickingPlatform (World.initial eightPayloads)
        (⟨0, .start, .none⟩ :: twoThreadCalls ++ [⟨0, .stop, .none⟩]) =
          .ok (twoThreadRun.map Prod.snd, w) ∧
      Faithful tickingPlatform 0 twoThreadRun "tracr/" w.disk := by
  obtain ⟨w, hrun⟩ : ∃ w, run tickingPlatform (World.initial eightPayloads)
      (⟨0, .start, .none⟩ :: twoThreadCalls ++ [⟨0, .stop, .none⟩]) =
        .ok (twoThreadRun.map Prod.snd, w) := ⟨_, rfl⟩
  exact ⟨w, hrun, faithful_of_run rfl rfl (fresh_initial _) rfl rfl rfl
    (by simp [twoThreadCalls, callsBy, Call.inRun]) properUse_twoThreadRun hrun⟩

end TraCR
