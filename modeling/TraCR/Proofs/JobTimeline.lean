import TraCR.Proofs.FlowPairs
import TraCR.Proofs.Job
import TraCR.Proofs.Objects
import TraCR.Proofs.SameIntervals

/-!
# From the calls of a job to one Paraver timeline

Paraver shows all processes of a job on one timeline.  Every process is a task, every channel
a thread of it, and an arrow leads from a flow start to a flow end, also from one process to
another.
-/

namespace TraCR

open TraCR.Lib TraCR.Lib.Run TraCR.Lib.Sharing TraCR.Lib.Traversal TraCR.Lib.SortedList
  TraCR.Lib.Interleaving TraCR.Lib.Extrema

variable {b : Build} {pf : Platform}

/-! ## The statement -/

/-- The values of the events of a process: 0 for a reset, for a marker its colour. -/
structure ValuesOf (trace : List (Action × Obs)) (value : UInt16 → String) : Prop where
  reset : value eventIdReset = "0"
  colour : ∀ x ∈ trace, ∀ id, x.2 = .eventId id → ∃ colorId : UInt16,
    value id = toString colorId.toNat ∧ ∀ chosen, x.1.call.chosen? = some chosen → chosen = colorId
  distinct : ∀ x ∈ trace, ∀ y ∈ trace, ∀ id id', x.2 = .eventId id → y.2 = .eventId id' →
    value id = value id' → id = id'

section Statement

variable {ι : Type} [DecidableEq ι]

/-- The payloads the processes have stored, in the order of the turns. -/
def storedPayloads (shown : List (Option Obs × ι)) : List (Payload × ι) :=
  shown.filterMap fun x => (x.1.bind Obs.payload?).map fun p => (p, x.2)

def flowsIn (kind : UInt16) (flowId : UInt32) (log : List (Payload × ι)) : List (Payload × ι) :=
  log.filter fun x => x.1.eventId = kind ∧ x.1.extraId = flowId

/-- The first payload of the job, each counted from the start of its process. -/
def origin (starts : ι → UInt64) (log : List (Payload × ι)) : UInt64 :=
  let first := (log.map fun x => x.1.timestamp - starts x.2).foldl min uint64Max
  if first = uint64Max then 0 else first

def endpointOf (starts : ι → UInt64) (t0 : UInt64) (task : ι → Nat) (x : Payload × ι) :
    FlowEndpoint where
  timestamp := x.1.timestamp - starts x.2 - t0
  task := task x.2
  thread := x.1.channelId.toNat + 1

def eventOf (starts : ι → UInt64) (t0 : UInt64) (task : ι → Nat) (value : ι → UInt16 → String)
    (x : Payload × ι) : PrvRecord where
  timestamp := x.1.timestamp - starts x.2 - t0
  task := task x.2
  thread := x.1.channelId.toNat + 1
  colorId := value x.2 x.1.eventId

/-- `tracr.prv` shows what the job has stored.  Tasks are numbered by pid; every process has
its events, in order; and the starts and the ends of a flow are joined in the order of time,
so a flow with one start and one end is one arrow. -/
structure ShowsJob (pids : ι → Pid) (starts : ι → UInt64) (traces : ι → List (Action × Obs))
    (log : List (Payload × ι)) (task : ι → Nat) (value : ι → UInt16 → String)
    (file : PrvFile) : Prop where
  order : ∀ i j, task i < task j ↔ (pids i).val < (pids j).val
  tasks : ∀ k, (∃ i, task i = k) ↔ 1 ≤ k ∧ k ≤ file.taskChannels.length
  values : ∀ i, ValuesOf (traces i) (value i)
  events : ∀ i c, recordsOf (task i) (c + 1) file.events =
    (channelEvents c (source i log)).map fun p =>
      eventOf starts (origin starts log) task value (p, i)
  only : ∀ r ∈ file.events, (∃ i, r.task = task i) ∧ ∃ c, r.thread = c + 1
  arrows : ∀ flowId, ∃ sends recvs : List FlowEndpoint,
    sends.Perm ((flowsIn eventIdFlowStart flowId log).map
      (endpointOf starts (origin starts log) task)) ∧ SortedBy FlowEndpoint.time sends ∧
    recvs.Perm ((flowsIn eventIdFlowEnd flowId log).map
      (endpointOf starts (origin starts log) task)) ∧ SortedBy FlowEndpoint.time recvs ∧
    (file.comms.filter fun comm => comm.flowId = flowId).Perm
      ((sends.zip recvs).map fun x => ⟨x.1, x.2, flowId⟩)
  messages : (∀ flowId, (flowsIn eventIdFlowStart flowId log).length ≤ 1 ∧
      (flowsIn eventIdFlowEnd flowId log).length ≤ 1) →
    file.comms.Nodup ∧ ∀ comm, comm ∈ file.comms ↔ ∃ x y,
      flowsIn eventIdFlowStart comm.flowId log = [x] ∧
        flowsIn eventIdFlowEnd comm.flowId log = [y] ∧
          comm.send = endpointOf starts (origin starts log) task x ∧
            comm.recv = endpointOf starts (origin starts log) task y

structure FaithfulTimeline (pids : ι → Pid) (starts : ι → UInt64)
    (traces : ι → List (Action × Obs)) (log : List (Payload × ι)) (base : String)
    (disk : Disk) : Prop where
  recorded : ∀ i, ∀ x ∈ traces i, x.1.call.record? = x.2.payload?.map Payload.ids
  stored : ∀ i, source i log = (storedLog (traces i)).map Prod.snd
  exported : ∀ entries, ListsOutput base disk entries →
    ∀ (sorter : Sorter ProcData.pid) (ch : ParaverChoices) (out : OutputFolder),
      out.copiesStateCfg = true → out.opens "tracr.pcf" = true →
      out.opens "tracr.prv" = true → out.opens "tracr.row" = true →
        ∃ procs files task value, extractBtsMetadata sorter entries = .ok procs ∧
          paraver ch out procs = .ok files ∧
            ShowsJob pids starts traces log task value files.prv

end Statement

/-! ## One process -/

section Process

variable {start : UInt64} {trace : List (Action × Obs)} {proc : ProcData}

theorem LoadedSession.payloads_perm (h : LoadedSession pf start trace proc)
    (huse : ProperUse pf trace) :
    proc.btsFiles.flatten.Perm ((storedLog trace).map Prod.snd) := by
  obtain ⟨dir, reg, hwritten, hloaded, -⟩ := h.folder
  refine (mergedPayloads_perm .first proc.btsFiles).symm.trans ?_
  rw [List.perm_iff_count]
  intro p
  have hchannel : (mergedPayloads .first proc.btsFiles).filter
      (fun p' => p'.channelId.toNat = p.channelId.toNat) =
        ((storedLog trace).map Prod.snd).filter
          fun p' => p'.channelId.toNat = p.channelId.toNat :=
    hwritten.filter_mergedPayloads huse h.sorted hloaded.files .first
      fun p' hp' => of_decide_eq_true hp'
  have hcount := congrArg (List.count p) hchannel
  rwa [List.count_filter (by simp), List.count_filter (by simp)] at hcount

theorem LoadedSession.syncStart (h : LoadedSession pf start trace proc) :
    proc.syncStart = if start = uint64Max then 0 else start := by
  obtain ⟨dir, reg, hwritten, hloaded, -⟩ := h.folder
  exact hloaded.syncStart

theorem LoadedSession.channelEvents (h : LoadedSession pf start trace proc)
    (huse : ProperUse pf trace) (q : HeapTop) (c : Nat) :
    TraCR.channelEvents c (mergedPayloads q proc.btsFiles) =
      TraCR.channelEvents c ((storedLog trace).map Prod.snd) := by
  obtain ⟨dir, reg, hwritten, hloaded, -⟩ := h.folder
  exact hwritten.channelEvents huse h.sorted hloaded.files q c

def valueIn (reg : TraCRProc) (eventId : UInt16) : String :=
  if eventId = eventIdReset then "0"
  else toString ((reg.markerColorIds[eventId.toNat]?).getD 0).toNat

theorem Markers.ne_reset {reg : TraCRProc} {metadata : Json} (h : Markers trace reg metadata)
    {x : Action × Obs} (hx : x ∈ trace) {id : UInt16} (hid : x.2 = .eventId id) :
    id ≠ eventIdReset := by
  rintro rfl
  obtain ⟨colorId, hcolour, -⟩ := h.painted x hx _ hid
  have hlt := (List.getElem?_eq_some_iff.mp hcolour).1
  have hroom := h.reachable.registered.room
  rw [h.reachable.registered.colours] at hlt
  exact absurd (hlt.trans_le hroom) (by decide)

theorem Markers.valuesOf {reg : TraCRProc} {metadata : Json} (h : Markers trace reg metadata) :
    ValuesOf trace (valueIn reg) := by
  have hvalue : ∀ x ∈ trace, ∀ id, x.2 = .eventId id → ∃ colorId,
      reg.markerColorIds[id.toNat]? = some colorId ∧ valueIn reg id = toString colorId.toNat ∧
        ∀ chosen, x.1.call.chosen? = some chosen → chosen = colorId := by
    intro x hx id hid
    obtain ⟨colorId, hcolour, hchosen⟩ := h.painted x hx id hid
    refine ⟨colorId, hcolour, ?_, hchosen⟩
    rw [valueIn, if_neg (h.ne_reset hx hid), hcolour]
    rfl
  constructor
  case reset => exact if_pos rfl
  case colour =>
    intro x hx id hid
    obtain ⟨colorId, -, hvalue, hchosen⟩ := hvalue x hx id hid
    exact ⟨colorId, hvalue, hchosen⟩
  case distinct =>
    intro x hx y hy id id' hid hid' heq
    obtain ⟨colorId, hcolour, hcolorId, -⟩ := hvalue x hx id hid
    obtain ⟨colorId', hcolour', hcolorId', -⟩ := hvalue y hy id' hid'
    rw [hcolorId, hcolorId'] at heq
    have hsame : colorId = colorId' := UInt16.toNat_inj.mp (Decimal.toString_injective heq)
    obtain ⟨hlt, hget⟩ := List.getElem?_eq_some_iff.mp hcolour
    obtain ⟨hlt', hget'⟩ := List.getElem?_eq_some_iff.mp hcolour'
    exact UInt16.toNat_inj.mp (h.reachable.registered.nodup.getElem_inj_iff.mp
      (hget.trans (hsame.trans hget'.symm)))

theorem Markers.extractMarkerColorIds {reg : TraCRProc} {metadata : Json}
    (h : Markers trace reg metadata) :
    TraCR.extractMarkerColorIds metadata =
      .ok (reg.markerColorIds.map fun id => toString id.toNat) := by
  obtain ⟨fields, rfl, hreflects⟩ := h.published.reflects h.reachable
  exact hreflects.extractMarkerColorIds

theorem recordColorId_valueIn {reg : TraCRProc} {metadata : Json}
    (hmarkers : Markers trace reg metadata) (huse : ProperUse pf trace)
    (hrecorded : ∀ x ∈ trace, x.1.call.record? = x.2.payload?.map Payload.ids) {p : Payload}
    (hp : p ∈ (storedLog trace).map Prod.snd) (hflow : p.isFlow = false) :
    recordColorId (reg.markerColorIds.map fun id => toString id.toNat) p.eventId =
      .ok (valueIn reg p.eventId) := by
  by_cases hreset : p.eventId = eventIdReset
  · rw [recordColorId, valueIn, if_pos hreset, if_pos hreset]
  · have hset : p.isSet = true := Payload.isSet_iff.mpr ⟨hflow, hreset⟩
    obtain ⟨x, hx, hcall⟩ := exists_markSet hrecorded hp hset
    obtain ⟨y, hy, hid⟩ := huse.sets x hx _ _ _ hcall
    obtain ⟨colorId, hcolour, -⟩ := hmarkers.painted y hy _ hid
    have hsome : reg.markerColorIds ≠ [] := by
      intro hnil
      rw [hnil] at hcolour
      cases hcolour
    refine (recordColorId_ok_iff hsome).mpr (.inr ⟨hreset, colorId, hcolour, ?_⟩)
    rw [valueIn, if_neg hreset, hcolour]
    rfl

theorem LoadedSession.exists_value (h : LoadedSession pf start trace proc)
    (huse : ProperUse pf trace) :
    ∃ value, ValuesOf trace value ∧ ∃ colours, TraCR.extractMarkerColorIds proc.metadata =
      .ok colours ∧ ∀ p ∈ (storedLog trace).map Prod.snd, p.isFlow = false →
        recordColorId colours p.eventId = .ok (value p.eventId) := by
  obtain ⟨dir, reg, -, -, hmarkers⟩ := h.folder
  exact ⟨valueIn reg, hmarkers.valuesOf, _, hmarkers.extractMarkerColorIds, fun p hp hflow =>
    recordColorId_valueIn hmarkers huse h.recorded hp hflow⟩

theorem Document.exists_channelInfo {actions : List Action} {labels : List String}
    {fields : List (String × Json)} (h : Document start actions labels fields)
    (hnames : ∀ names, declaredNames actions = some names →
      ∃ l : List String, names = .array (l.map .string)) :
    ∃ info, extractChannelInfo (.object fields) = .ok info := by
  unfold extractChannelInfo
  have hlookup := h.names
  cases hdeclared : declaredNames actions with
  | some names =>
      obtain ⟨l, rfl⟩ := hnames names hdeclared
      rw [hdeclared] at hlookup
      rw [Json.field?_of_lookup hlookup (by simp)]
      exact ⟨_, bind_ok_iff.mpr ⟨l, mapM_getString l, rfl⟩⟩
  | none =>
      rw [hdeclared] at hlookup
      rw [Json.field?_of_lookup_none hlookup]
      have hnumber := h.number hdeclared
      cases hdeclared' : declaredNumber actions with
      | none =>
          rw [hdeclared'] at hnumber
          rw [Json.field?_of_lookup_none hnumber]
          exact ⟨_, rfl⟩
      | some n =>
          rw [hdeclared'] at hnumber
          rw [Json.field?_of_lookup hnumber (by simp)]
          exact ⟨_, rfl⟩

theorem LoadedSession.exists_channelInfo (h : LoadedSession pf start trace proc)
    (huse : ProperUse pf trace) : ∃ info, extractChannelInfo proc.metadata = .ok info := by
  obtain ⟨dir, reg, hwritten, hloaded, -⟩ := h.folder
  obtain ⟨fields, hmetadata, hdocument⟩ := hloaded.metadata
  rw [hmetadata]
  exact hdocument.exists_channelInfo fun _ => huse.exists_names

end Process

/-! ## The export succeeds -/

section Job

variable {ι : Type} {platforms : ι → Platform} {clocks : ι → UInt64}
  {traces : ι → List (Action × Obs)} {order : List ι} {procs : List ProcData}
  (hjob : OfJob (fun i => LoadedSession (platforms i) (clocks i) (traces i)) order procs)
  (huse : ∀ i, ProperUse (platforms i) (traces i))

include hjob in
theorem exists_of_mem_job {proc : ProcData} (hproc : proc ∈ procs) :
    ∃ i, LoadedSession (platforms i) (clocks i) (traces i) proc := by
  obtain ⟨i, -, hloaded⟩ := exists_mem_left hjob.each hproc
  exact ⟨i, hloaded⟩

include hjob in
theorem anchored_of_job : ∀ proc ∈ procs, Anchored proc := by
  intro proc hproc
  obtain ⟨i, hloaded⟩ := exists_of_mem_job hjob hproc
  exact hloaded.anchored

include hjob huse

omit huse in
theorem exists_tasksOf_of_job (t0 : UInt64) : ∃ tasks, TasksOf t0 procs tasks := by
  refine exists_mapM_ok_iff.mpr ?_
  rintro ⟨proc, p⟩ hx
  obtain ⟨i, hloaded⟩ := exists_of_mem_job hjob (List.fst_mem_of_mem_zipIdx hx)
  obtain ⟨dir, reg, -, -, hmarkers⟩ := hloaded.folder
  exact ⟨_, bind_ok_iff.mpr ⟨_, hmarkers.extractMarkerColorIds, rfl⟩⟩

theorem exists_records {q : HeapTop} {t0 : UInt64} {tasks : List PrvTask}
    (htasks : TasksOf t0 procs tasks) :
    ∃ rs, (prvItems q procs tasks).mapM itemRecord = .ok rs := by
  refine exists_mapM_ok_iff.mpr fun item hitem => ?_
  obtain ⟨k, hk, hk', htask, hmem⟩ := htasks.mem_prvItems.mp hitem
  obtain ⟨i, hloaded⟩ := exists_of_mem_job hjob (List.getElem_mem hk)
  obtain ⟨_, hcolours, _⟩ := htasks.getElem hk
  unfold itemRecord
  by_cases hflow : item.2.isFlow = true
  · rw [if_pos hflow]
    exact ⟨none, rfl⟩
  · rw [if_neg hflow]
    have hlog : item.2 ∈ (storedLog (traces i)).map Prod.snd :=
      (hloaded.payloads_perm (huse i)).mem_iff.mp
        ((mergedPayloads_perm q _).mem_iff.mp hmem)
    obtain ⟨value, -, colours, hcolours', hrecord⟩ := hloaded.exists_value (huse i)
    have hsame := Except.ok.inj (hcolours.symm.trans hcolours')
    rw [htask, hsame, hrecord _ hlog (Bool.eq_false_of_not_eq_true hflow)]
    exact ⟨_, rfl⟩

theorem exists_createTracrPrv {ch : ParaverChoices} {out : OutputFolder} (channels : List Nat)
    (hopens : out.opens "tracr.prv" = true) :
    ∃ file, createTracrPrv ch out procs channels = .ok file := by
  obtain ⟨tasks, htasks⟩ := exists_tasksOf_of_job hjob (globalT0 procs)
  obtain ⟨rs, hrs⟩ := exists_records hjob huse (q := ch.heapTop) htasks
  have hloop : ∃ st, prvLoop ch.heapTop procs = .ok st := by
    refine ⟨_, foldlM_prvProc_ok_iff.mpr ⟨tasks, rs, htasks, ?_, rfl⟩⟩
    rw [List.zipIdx_map_fst]
    exact hrs
  obtain ⟨st, hst⟩ := hloop
  exact ⟨_, createTracrPrv_ok_iff.mpr ⟨hopens, st, hst, rfl⟩⟩

theorem exists_paraver {ch : ParaverChoices} {out : OutputFolder}
    (hcopies : out.copiesStateCfg = true) (hpcf : out.opens "tracr.pcf" = true)
    (hprv : out.opens "tracr.prv" = true) (hrow : out.opens "tracr.row" = true) :
    ∃ files, paraver ch out procs = .ok files := by
  obtain ⟨types, htypes⟩ : ∃ types,
      procs.mapM (fun proc => markerTypesFields proc.metadata) = .ok types := by
    refine exists_mapM_ok_iff.mpr fun proc hproc => ?_
    obtain ⟨i, hloaded⟩ := exists_of_mem_job hjob hproc
    obtain ⟨dir, reg, -, -, hmarkers⟩ := hloaded.folder
    exact hmarkers.types
  obtain ⟨channels, hchannels⟩ : ∃ channels,
      procs.mapM (fun proc => extractChannelInfo proc.metadata) = .ok channels := by
    refine exists_mapM_ok_iff.mpr fun proc hproc => ?_
    obtain ⟨i, hloaded⟩ := exists_of_mem_job hjob hproc
    exact hloaded.exists_channelInfo (huse i)
  obtain ⟨prv, hfile⟩ := @exists_createTracrPrv _ _ _ _ _ _ hjob huse ch out
    (channels.map Prod.fst) hprv
  unfold paraver createTracrPcf createTracrRow
  rw [hcopies, hpcf, hrow, htypes, hchannels]
  simp only [Bool.not_true, Bool.false_eq_true, if_false, bind_ok_iff, pure_ok_iff]
  exact ⟨_, _, ⟨_, rfl, rfl⟩, _, rfl, prv, hfile, _, rfl, rfl⟩

end Job

/-! ## What the export shows -/

theorem foldl_rebasedFronts_eq {procs : List ProcData}
    (hanchored : ∀ proc ∈ procs, Anchored proc) :
    (rebasedFronts procs).foldl min uint64Max =
      (procs.flatMap fun proc => proc.btsFiles.flatten.map fun p =>
        p.timestamp - proc.syncStart).foldl min uint64Max := by
  apply le_antisymm
  · refine le_foldl_min_iff.mpr ⟨(le_foldl_min_iff.mp le_rfl).1, fun t ht => ?_⟩
    obtain ⟨proc, hproc, hmem⟩ := List.mem_flatMap.mp ht
    obtain ⟨p, hp, rfl⟩ := List.mem_map.mp hmem
    obtain ⟨file, hfile, hp⟩ := List.mem_flatten.mp hp
    obtain ⟨front, rest, rfl⟩ := List.exists_cons_of_ne_nil (List.ne_nil_of_mem hp)
    have hfront : front.timestamp - proc.syncStart ∈ rebasedFronts procs :=
      mem_rebasedFronts.mpr ⟨proc, hproc, _, hfile, front, rfl, rfl⟩
    refine (foldl_min_le hfront).trans (sub_le_sub ?_ ?_)
    · exact (hanchored proc hproc).start_le _ hfile front List.mem_cons_self
    · exact front_le ((hanchored proc hproc).sorted _ hfile) rfl hp
  · refine le_foldl_min_iff.mpr ⟨(le_foldl_min_iff.mp le_rfl).1, fun t ht => ?_⟩
    obtain ⟨proc, hproc, file, hfile, front, hfront, rfl⟩ := mem_rebasedFronts.mp ht
    refine foldl_min_le (List.mem_flatMap.mpr ⟨proc, hproc, List.mem_map_of_mem ?_⟩)
    exact List.mem_flatten.mpr ⟨file, hfile, List.mem_of_mem_head? hfront⟩

theorem comms_perm {ch : ParaverChoices} {out : OutputFolder} {procs : List ProcData}
    {channels : List Nat} {file : PrvFile}
    (h : createTracrPrv ch out procs channels = .ok file) (flowId : UInt32) :
    ∃ sends recvs : List FlowEndpoint,
      sends.Perm (flowEndpoints procs eventIdFlowStart flowId) ∧
      SortedBy FlowEndpoint.time sends ∧
      recvs.Perm (flowEndpoints procs eventIdFlowEnd flowId) ∧
      SortedBy FlowEndpoint.time recvs ∧
      (file.comms.filter fun comm => comm.flowId = flowId).Perm
        ((sends.zip recvs).map fun x => ⟨x.1, x.2, flowId⟩) := by
  obtain ⟨-, st, hst, rfl⟩ := createTracrPrv_ok_iff.mp h
  obtain ⟨tasks, rs, habsorbed⟩ := prvLoop_ok hst
  have hsends := habsorbed.tasks_of.itemEndpoints_perm (q := ch.heapTop) eventIdFlowStart flowId
  have hrecvs := habsorbed.tasks_of.itemEndpoints_perm (q := ch.heapTop) eventIdFlowEnd flowId
  rw [← habsorbed.starts] at hsends
  rw [← habsorbed.ends] at hrecvs
  refine ⟨_, _, (ch.sortEndpoints.perm _).trans hsends, ch.sortEndpoints.sorted _,
    (ch.sortEndpoints.perm _).trans hrecvs, ch.sortEndpoints.sorted _, ?_⟩
  rw [PrvFile.comms, filterMap_comm?_interleave]
  have hsort := (ch.sortComms.perm (pairFlows ch st.flowStarts st.flowEnds).1).filter
    fun comm => comm.flowId = flowId
  rwa [filter_pairFlows] at hsort

/-- With at most one start and one end of every id, the records are the pairs of these. -/
theorem mem_comms_iff {file : PrvFile} {starts ends : UInt32 → List FlowEndpoint}
    (harrows : ∀ flowId, ∃ sends recvs : List FlowEndpoint,
      sends.Perm (starts flowId) ∧ SortedBy FlowEndpoint.time sends ∧
      recvs.Perm (ends flowId) ∧ SortedBy FlowEndpoint.time recvs ∧
      (file.comms.filter fun comm => comm.flowId = flowId).Perm
        ((sends.zip recvs).map fun x => ⟨x.1, x.2, flowId⟩))
    (hsingle : ∀ flowId, (starts flowId).length ≤ 1 ∧ (ends flowId).length ≤ 1) :
    file.comms.Nodup ∧ ∀ comm, comm ∈ file.comms ↔
      starts comm.flowId = [comm.send] ∧ ends comm.flowId = [comm.recv] := by
  constructor
  · apply nodup_of_flowId
    intro flowId
    obtain ⟨sends, recvs, hsends, -, -, -, hcomms⟩ := harrows flowId
    rw [hcomms.length_eq, List.length_map, List.length_zip, hsends.length_eq]
    exact (Nat.min_le_left _ _).trans (hsingle flowId).1
  · intro comm
    obtain ⟨sends, recvs, hsends, -, hrecvs, -, hcomms⟩ := harrows comm.flowId
    have hmem := hcomms.mem_iff (a := comm)
    rw [List.mem_filter] at hmem
    rw [← mem_zip_iff_of_perm hsends hrecvs (hsingle _).1 (hsingle _).2]
    constructor
    · intro h
      obtain ⟨x, hx, heq⟩ := List.mem_map.mp (hmem.mp ⟨h, by simp⟩)
      rwa [← heq]
    · intro h
      exact (hmem.mpr (List.mem_map.mpr ⟨_, h, rfl⟩)).1

section Shown

variable {ι : Type} [DecidableEq ι] {platforms : ι → Platform} {clocks starts : ι → UInt64}
  {traces : ι → List (Action × Obs)} {order : List ι} {procs : List ProcData}
  {log : List (Payload × ι)}
  (hjob : OfJob (fun i => LoadedSession (platforms i) (clocks i) (traces i)) order procs)
  (hstarts : ∀ i, starts i = if clocks i = uint64Max then 0 else clocks i)
  (huse : ∀ i, ProperUse (platforms i) (traces i))
  (hlog : ∀ i, source i log = (storedLog (traces i)).map Prod.snd)

def taskIn (order : List ι) (i : ι) : Nat := order.idxOf i + 1

omit [DecidableEq ι] in
include hjob hstarts in
theorem syncStart_of_job {k : Nat} (hk : k < procs.length) (hk' : k < order.length) :
    procs[k].syncStart = starts order[k] := by
  obtain ⟨_, hloaded⟩ := hjob.getElem hk
  rw [hstarts]
  exact LoadedSession.syncStart hloaded

include hjob in
theorem taskIn_getElem {k : Nat} (hk : k < order.length) : taskIn order order[k] = k + 1 := by
  rw [taskIn, hjob.nodup.idxOf_getElem]

include hjob hstarts huse hlog

omit hstarts in
/-- The files of a process hold what it has stored. -/
theorem payloads_perm_source {k : Nat} (hk : k < procs.length) (hk' : k < order.length) :
    procs[k].btsFiles.flatten.Perm (source order[k] log) := by
  obtain ⟨_, hloaded⟩ := hjob.getElem hk
  rw [hlog]
  exact LoadedSession.payloads_perm hloaded (huse _)

theorem flatMap_procs_perm {γ : Type} (shape : UInt64 → Nat → Payload → γ) (keep : Payload → Bool) :
    (procs.zipIdx.flatMap fun x => (x.1.btsFiles.flatten.filter keep).map
      (shape x.1.syncStart (x.2 + 1))).Perm
        ((log.filter fun x => keep x.1).map fun x =>
          shape (starts x.2) (taskIn order x.2) x.1) := by
  have hall : (order.flatMap fun i => (source i log).map fun a => (a, i)).Perm log :=
    flatMap_source_perm hjob.nodup fun x _ => hjob.all x.2
  refine List.Perm.trans ?_ ((hall.filter fun x => keep x.1).map
    fun x => shape (starts x.2) (taskIn order x.2) x.1)
  rw [List.filter_flatMap, List.map_flatMap]
  apply flatMap_perm_of_forall₂
  rw [List.forall₂_iff_get]
  refine ⟨by simpa using hjob.length_eq, fun k hk hk' => ?_⟩
  have hk : k < procs.length := by simpa using hk
  simp only [List.get_eq_getElem, List.getElem_zipIdx, Nat.zero_add, List.filter_map,
    List.map_map, Function.comp_def, syncStart_of_job hjob hstarts hk hk', taskIn_getElem hjob hk']
  exact ((payloads_perm_source hjob huse hlog hk hk').filter keep).map _

theorem globalT0_eq_origin : globalT0 procs = origin starts log := by
  have hperm := flatMap_procs_perm hjob hstarts huse hlog
    (fun start _ p => p.timestamp - start) fun _ => true
  simp only [List.filter_true] at hperm
  have hplain := List.flatMap_map (f := fun x : ProcData × Nat => x.1)
    (g := fun proc : ProcData => proc.btsFiles.flatten.map fun p => p.timestamp - proc.syncStart)
    (l := procs.zipIdx)
  rw [List.zipIdx_map_fst] at hplain
  rw [globalT0_eq, foldl_rebasedFronts_eq (anchored_of_job hjob),
    foldl_min_perm (hplain ▸ hperm)]
  rfl

theorem recordsOf_events {ch : ParaverChoices} {prv : PrvFile} {tasks : List PrvTask}
    {rs : List (Option PrvRecord)} (hexported : Exported ch procs prv tasks rs)
    {value : ι → UInt16 → String}
    (hvalue : ∀ k (hk : k < procs.length) (hk' : k < order.length), ∃ colours,
      extractMarkerColorIds procs[k].metadata = .ok colours ∧ ∀ p ∈ source order[k] log,
        p.isFlow = false → recordColorId colours p.eventId = .ok (value order[k] p.eventId))
    (i : ι) (c : Nat) :
    recordsOf (taskIn order i) (c + 1) prv.events = (channelEvents c (source i log)).map fun p =>
      eventOf starts (globalT0 procs) (taskIn order) value (p, i) := by
  obtain ⟨k, hk, hk', rfl, hloaded⟩ := hjob.exists_getElem i
  have hloaded : LoadedSession (platforms order[k]) (clocks order[k]) (traces order[k]) procs[k] :=
    hloaded
  obtain ⟨hk'', hcolours, htask', hsync, hglobal⟩ := hexported.tasks_of.getElem hk
  obtain ⟨colours, hcolours', hrecord⟩ := hvalue k hk hk'
  have hsame := Except.ok.inj (hcolours.symm.trans hcolours')
  have hforall := hexported.forall₂_recordedAs (anchored_of_job hjob) hk hk'' c
  rw [hloaded.channelEvents (huse _), ← hlog] at hforall
  have htask := taskIn_getElem hjob hk'
  rw [htask]
  symm
  rw [← List.forall₂_eq_eq_eq, List.forall₂_map_left_iff]
  refine ((List.forall₂_and_left _ _).mpr ⟨fun p hp => hp, hforall⟩).imp ?_
  rintro p r ⟨hp, hr⟩
  obtain ⟨hcolor, htime, hr', hthread⟩ := taskRecord_ok_iff.mp hr.record
  rw [hsame, hrecord p (mem_channelEvents.mp hp).1 hr.isFlow] at hcolor
  rw [PrvTask.normalize, hsync, hglobal, syncStart_of_job hjob hstarts hk hk'] at htime
  obtain ⟨timestamp, task, thread, colorId⟩ := r
  rw [eventOf, PrvRecord.mk.injEq]
  exact ⟨htime.symm, htask.trans (htask'.symm.trans hr'.symm), hthread.symm,
    Except.ok.inj hcolor⟩

theorem arrows_of_job {ch : ParaverChoices} {out : OutputFolder} {channels : List Nat}
    {file : PrvFile} (h : createTracrPrv ch out procs channels = .ok file) (flowId : UInt32) :
    ∃ sends recvs : List FlowEndpoint,
      sends.Perm ((flowsIn eventIdFlowStart flowId log).map
        (endpointOf starts (origin starts log) (taskIn order))) ∧
      SortedBy FlowEndpoint.time sends ∧
      recvs.Perm ((flowsIn eventIdFlowEnd flowId log).map
        (endpointOf starts (origin starts log) (taskIn order))) ∧
      SortedBy FlowEndpoint.time recvs ∧
      (file.comms.filter fun comm => comm.flowId = flowId).Perm
        ((sends.zip recvs).map fun x => ⟨x.1, x.2, flowId⟩) := by
  rw [← globalT0_eq_origin hjob hstarts huse hlog]
  have hends : ∀ kind, (flowEndpoints procs kind flowId).Perm
      ((flowsIn kind flowId log).map
        (endpointOf starts (globalT0 procs) (taskIn order))) := fun kind =>
    flatMap_procs_perm hjob hstarts huse hlog
      (fun start task p =>
        FlowEndpoint.mk (p.timestamp - start - globalT0 procs) task (p.channelId.toNat + 1))
      fun p => p.eventId = kind ∧ p.extraId = flowId
  obtain ⟨sends, recvs, hsends, hsorted, hrecvs, hsorted', hcomms⟩ := comms_perm h flowId
  exact ⟨sends, recvs, hsends.trans (hends _), hsorted, hrecvs.trans (hends _), hsorted', hcomms⟩

omit [DecidableEq ι] hstarts huse hlog in
/-- Sorted by pid, the places of the processes are in the order of their pids. -/
theorem lt_iff_pid_lt (hpids : ∀ i j, (platforms i).getpid = (platforms j).getpid → i = j)
    (hsorted : SortedBy ProcData.pid procs) {k l : Nat} (hk : k < order.length)
    (hl : l < order.length) :
    k < l ↔ (platforms order[k]).getpid.val < (platforms order[l]).getpid.val := by
  have hpid : ∀ m (hm : m < order.length) (hm' : m < procs.length),
      procs[m].pid = (platforms order[m]).getpid.val := by
    intro m hm hm'
    obtain ⟨_, hloaded⟩ := hjob.getElem hm'
    obtain ⟨dir, reg, -, hfolder, -⟩ := LoadedSession.folder hloaded
    exact hfolder.pid
  have hlt : ∀ m n (hm : m < order.length) (hn : n < order.length), m < n →
      (platforms order[m]).getpid.val < (platforms order[n]).getpid.val := by
    intro m n hm hn hmn
    have hm' : m < procs.length := hjob.length_eq ▸ hm
    have hn' : n < procs.length := hjob.length_eq ▸ hn
    have hle := List.pairwise_iff_getElem.mp hsorted m n hm' hn' hmn
    rw [hpid m hm hm', hpid n hn hn'] at hle
    refine lt_of_le_of_ne (by exact_mod_cast hle) fun heq => ?_
    exact absurd (hjob.nodup.getElem_inj_iff.mp (hpids _ _ (Subtype.ext heq))) (by omega)
  refine ⟨hlt k l hk hl, fun h => ?_⟩
  by_contra hnot
  rcases Nat.lt_or_eq_of_le (Nat.le_of_not_lt hnot) with hlk | rfl
  · exact absurd (hlt l k hl hk hlk) (by omega)
  · exact absurd h (lt_irrefl _)

/-- What the export of a loaded job shows. -/
theorem OfJob.showsJob (hpids : ∀ i j, (platforms i).getpid = (platforms j).getpid → i = j)
    (hsorted : SortedBy ProcData.pid procs) {ch : ParaverChoices} {out : OutputFolder}
    {files : ParaverFiles} (h : paraver ch out procs = .ok files) :
    ∃ value, ShowsJob (fun i => (platforms i).getpid) starts traces log (taskIn order) value
      files.prv := by
  obtain ⟨channels, hchannels, hprv, -⟩ := paraver_ok h
  obtain ⟨htaskChannels, tasks, rs, hexported⟩ := createTracrPrv_ok hprv
  have hvalue : ∀ i, ∃ value, ValuesOf (traces i) value ∧ ∀ k (hk : k < procs.length)
      (hk' : k < order.length), order[k] = i → ∃ colours,
        extractMarkerColorIds procs[k].metadata = .ok colours ∧ ∀ p ∈ source i log,
          p.isFlow = false → recordColorId colours p.eventId = .ok (value p.eventId) := by
    intro i
    obtain ⟨k, hk, hk', rfl, hloaded⟩ := hjob.exists_getElem i
    obtain ⟨value, hvalues, hcolours⟩ := LoadedSession.exists_value hloaded (huse _)
    refine ⟨value, hvalues, fun l hl hl' heq => ?_⟩
    obtain rfl := hjob.nodup.getElem_inj_iff.mp heq
    rw [hlog]
    exact hcolours
  choose value hvalues hcolours using hvalue
  refine ⟨value, ?_⟩
  constructor
  case order =>
    intro i j
    obtain ⟨k, -, hk, rfl, -⟩ := hjob.exists_getElem i
    obtain ⟨l, -, hl, rfl, -⟩ := hjob.exists_getElem j
    rw [taskIn_getElem hjob hk, taskIn_getElem hjob hl, Nat.add_lt_add_iff_right]
    exact lt_iff_pid_lt hjob hpids hsorted hk hl
  case tasks =>
    have hlength : files.prv.taskChannels.length = order.length := by
      rw [htaskChannels, List.length_map, length_mapM hchannels, hjob.length_eq]
    intro k
    rw [hlength]
    constructor
    · rintro ⟨i, rfl⟩
      exact ⟨Nat.succ_pos _, List.idxOf_lt_length_of_mem (hjob.all i)⟩
    · rintro ⟨hpos, hle⟩
      obtain ⟨k, rfl⟩ := Nat.exists_eq_succ_of_ne_zero (Nat.ne_of_gt hpos)
      exact ⟨order[k], taskIn_getElem hjob hle⟩
  case values => exact hvalues
  case events =>
    rw [← globalT0_eq_origin hjob hstarts huse hlog]
    exact recordsOf_events hjob hstarts huse hlog hexported
      fun k hk hk' => hcolours order[k] k hk hk' rfl
  case only =>
    intro r hr
    rw [hexported.events_eq, mem_stableSort] at hr
    obtain ⟨item, hitem, hrecord⟩ := exists_of_mem_mapM (mapM_taskRecord hexported.records_of) hr
    obtain ⟨k, hk, hk', htask, -⟩ := hexported.tasks_of.mem_prvItems.mp
      (List.mem_filter.mp hitem).1
    obtain ⟨-, -, hrtask, hrthread⟩ := taskRecord_ok_iff.mp hrecord
    obtain ⟨_, -, hnumber, -⟩ := hexported.tasks_of.getElem hk
    have hlt : k < order.length := hjob.length_eq ▸ hk
    refine ⟨⟨order[k], ?_⟩, _, hrthread⟩
    rw [hrtask, htask, hnumber, taskIn_getElem hjob hlt]
  case arrows => exact arrows_of_job hjob hstarts huse hlog hprv
  case messages =>
    intro hsingle
    obtain ⟨hnodup, hmem⟩ := mem_comms_iff (arrows_of_job hjob hstarts huse hlog hprv)
      fun flowId => by simpa using hsingle flowId
    refine ⟨hnodup, fun comm => ?_⟩
    rw [hmem, List.map_eq_singleton_iff, List.map_eq_singleton_iff]
    constructor
    · rintro ⟨⟨x, hx, hsend⟩, y, hy, hrecv⟩
      exact ⟨x, y, hx, hy, hsend.symm, hrecv.symm⟩
    · rintro ⟨x, y, hx, hy, hsend, hrecv⟩
      exact ⟨⟨x, hx, hsend.symm⟩, y, hy, hrecv.symm⟩

end Shown

/-! ## From the calls -/

section Calls

variable {ι : Type} [DecidableEq ι] {builds : ι → Build} {platforms : ι → Platform}

theorem source_storedPayloads {i : ι} {turns : List (Action × ι)}
    {shown : List (Option Obs × ι)} {obs : List Obs}
    (hlength : obs.length = (source i turns).length)
    (hshown : source i shown = obs.map some) :
    source i (storedPayloads shown) = (storedLog (traceOf i turns shown)).map Prod.snd := by
  have hobs : (source i shown).reduceOption = obs := by
    rw [hshown, List.reduceOption]
    simp
  have hstored : ∀ trace : List (Action × Obs), (storedLog trace).map Prod.snd =
      (trace.map Prod.snd).filterMap Obs.payload? := by
    intro trace
    rw [storedLog, List.map_filterMap, List.filterMap_map]
    refine List.filterMap_congr fun x _ => ?_
    cases hx : x.2 <;> simp [Obs.payload?, hx]
  have hsource : source i (storedPayloads shown) =
      (source i shown).filterMap fun o => o.bind Obs.payload? :=
    source_filterMap (fun o : Option Obs => o.bind Obs.payload?) i shown
  rw [hsource, hshown, hstored, traceOf, hobs, List.map_snd_zip (le_of_eq hlength),
    List.filterMap_map]
  rfl

variable (hpids : ∀ i j, (platforms i).getpid = (platforms j).getpid → i = j)
  (hflush : ∀ i, (builds i).disableFlush = false)
  (hpolicy : ∀ i, (builds i).policy = .abortIfFull)
  {path : String} {disk disk' : Disk} {worlds : ∀ i, World (builds i)}
  (hbefore : ∀ i, BeforeStart path disk (worlds i))
  {turns : List (Action × ι)} {shown : List (Option Obs × ι)}
  {processes : ∀ i, Process (builds i)}
  (hrun : together (jobCall builds platforms) (fun i => .ok (worlds i)) disk turns =
    (shown, processes, disk'))

include hpids hflush hpolicy hbefore hrun

/-- In a job of default libraries whose processes have different ids, share an empty output
directory, use the library properly and go from START to END in any interleaving, the
Paraver export shows what the processes have stored, on one timeline. -/
theorem timeline_of_job [Nonempty ι] (hsession : ∀ i, OneSession (source i turns))
    (hended : ∀ i, ∃ w, processes i = .ok w)
    (huse : ∀ i, ProperUse (platforms i) (traceOf i turns shown)) :
    FaithfulTimeline (fun i => (platforms i).getpid)
      (fun i => startTime (platforms i) (worlds i)) (fun i => traceOf i turns shown)
      (storedPayloads shown) (path ++ "tracr/") disk' := by
  have hstored : ∀ i, source i (storedPayloads shown) =
      (storedLog (traceOf i turns shown)).map Prod.snd := by
    intro i
    obtain ⟨obs, w, own, hobs, hshown, -⟩ := exists_run_of_together hpids hbefore hrun (hended i)
    exact source_storedPayloads (exec_length hobs) hshown
  refine ⟨fun i => (session_of_together hpids hflush hpolicy hbefore hrun (hsession i) (hended i)
    (huse i)).recorded, hstored, ?_⟩
  intro entries hlisted sorter ch out hcopies hpcf hprv hrow
  obtain ⟨order, procs, hload, hsorted, hjob⟩ := exists_ofJob hpids hflush hpolicy hbefore hrun
    hsession hended huse hlisted sorter
  obtain ⟨files, hfiles⟩ := exists_paraver hjob huse hcopies hpcf hprv hrow
  obtain ⟨value, hshows⟩ := hjob.showsJob (fun _ => rfl) huse hstored hpids hsorted hfiles
  exact ⟨procs, files, taskIn order, value, hload, hfiles, hshows⟩

end Calls

theorem timeline_two_procs :
    FaithfulTimeline (fun i => (twoProcs i).getpid) (fun _ => 0) jobTrace
      (storedPayloads jobOut.1) "tracr/" jobOut.2.2 := by
  have hjob := @timeline_of_job Bool _ (fun _ => eightPayloads) twoProcs twoProcs_injective
    (fun _ => rfl) (fun _ => rfl) "" ∅ jobOut.2.2 (fun _ => World.initial eightPayloads)
    (fun _ => ⟨fresh_initial _, rfl, rfl, rfl⟩) jobTurns jobOut.1 jobOut.2.1 rfl _
    oneSession_jobTurns (fun i => (source_jobOut i).2)
    (fun i => (traceOf_jobOut i).symm ▸ properUse_jobTrace i)
  simp only [traceOf_jobOut] at hjob
  exact hjob

end TraCR
