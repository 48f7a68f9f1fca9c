import Mathlib.Data.List.ReduceOption
import TraCR.Lib.Traversal
import TraCR.Postprocess.Channel
import TraCR.Postprocess.Paraver
import TraCR.Proofs.Merger

/-!
# What the Paraver loop accumulates

The two nested loops visit the payloads of all procs in (proc, merge) order.
Whether they fail depends on the payloads alone; what they leave is one record
per payload that is not a flow and one endpoint per payload that is.
-/

namespace TraCR

open TraCR.Lib TraCR.Lib.Traversal TraCR.Lib.SortedList

/-- The payloads of all procs in loop order, each with the task it belongs to. -/
def prvItems (q : HeapTop) (procs : List ProcData) (tasks : List PrvTask) :
    List (PrvTask × Payload) :=
  (procs.zip tasks).flatMap fun x => (mergedPayloads q x.1.btsFiles).map (Prod.mk x.2)

def itemRecord (item : PrvTask × Payload) : Except Failure (Option PrvRecord) :=
  if item.2.isFlow then .ok none
  else (recordColorId item.1.markerColorIds item.2.eventId).map fun colorId =>
    some (item.1.record colorId item.2)

def PrvState.absorb (st : PrvState) (item : PrvTask × Payload) (r : Option PrvRecord) :
    PrvState where
  records := st.records ++ r.toList
  flowStarts :=
    if item.2.eventId = eventIdFlowStart then
      st.flowStarts.push item.2.extraId (item.1.endpoint item.2)
    else st.flowStarts
  flowEnds :=
    if item.2.eventId = eventIdFlowEnd then
      st.flowEnds.push item.2.extraId (item.1.endpoint item.2)
    else st.flowEnds

theorem prvPayload_eq (task : PrvTask) (st : PrvState) (p : Payload) :
    prvPayload task st p = (itemRecord (task, p)).map (st.absorb (task, p)) := by
  have hdiff : eventIdFlowStart ≠ eventIdFlowEnd := by decide
  rw [prvPayload]
  split
  next hstart =>
    simp [itemRecord, Payload.isFlow, hstart, Except.map, PrvState.absorb, hdiff]
  next hstart =>
    split
    next hend =>
      simp [itemRecord, Payload.isFlow, hend, Except.map, PrvState.absorb, hdiff.symm]
    next hend =>
      cases hcolor : recordColorId task.markerColorIds p.eventId <;>
        simp [itemRecord, Payload.isFlow, hstart, hend, hcolor, Except.map,
          PrvState.absorb]

variable {q : HeapTop} {t0 : UInt64}

theorem foldlM_prvPayload_ok_iff {task : PrvTask} {payloads : List Payload}
    {st st' : PrvState} :
    payloads.foldlM (prvPayload task) st = .ok st' ↔
      ∃ rs, (payloads.map (Prod.mk task)).mapM itemRecord = .ok rs ∧
        st' = ((payloads.map (Prod.mk task)).zip rs).foldl
          (fun st x => st.absorb x.1 x.2) st := by
  rw [foldlM_ok_iff (prvPayload_eq task), List.mapM_map]
  apply exists_congr
  intro rs
  rw [List.zip_map_left, List.foldl_map]
  rfl

theorem prvProc_ok_iff {proc : ProcData} {p : Nat} {st st' : PrvState} :
    prvProc q t0 st proc p = .ok st' ↔
      ∃ task, prvTask t0 proc p = .ok task ∧
        ∃ rs, ((mergedPayloads q proc.btsFiles).map (Prod.mk task)).mapM itemRecord =
            .ok rs ∧
          st' = (((mergedPayloads q proc.btsFiles).map (Prod.mk task)).zip rs).foldl
            (fun st x => st.absorb x.1 x.2) st := by
  rw [prvProc, bind_ok_iff]
  simp only [foldlM_prvPayload_ok_iff]

theorem foldlM_prvProc_ok_iff {items : List (ProcData × Nat)} {st st' : PrvState} :
    items.foldlM (fun st x => prvProc q t0 st x.1 x.2) st = .ok st' ↔
      ∃ tasks rs, items.mapM (fun x => prvTask t0 x.1 x.2) = .ok tasks ∧
        (prvItems q (items.map Prod.fst) tasks).mapM itemRecord = .ok rs ∧
        st' = ((prvItems q (items.map Prod.fst) tasks).zip rs).foldl
          (fun st x => st.absorb x.1 x.2) st := by
  induction items generalizing st with
  | nil => simp [prvItems, pure, Except.pure, eq_comm]
  | cons item items ih =>
      simp only [List.foldlM_cons, List.mapM_cons, bind_ok_iff, pure_ok_iff,
        prvProc_ok_iff, ih]
      constructor
      · rintro ⟨mid, ⟨task, htask, rs, hrs, rfl⟩, tasks, rs', htasks, hrs', rfl⟩
        refine ⟨task :: tasks, rs ++ rs', ⟨task, htask, tasks, htasks, rfl⟩,
          mapM_append_ok_iff.mpr ⟨rs, rs', hrs, hrs', rfl⟩, ?_⟩
        rw [← List.foldl_append, ← List.zip_append (length_mapM hrs).symm]
        rfl
      · rintro ⟨_, zs, ⟨task, htask, tasks, htasks, rfl⟩, hzs, rfl⟩
        obtain ⟨rs, rs', hrs, hrs', rfl⟩ := mapM_append_ok_iff.mp hzs
        refine ⟨_, ⟨task, htask, rs, hrs, rfl⟩, tasks, rs', htasks, hrs', ?_⟩
        rw [← List.foldl_append, ← List.zip_append (length_mapM hrs).symm]
        rfl

/-! ## What is left after the loop -/

def FlowMap.endpoints (flows : FlowMap) (flowId : UInt32) : List FlowEndpoint :=
  (flows.lookup flowId).getD []

theorem FlowMap.endpoints_push (flows : FlowMap) (flowId flowId' : UInt32)
    (e : FlowEndpoint) :
    FlowMap.endpoints (flows.push flowId e) flowId' =
      FlowMap.endpoints flows flowId' ++ if flowId = flowId' then [e] else [] := by
  rw [FlowMap.endpoints, FlowMap.push]
  split
  next heq =>
    subst heq
    rw [AList.lookup_insert]
    rfl
  next hne =>
    rw [AList.lookup_insert_ne (Ne.symm hne), List.append_nil]
    rfl

/-- The endpoints the items with event id `kind` contribute to a flow id. -/
def itemEndpoints (kind : UInt16) (flowId : UInt32) (items : List (PrvTask × Payload)) :
    List FlowEndpoint :=
  (items.filter fun item => item.2.eventId = kind ∧ item.2.extraId = flowId).map
    fun item => item.1.endpoint item.2

section Absorbed

variable (st : PrvState) (l : List ((PrvTask × Payload) × Option PrvRecord))

theorem records_foldl_absorb :
    (l.foldl (fun st x => st.absorb x.1 x.2) st).records =
      st.records ++ (l.map Prod.snd).reduceOption := by
  induction l generalizing st with
  | nil => simp
  | cons x l ih =>
      rw [List.foldl_cons, ih]
      cases hx : x.2 <;> simp [PrvState.absorb, hx]

theorem flowStarts_foldl_absorb (flowId : UInt32) :
    FlowMap.endpoints (l.foldl (fun st x => st.absorb x.1 x.2) st).flowStarts flowId =
      FlowMap.endpoints st.flowStarts flowId ++
        itemEndpoints eventIdFlowStart flowId (l.map Prod.fst) := by
  induction l generalizing st with
  | nil => simp [itemEndpoints]
  | cons x l ih =>
      rw [List.foldl_cons, ih]
      by_cases hstart : x.1.2.eventId = eventIdFlowStart
      · simp only [PrvState.absorb, hstart, if_true, FlowMap.endpoints_push]
        by_cases hid : x.1.2.extraId = flowId <;>
          simp [itemEndpoints, hstart, hid]
      · simp [PrvState.absorb, itemEndpoints, hstart]

theorem flowEnds_foldl_absorb (flowId : UInt32) :
    FlowMap.endpoints (l.foldl (fun st x => st.absorb x.1 x.2) st).flowEnds flowId =
      FlowMap.endpoints st.flowEnds flowId ++
        itemEndpoints eventIdFlowEnd flowId (l.map Prod.fst) := by
  induction l generalizing st with
  | nil => simp [itemEndpoints]
  | cons x l ih =>
      rw [List.foldl_cons, ih]
      by_cases hend : x.1.2.eventId = eventIdFlowEnd
      · simp only [PrvState.absorb, hend, if_true, FlowMap.endpoints_push]
        by_cases hid : x.1.2.extraId = flowId <;>
          simp [itemEndpoints, hend, hid]
      · simp [PrvState.absorb, itemEndpoints, hend]

end Absorbed

/-! ## The records of one track -/

def taskRecord (item : PrvTask × Payload) : Except Failure PrvRecord :=
  (recordColorId item.1.markerColorIds item.2.eventId).map fun colorId =>
    item.1.record colorId item.2

def recordsOf (task thread : Nat) (records : List PrvRecord) : List PrvRecord :=
  records.filter fun r => r.task = task ∧ r.thread = thread

theorem taskRecord_ok_iff {item : PrvTask × Payload} {r : PrvRecord} :
    taskRecord item = .ok r ↔
      recordColorId item.1.markerColorIds item.2.eventId = .ok r.colorId ∧
        r.timestamp = item.1.normalize item.2 ∧ r.task = item.1.task ∧
        r.thread = item.2.channelId.toNat + 1 := by
  obtain ⟨timestamp, task, thread, colorId⟩ := r
  rw [taskRecord]
  cases recordColorId item.1.markerColorIds item.2.eventId with
  | error e => simp [Except.map]
  | ok value =>
      simp only [Except.map, Except.ok.injEq, PrvTask.record, PrvRecord.mk.injEq]
      constructor
      · rintro ⟨rfl, rfl, rfl, rfl⟩
        exact ⟨rfl, rfl, rfl, rfl⟩
      · rintro ⟨rfl, rfl, rfl, rfl⟩
        exact ⟨rfl, rfl, rfl, rfl⟩

/-- The records are those of the payloads that are not flows, in loop order. -/
theorem mapM_taskRecord {items : List (PrvTask × Payload)} {rs : List (Option PrvRecord)}
    (h : items.mapM itemRecord = .ok rs) :
    (items.filter fun item => !item.2.isFlow).mapM taskRecord = .ok rs.reduceOption := by
  rw [mapM_ok_iff] at h ⊢
  induction h with
  | nil => exact .nil
  | @cons item r items rs hitem _ ih =>
      rw [itemRecord] at hitem
      split at hitem
      next hflow =>
        obtain rfl : none = r := by simpa using hitem
        simpa [hflow] using ih
      next hflow =>
        cases hcolor : recordColorId item.1.markerColorIds item.2.eventId with
        | error e => simp [hcolor, Except.map] at hitem
        | ok colorId =>
            obtain rfl : some (item.1.record colorId item.2) = r := by
              simpa [hcolor, Except.map] using hitem
            rw [List.filter_cons_of_pos (by simpa using hflow),
              List.reduceOption_cons_of_some]
            exact .cons (by simp [taskRecord, hcolor, Except.map]) ih

/-! ## Tasks and their items -/

theorem prvTask_ok_iff {proc : ProcData} {p : Nat} {task : PrvTask} :
    prvTask t0 proc p = .ok task ↔
      extractMarkerColorIds proc.metadata = .ok task.markerColorIds ∧
        task.task = p + 1 ∧ task.syncStart = proc.syncStart ∧ task.globalT0 = t0 := by
  simp only [prvTask, bind_ok_iff, pure_ok_iff]
  constructor
  · rintro ⟨ids, hids, rfl⟩
    exact ⟨hids, rfl, rfl, rfl⟩
  · rintro ⟨hids, htask, hstart, hglobal⟩
    exact ⟨task.markerColorIds, hids, by rw [← htask, ← hstart, ← hglobal]⟩

variable {procs : List ProcData} {tasks : List PrvTask}

def TasksOf (t0 : UInt64) (procs : List ProcData) (tasks : List PrvTask) : Prop :=
  procs.zipIdx.mapM (fun x => prvTask t0 x.1 x.2) = .ok tasks

theorem TasksOf.length_eq (h : TasksOf t0 procs tasks) : tasks.length = procs.length := by
  simpa using length_mapM h

theorem TasksOf.getElem (h : TasksOf t0 procs tasks) {i : Nat} (hi : i < procs.length) :
    ∃ hi' : i < tasks.length,
      extractMarkerColorIds procs[i].metadata = .ok tasks[i].markerColorIds ∧
        tasks[i].task = i + 1 ∧ tasks[i].syncStart = procs[i].syncStart ∧
          tasks[i].globalT0 = t0 := by
  have hi' : i < tasks.length := h.length_eq ▸ hi
  exact ⟨hi', prvTask_ok_iff.mp (getElem_of_mapM_zipIdx h hi hi')⟩

theorem TasksOf.mem_prvItems (h : TasksOf t0 procs tasks) {item : PrvTask × Payload} :
    item ∈ prvItems q procs tasks ↔
      ∃ i, ∃ (hi : i < procs.length) (hi' : i < tasks.length),
        item.1 = tasks[i] ∧ item.2 ∈ mergedPayloads q procs[i].btsFiles := by
  have hlen := h.length_eq
  simp only [prvItems, List.mem_flatMap, List.mem_map]
  constructor
  · rintro ⟨x, hx, p, hp, rfl⟩
    obtain ⟨i, hi, rfl⟩ := List.mem_iff_getElem.mp hx
    rw [List.length_zip] at hi
    exact ⟨i, by omega, by omega, by simp, by simpa using hp⟩
  · rintro ⟨i, hi, hi', htask, hp⟩
    refine ⟨(procs[i], tasks[i]), ?_, item.2, hp, by rw [← htask]⟩
    exact List.mem_iff_getElem.mpr ⟨i, by simp; omega, by simp⟩

theorem TasksOf.filter_task (h : TasksOf t0 procs tasks) {i : Nat}
    (hi : i < procs.length) (hi' : i < tasks.length) :
    (prvItems q procs tasks).filter (fun item => item.1.task = i + 1) =
      (mergedPayloads q procs[i].btsFiles).map (Prod.mk tasks[i]) := by
  have hlen := h.length_eq
  have hsingle := Interleaving.filter_flatMap_eq_single
    (l := procs.zip tasks) (i := i)
    (g := fun x => (mergedPayloads q x.1.btsFiles).map (Prod.mk x.2))
    (p := fun item => item.1.task = i + 1)
    (by simp; omega) (by
      intro j hj hne item hitem
      rw [List.length_zip] at hj
      obtain ⟨p, -, rfl⟩ := List.mem_map.mp hitem
      obtain ⟨_, _, htask, _⟩ := h.getElem (i := j) (by omega)
      simp [htask, hne])
  obtain ⟨_, _, htask, _⟩ := h.getElem hi
  rw [prvItems, hsingle, List.filter_eq_self.mpr]
  · simp
  · intro item hitem
    obtain ⟨p, -, rfl⟩ := List.mem_map.mp hitem
    simp [htask]

theorem TasksOf.filter_prvItems (h : TasksOf t0 procs tasks) {i : Nat}
    (hi : i < procs.length) (hi' : i < tasks.length) (c : Nat) :
    (prvItems q procs tasks).filter
        (fun item => item.1.task = i + 1 && onChannel c item.2) =
      (channelEvents c (mergedPayloads q procs[i].btsFiles)).map (Prod.mk tasks[i]) := by
  have hsplit : (prvItems q procs tasks).filter
      (fun item => item.1.task = i + 1 && onChannel c item.2) =
        ((prvItems q procs tasks).filter fun item => item.1.task = i + 1).filter
          fun item => onChannel c item.2 := by
    rw [List.filter_filter]
    simp only [Bool.and_comm]
  rw [hsplit, h.filter_task hi hi', List.filter_map]
  rfl

/-- The records of a track are those of the state changes of its channel. -/
theorem TasksOf.recordsOf_eq (h : TasksOf t0 procs tasks) {rs : List (Option PrvRecord)}
    (hrs : (prvItems q procs tasks).mapM itemRecord = .ok rs) {i : Nat}
    (hi : i < procs.length) (hi' : i < tasks.length) (c : Nat) :
    ((channelEvents c (mergedPayloads q procs[i].btsFiles)).map
        (Prod.mk tasks[i])).mapM taskRecord =
      .ok (recordsOf (i + 1) (c + 1) rs.reduceOption) := by
  rw [← h.filter_prvItems hi hi' c]
  have hfilter := mapM_filter_ok
    (p := fun item => item.1.task = i + 1 && item.2.channelId.toNat = c)
    (r := fun r => r.task = i + 1 ∧ r.thread = c + 1) (mapM_taskRecord hrs) (by
      intro item _ r hr
      obtain ⟨-, -, htask, hthread⟩ := taskRecord_ok_iff.mp hr
      simp [htask, hthread])
  rw [List.filter_filter] at hfilter
  rw [recordsOf, ← hfilter]
  congr 1
  apply List.filter_congr
  intro item _
  simp [onChannel, Bool.and_assoc]

theorem recordsOf_zero {items : List (PrvTask × Payload)} {rs : List (Option PrvRecord)}
    (hrs : items.mapM itemRecord = .ok rs) (task : Nat) :
    recordsOf task 0 rs.reduceOption = [] := by
  rw [recordsOf, List.filter_eq_nil_iff]
  intro r hr
  obtain ⟨item, -, hitem⟩ := exists_of_mem_mapM (mapM_taskRecord hrs) hr
  obtain ⟨-, -, -, hthread⟩ := taskRecord_ok_iff.mp hitem
  simp [hthread]

/-! ## Lines -/

def PrvLine.event? : PrvLine → Option PrvRecord
  | .event r => some r
  | .comm _ => none

def PrvLine.comm? : PrvLine → Option CommRecord
  | .event _ => none
  | .comm c => some c

def PrvFile.events (file : PrvFile) : List PrvRecord := file.lines.filterMap PrvLine.event?

def PrvFile.comms (file : PrvFile) : List CommRecord := file.lines.filterMap PrvLine.comm?

theorem filterMap_event?_interleave (records : List PrvRecord) (comms : List CommRecord) :
    (interleave records comms).filterMap PrvLine.event? = records := by
  have hnone : ∀ cs : List CommRecord,
      (cs.map PrvLine.comm).filterMap PrvLine.event? = [] := by
    intro cs
    simp [List.filterMap_map, PrvLine.event?, Function.comp_def]
  induction records generalizing comms with
  | nil => exact hnone comms
  | cons r records ih =>
      rw [interleave, List.filterMap_append, hnone, List.nil_append,
        List.filterMap_cons_some (show PrvLine.event? (.event r) = some r from rfl), ih]

theorem filterMap_comm?_interleave (records : List PrvRecord) (comms : List CommRecord) :
    (interleave records comms).filterMap PrvLine.comm? = comms := by
  have hall : ∀ cs : List CommRecord,
      (cs.map PrvLine.comm).filterMap PrvLine.comm? = cs := by
    intro cs
    simp [List.filterMap_map, PrvLine.comm?, Function.comp_def]
  induction records generalizing comms with
  | nil => exact hall comms
  | cons r records ih =>
      rw [interleave, List.filterMap_append, hall, List.filterMap_cons_none rfl, ih,
        List.takeWhile_append_dropWhile]

/-! ## The file -/

theorem mem_pairFlows {ch : ParaverChoices} {flowStarts flowEnds : FlowMap}
    {comm : CommRecord} (h : comm ∈ (pairFlows ch flowStarts flowEnds).1) :
    comm.send ∈ FlowMap.endpoints flowStarts comm.flowId ∧
      comm.recv ∈ FlowMap.endpoints flowEnds comm.flowId := by
  simp only [pairFlows, List.mem_flatMap, List.mem_map] at h
  obtain ⟨_, ⟨flowId, -, rfl⟩, hcomm⟩ := h
  simp only [pairFlow, List.mem_map] at hcomm
  obtain ⟨⟨send, recv⟩, hzip, rfl⟩ := hcomm
  obtain ⟨hsend, hrecv⟩ := List.of_mem_zip hzip
  exact ⟨(ch.sortEndpoints.perm _).mem_iff.mp hsend, (ch.sortEndpoints.perm _).mem_iff.mp hrecv⟩

/-- What `tracr.prv` holds, in terms of the payloads. -/
structure Exported (ch : ParaverChoices) (procs : List ProcData) (file : PrvFile)
    (tasks : List PrvTask) (rs : List (Option PrvRecord)) : Prop where
  tasks_of : TasksOf (globalT0 procs) procs tasks
  records_of : (prvItems ch.heapTop procs tasks).mapM itemRecord = .ok rs
  total_time : file.totalTime = totalTime procs (globalT0 procs)
  events_eq : file.events = stableSort PrvRecord.time rs.reduceOption
  comm_send : ∀ comm ∈ file.comms, ∃ item ∈ prvItems ch.heapTop procs tasks,
    item.2.isFlow = true ∧ comm.send = item.1.endpoint item.2
  comm_recv : ∀ comm ∈ file.comms, ∃ item ∈ prvItems ch.heapTop procs tasks,
    item.2.isFlow = true ∧ comm.recv = item.1.endpoint item.2

theorem Exported.recordsOf_events {ch : ParaverChoices} {file : PrvFile}
    {tasks : List PrvTask} {rs : List (Option PrvRecord)}
    (h : Exported ch procs file tasks rs) (task thread : Nat) :
    recordsOf task thread file.events =
      stableSort PrvRecord.time (recordsOf task thread rs.reduceOption) := by
  rw [h.events_eq, recordsOf, filter_stableSort]
  rfl

theorem exists_of_mem_itemEndpoints {kind : UInt16} {flowId : UInt32}
    {items : List (PrvTask × Payload)} {e : FlowEndpoint}
    (h : e ∈ itemEndpoints kind flowId items)
    (hkind : kind = eventIdFlowStart ∨ kind = eventIdFlowEnd) :
    ∃ item ∈ items, item.2.isFlow = true ∧ e = item.1.endpoint item.2 := by
  obtain ⟨item, hitem, rfl⟩ := List.mem_map.mp h
  obtain ⟨hmem, hid⟩ := List.mem_filter.mp hitem
  have hevent : item.2.eventId = kind := (of_decide_eq_true hid).1
  exact ⟨item, hmem, by simpa [Payload.isFlow, hevent] using hkind, rfl⟩

def prvLoop (q : HeapTop) (procs : List ProcData) : Except Failure PrvState :=
  procs.zipIdx.foldlM (fun st x => prvProc q (globalT0 procs) st x.1 x.2) ⟨[], ∅, ∅⟩

structure Absorbed (q : HeapTop) (procs : List ProcData) (st : PrvState)
    (tasks : List PrvTask) (rs : List (Option PrvRecord)) : Prop where
  tasks_of : TasksOf (globalT0 procs) procs tasks
  records_of : (prvItems q procs tasks).mapM itemRecord = .ok rs
  records_eq : st.records = rs.reduceOption
  starts : ∀ flowId, FlowMap.endpoints st.flowStarts flowId =
    itemEndpoints eventIdFlowStart flowId (prvItems q procs tasks)
  ends : ∀ flowId, FlowMap.endpoints st.flowEnds flowId =
    itemEndpoints eventIdFlowEnd flowId (prvItems q procs tasks)

theorem prvLoop_ok {st : PrvState} (h : prvLoop q procs = .ok st) :
    ∃ tasks rs, Absorbed q procs st tasks rs := by
  obtain ⟨tasks, rs, htasks, hrs, hstate⟩ := foldlM_prvProc_ok_iff.mp h
  rw [List.zipIdx_map_fst] at hrs hstate
  have hlen : (prvItems q procs tasks).length = rs.length := (length_mapM hrs).symm
  refine ⟨tasks, rs, htasks, hrs, ?_, ?_, ?_⟩
  · rw [hstate, records_foldl_absorb, List.map_snd_zip (le_of_eq hlen.symm)]
    rfl
  · intro id
    rw [hstate, flowStarts_foldl_absorb, List.map_fst_zip (le_of_eq hlen)]
    rfl
  · intro id
    rw [hstate, flowEnds_foldl_absorb, List.map_fst_zip (le_of_eq hlen)]
    rfl

theorem createTracrPrv_ok_iff {ch : ParaverChoices} {out : OutputFolder}
    {channels : List Nat} {file : PrvFile} :
    createTracrPrv ch out procs channels = .ok file ↔
      out.opens "tracr.prv" = true ∧ ∃ st, prvLoop ch.heapTop procs = .ok st ∧
        { totalTime := totalTime procs (globalT0 procs)
          taskChannels := channels
          lines := interleave (stableSort PrvRecord.time st.records)
            (ch.sortComms.sort (pairFlows ch st.flowStarts st.flowEnds).1)
          unmatched := (pairFlows ch st.flowStarts st.flowEnds).2 } = file := by
  rw [createTracrPrv]
  cases hopen : out.opens "tracr.prv" with
  | false => simp
  | true =>
      simp only [Bool.not_true, Bool.false_eq_true, if_false, true_and, bind_ok_iff,
        pure_ok_iff, prvLoop]

theorem createTracrPrv_ok {ch : ParaverChoices} {out : OutputFolder}
    {channels : List Nat} {file : PrvFile}
    (h : createTracrPrv ch out procs channels = .ok file) :
    file.taskChannels = channels ∧ ∃ tasks rs, Exported ch procs file tasks rs := by
  obtain ⟨-, st, hst, rfl⟩ := createTracrPrv_ok_iff.mp h
  obtain ⟨tasks, rs, habsorbed⟩ := prvLoop_ok hst
  have hcomms : ∀ comm ∈ (interleave (stableSort PrvRecord.time st.records)
      (ch.sortComms.sort (pairFlows ch st.flowStarts st.flowEnds).1)).filterMap
        PrvLine.comm?, comm ∈ (pairFlows ch st.flowStarts st.flowEnds).1 := by
    intro comm hcomm
    rw [filterMap_comm?_interleave] at hcomm
    exact (ch.sortComms.perm _).mem_iff.mp hcomm
  refine ⟨rfl, tasks, rs, habsorbed.tasks_of, habsorbed.records_of, rfl, ?_, ?_, ?_⟩
  · rw [← habsorbed.records_eq]
    exact filterMap_event?_interleave _ _
  · intro comm hcomm
    have hsend := (mem_pairFlows (hcomms comm hcomm)).1
    rw [habsorbed.starts] at hsend
    exact exists_of_mem_itemEndpoints hsend (.inl rfl)
  · intro comm hcomm
    have hrecv := (mem_pairFlows (hcomms comm hcomm)).2
    rw [habsorbed.ends] at hrecv
    exact exists_of_mem_itemEndpoints hrecv (.inr rfl)

end TraCR
