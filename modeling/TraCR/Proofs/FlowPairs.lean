import TraCR.Lib.Tally
import TraCR.Proofs.PrvBody

/-!
# Pairing flow starts with flow ends

Both maps are visited id by id, in some order.  Every id pairs as many endpoints as its
shorter side has, earliest with earliest, and counts the rest; an id of the second map
that the first one lacks is counted whole.  So every flow payload is in a record or
counted, once.
-/

namespace TraCR

open TraCR.Lib TraCR.Lib.SortedList TraCR.Lib.Tally TraCR.Lib.Traversal

variable {ch : ParaverChoices} {flowStarts flowEnds : FlowMap}

/-! ## Visiting the maps -/

theorem FlowMap.mem_keys_of_endpoints {flows : FlowMap} {flowId : UInt32}
    (h : FlowMap.endpoints flows flowId ≠ []) : flowId ∈ flows.keys := by
  rw [FlowMap.endpoints] at h
  cases hlookup : flows.lookup flowId with
  | none => simp [hlookup] at h
  | some es => exact AList.lookup_isSome.mp (by rw [hlookup]; rfl)

theorem nodup_iterate (ch : ParaverChoices) (flows : FlowMap) : (ch.iterate flows).Nodup :=
  (ch.iterate_perm flows).nodup_iff.mpr flows.keys_nodup

/-- The ids of the second loop: those without a start. -/
def loneIds (ch : ParaverChoices) (flowStarts flowEnds : FlowMap) : List UInt32 :=
  (ch.iterate flowEnds).filter fun flowId => !(flowStarts.lookup flowId).isSome

theorem nodup_visited (ch : ParaverChoices) (flowStarts flowEnds : FlowMap) :
    (ch.iterate flowStarts ++ loneIds ch flowStarts flowEnds).Nodup := by
  rw [List.nodup_append']
  refine ⟨nodup_iterate ch flowStarts, (nodup_iterate ch flowEnds).filter _, ?_⟩
  intro flowId hstart hlone
  have hkey : flowId ∈ flowStarts.keys := (ch.iterate_perm flowStarts).mem_iff.mp hstart
  have hnone : (flowStarts.lookup flowId).isSome = false := by
    simpa using (List.mem_filter.mp hlone).2
  rw [AList.lookup_isSome.mpr hkey] at hnone
  cases hnone

theorem mem_visited {flowId : UInt32} (h : FlowMap.endpoints flowEnds flowId ≠ []) :
    flowId ∈ ch.iterate flowStarts ++ loneIds ch flowStarts flowEnds := by
  rw [List.mem_append]
  cases hstart : (flowStarts.lookup flowId).isSome with
  | true =>
      exact .inl ((ch.iterate_perm flowStarts).mem_iff.mpr (AList.lookup_isSome.mp hstart))
  | false =>
      have hend := (ch.iterate_perm flowEnds).mem_iff.mpr (FlowMap.mem_keys_of_endpoints h)
      exact .inr (List.mem_filter.mpr ⟨hend, by simp [hstart]⟩)

/-! ## What is paired and what is left -/

theorem length_pairFlow (sorter : Sorter FlowEndpoint.time) (flowId : UInt32)
    (starts ends : List FlowEndpoint) :
    (pairFlow sorter flowId starts ends).1.length = min starts.length ends.length := by
  simp [pairFlow, (sorter.perm starts).length_eq, (sorter.perm ends).length_eq]

theorem pairFlow_balance (sorter : Sorter FlowEndpoint.time) (flowId : UInt32)
    (starts ends : List FlowEndpoint) :
    2 * (pairFlow sorter flowId starts ends).1.length +
        (pairFlow sorter flowId starts ends).2 = starts.length + ends.length := by
  have hlength := length_pairFlow sorter flowId starts ends
  have hrest : (pairFlow sorter flowId starts ends).2 =
      (ends.length - (pairFlow sorter flowId starts ends).1.length) +
        (starts.length - (pairFlow sorter flowId starts ends).1.length) := rfl
  rw [hrest, hlength]
  omega

theorem sum_pairFlow_balance (ids : List UInt32) :
    2 * (ids.flatMap fun flowId => (pairFlow ch.sortEndpoints flowId
        (FlowMap.endpoints flowStarts flowId) (FlowMap.endpoints flowEnds flowId)).1).length +
      (ids.map fun flowId => (pairFlow ch.sortEndpoints flowId
        (FlowMap.endpoints flowStarts flowId) (FlowMap.endpoints flowEnds flowId)).2).sum =
    (ids.map fun flowId => (FlowMap.endpoints flowStarts flowId).length).sum +
      (ids.map fun flowId => (FlowMap.endpoints flowEnds flowId).length).sum := by
  induction ids with
  | nil => rfl
  | cons flowId ids ih =>
      have hbalance := pairFlow_balance ch.sortEndpoints flowId
        (FlowMap.endpoints flowStarts flowId) (FlowMap.endpoints flowEnds flowId)
      simp only [List.flatMap_cons, List.length_append, List.map_cons, List.sum_cons]
      omega

/-- Both loops: every endpoint of either map, once. -/
theorem pairFlows_balance :
    2 * (pairFlows ch flowStarts flowEnds).1.length + (pairFlows ch flowStarts flowEnds).2 =
      ((ch.iterate flowStarts).map fun flowId =>
          (FlowMap.endpoints flowStarts flowId).length).sum +
        ((ch.iterate flowStarts ++ loneIds ch flowStarts flowEnds).map fun flowId =>
          (FlowMap.endpoints flowEnds flowId).length).sum := by
  have hfirst := @sum_pairFlow_balance ch flowStarts flowEnds (ch.iterate flowStarts)
  have hcomms : (pairFlows ch flowStarts flowEnds).1 =
      (ch.iterate flowStarts).flatMap fun flowId => (pairFlow ch.sortEndpoints flowId
        (FlowMap.endpoints flowStarts flowId) (FlowMap.endpoints flowEnds flowId)).1 := by
    simp [pairFlows, FlowMap.endpoints, List.flatMap_map]
  have hrest : (pairFlows ch flowStarts flowEnds).2 =
      ((ch.iterate flowStarts).map fun flowId => (pairFlow ch.sortEndpoints flowId
        (FlowMap.endpoints flowStarts flowId) (FlowMap.endpoints flowEnds flowId)).2).sum +
      ((loneIds ch flowStarts flowEnds).map fun flowId =>
        (FlowMap.endpoints flowEnds flowId).length).sum := by
    simp [pairFlows, FlowMap.endpoints, loneIds, List.map_map, Function.comp_def]
  rw [hcomms, hrest, List.map_append, List.sum_append]
  omega

theorem flowId_of_mem_pairFlow {sorter : Sorter FlowEndpoint.time} {flowId : UInt32}
    {starts ends : List FlowEndpoint} {comm : CommRecord}
    (h : comm ∈ (pairFlow sorter flowId starts ends).1) : comm.flowId = flowId := by
  obtain ⟨x, -, rfl⟩ := List.mem_map.mp h
  rfl

theorem filter_pairFlows (flowId : UInt32) :
    (pairFlows ch flowStarts flowEnds).1.filter (fun comm => comm.flowId = flowId) =
      (pairFlow ch.sortEndpoints flowId (FlowMap.endpoints flowStarts flowId)
        (FlowMap.endpoints flowEnds flowId)).1 := by
  have hcomms : (pairFlows ch flowStarts flowEnds).1 =
      (ch.iterate flowStarts).flatMap fun flowId => (pairFlow ch.sortEndpoints flowId
        (FlowMap.endpoints flowStarts flowId) (FlowMap.endpoints flowEnds flowId)).1 := by
    simp [pairFlows, FlowMap.endpoints, List.flatMap_map]
  have hself : ∀ starts ends, (pairFlow ch.sortEndpoints flowId starts ends).1.filter
      (fun comm => comm.flowId = flowId) =
        (pairFlow ch.sortEndpoints flowId starts ends).1 := by
    intro starts ends
    rw [List.filter_eq_self]
    intro comm hcomm
    simpa using flowId_of_mem_pairFlow hcomm
  rw [hcomms]
  by_cases hvisited : flowId ∈ ch.iterate flowStarts
  · obtain ⟨i, hi, rfl⟩ := List.getElem_of_mem hvisited
    rw [Interleaving.filter_flatMap_eq_single hi, hself]
    intro j hj hne comm hcomm
    have hid := flowId_of_mem_pairFlow hcomm
    have hdistinct : (ch.iterate flowStarts)[j] ≠ (ch.iterate flowStarts)[i] := by
      intro heq
      exact hne ((nodup_iterate ch flowStarts).getElem_inj_iff.mp heq)
    simp [hid, hdistinct]
  · have hnone : FlowMap.endpoints flowStarts flowId = [] := by
      by_contra hne
      exact hvisited ((ch.iterate_perm flowStarts).mem_iff.mpr
        (FlowMap.mem_keys_of_endpoints hne))
    have hempty : (pairFlow ch.sortEndpoints flowId [] (FlowMap.endpoints flowEnds flowId)).1 =
        [] := List.length_eq_zero_iff.mp (by rw [length_pairFlow]; exact Nat.zero_min _)
    rw [hnone, hempty, List.filter_eq_nil_iff]
    intro comm hcomm
    obtain ⟨id, hid, hmem⟩ := List.mem_flatMap.mp hcomm
    have hne : comm.flowId ≠ flowId := by
      rw [flowId_of_mem_pairFlow hmem]
      rintro rfl
      exact hvisited hid
    simpa using hne

/-! ## In terms of the payloads -/

def recordedEndpoint (procs : List ProcData) (proc : ProcData) (p : Nat) (payload : Payload) :
    FlowEndpoint where
  timestamp := payload.timestamp - proc.syncStart - globalT0 procs
  task := p + 1
  thread := payload.channelId.toNat + 1

def flowEndpoints (procs : List ProcData) (kind : UInt16) (flowId : UInt32) :
    List FlowEndpoint :=
  procs.zipIdx.flatMap fun x =>
    (x.1.btsFiles.flatten.filter fun p => p.eventId = kind ∧ p.extraId = flowId).map
      (recordedEndpoint procs x.1 x.2)

variable {q : HeapTop} {procs : List ProcData} {tasks : List PrvTask}

theorem TasksOf.itemEndpoints_perm (h : TasksOf (globalT0 procs) procs tasks) (kind : UInt16)
    (flowId : UInt32) :
    (itemEndpoints kind flowId (prvItems q procs tasks)).Perm
      (flowEndpoints procs kind flowId) := by
  have hflat : itemEndpoints kind flowId (prvItems q procs tasks) =
      (procs.zip tasks).flatMap fun x =>
        ((mergedPayloads q x.1.btsFiles).filter fun p =>
          p.eventId = kind ∧ p.extraId = flowId).map x.2.endpoint := by
    simp only [itemEndpoints, prvItems, List.filter_flatMap, List.map_flatMap,
      List.filter_map, List.map_map]
    rfl
  rw [hflat, flowEndpoints]
  apply flatMap_perm_of_forall₂
  rw [List.forall₂_iff_get]
  have hlen := h.length_eq
  refine ⟨by simp [hlen], ?_⟩
  intro i hi _
  have hi' : i < procs.length := by
    rw [List.length_zip] at hi
    omega
  obtain ⟨hi'', -, htask, hstart, ht0⟩ := h.getElem hi'
  have hendpoint : tasks[i].endpoint = recordedEndpoint procs procs[i] i := by
    funext p
    simp [PrvTask.endpoint, PrvTask.normalize, recordedEndpoint, htask, hstart, ht0]
  simp only [List.get_eq_getElem, List.getElem_zip, List.getElem_zipIdx, Nat.zero_add,
    hendpoint]
  exact ((mergedPayloads_perm q procs[i].btsFiles).filter _).map _

theorem sum_itemEndpoints {kind : UInt16} {keys : List UInt32}
    {items : List (PrvTask × Payload)} (hnodup : keys.Nodup)
    (hcover : ∀ flowId, itemEndpoints kind flowId items ≠ [] → flowId ∈ keys) :
    (keys.map fun flowId => (itemEndpoints kind flowId items).length).sum =
      (items.filter fun item => item.2.eventId = kind).length := by
  have hlength : ∀ flowId, (itemEndpoints kind flowId items).length =
      ((items.filter fun item => item.2.eventId = kind).filter fun item =>
        item.2.extraId = flowId).length := by
    intro flowId
    rw [itemEndpoints, List.length_map, List.filter_filter]
    simp only [← Bool.decide_and, and_comm]
  simp only [hlength]
  apply sum_map_length_filter hnodup
  intro item hitem
  apply hcover
  have hmem : item.1.endpoint item.2 ∈ itemEndpoints kind item.2.extraId items := by
    obtain ⟨hmem, hkind⟩ := List.mem_filter.mp hitem
    exact List.mem_map.mpr ⟨item, List.mem_filter.mpr ⟨hmem, by simpa using hkind⟩, rfl⟩
  exact List.ne_nil_of_mem hmem

theorem length_filter_kinds (items : List (PrvTask × Payload)) :
    (items.filter fun item => !item.2.isFlow).length +
        ((items.filter fun item => item.2.eventId = eventIdFlowStart).length +
          (items.filter fun item => item.2.eventId = eventIdFlowEnd).length) =
      items.length := by
  have hdiff : eventIdFlowStart ≠ eventIdFlowEnd := by decide
  induction items with
  | nil => rfl
  | cons item items ih =>
      by_cases hstart : item.2.eventId = eventIdFlowStart
      · simp [Payload.isFlow, hstart, hdiff] at ih ⊢
        omega
      · by_cases hend : item.2.eventId = eventIdFlowEnd
        · simp [Payload.isFlow, hend, hdiff.symm] at ih ⊢
          omega
        · simp [Payload.isFlow, hstart, hend] at ih ⊢
          omega

def payloadCount (procs : List ProcData) : Nat :=
  (procs.map fun proc => proc.btsFiles.flatten.length).sum

theorem TasksOf.length_prvItems (h : TasksOf (globalT0 procs) procs tasks) :
    (prvItems q procs tasks).length = payloadCount procs := by
  have hmap : (procs.zip tasks).map (fun x => (mergedPayloads q x.1.btsFiles).length) =
      procs.map fun proc => proc.btsFiles.flatten.length := by
    have hfst : (procs.zip tasks).map Prod.fst = procs :=
      List.map_fst_zip (le_of_eq h.length_eq.symm)
    calc
      _ = ((procs.zip tasks).map Prod.fst).map fun proc =>
          (mergedPayloads q proc.btsFiles).length := by
        rw [List.map_map]
        rfl
      _ = _ := by
        rw [hfst]
        exact List.map_congr_left fun proc _ => (mergedPayloads_perm q _).length_eq
  simp [prvItems, payloadCount, List.length_flatMap, hmap]

/-- All flow payloads are in the records or counted, paired in time order per id. -/
structure FlowsPaired (procs : List ProcData) (file : PrvFile) : Prop where
  total : file.events.length + 2 * file.comms.length + file.unmatched = payloadCount procs
  count : ∀ flowId, (file.comms.filter fun comm => comm.flowId = flowId).length =
    min (flowEndpoints procs eventIdFlowStart flowId).length
      (flowEndpoints procs eventIdFlowEnd flowId).length
  paired : ∀ flowId, ∃ starts ends,
    starts.Perm (flowEndpoints procs eventIdFlowStart flowId) ∧
      SortedBy FlowEndpoint.time starts ∧
        ends.Perm (flowEndpoints procs eventIdFlowEnd flowId) ∧
          SortedBy FlowEndpoint.time ends ∧
            (file.comms.filter fun comm => comm.flowId = flowId).Perm
              ((starts.zip ends).map fun x => { send := x.1, recv := x.2, flowId })
  single : (∀ flowId, (flowEndpoints procs eventIdFlowStart flowId).length ≤ 1 ∧
      (flowEndpoints procs eventIdFlowEnd flowId).length ≤ 1) →
    file.comms.Nodup ∧ ∀ comm, comm ∈ file.comms ↔
      flowEndpoints procs eventIdFlowStart comm.flowId = [comm.send] ∧
        flowEndpoints procs eventIdFlowEnd comm.flowId = [comm.recv]

theorem Absorbed.total {st : PrvState} {rs : List (Option PrvRecord)}
    (h : Absorbed ch.heapTop procs st tasks rs) :
    st.records.length + 2 * (pairFlows ch st.flowStarts st.flowEnds).1.length +
      (pairFlows ch st.flowStarts st.flowEnds).2 = payloadCount procs := by
  have hrecords : st.records.length =
      ((prvItems ch.heapTop procs tasks).filter fun item => !item.2.isFlow).length := by
    rw [h.records_eq]
    exact length_mapM (mapM_taskRecord h.records_of)
  have hbalance := @pairFlows_balance ch st.flowStarts st.flowEnds
  have hstarts : ((ch.iterate st.flowStarts).map fun flowId =>
      (FlowMap.endpoints st.flowStarts flowId).length).sum =
        ((prvItems ch.heapTop procs tasks).filter fun item =>
          item.2.eventId = eventIdFlowStart).length := by
    simp only [h.starts]
    apply sum_itemEndpoints (nodup_iterate ch _)
    intro flowId hne
    rw [← h.starts] at hne
    exact (ch.iterate_perm _).mem_iff.mpr (FlowMap.mem_keys_of_endpoints hne)
  have hends : ((ch.iterate st.flowStarts ++ loneIds ch st.flowStarts st.flowEnds).map
      fun flowId => (FlowMap.endpoints st.flowEnds flowId).length).sum =
        ((prvItems ch.heapTop procs tasks).filter fun item =>
          item.2.eventId = eventIdFlowEnd).length := by
    simp only [h.ends]
    apply sum_itemEndpoints (nodup_visited ch _ _)
    intro flowId hne
    rw [← h.ends] at hne
    exact mem_visited hne
  have hkinds := length_filter_kinds (prvItems ch.heapTop procs tasks)
  rw [h.tasks_of.length_prvItems] at hkinds
  omega

theorem mem_zip_iff_of_perm {starts ends ss es : List FlowEndpoint} (hstarts : starts.Perm ss)
    (hends : ends.Perm es) (hss : ss.length ≤ 1) (hes : es.length ≤ 1) {a b : FlowEndpoint} :
    (a, b) ∈ starts.zip ends ↔ ss = [a] ∧ es = [b] := by
  match ss, es, hss, hes with
  | [], es, _, _ =>
      rw [hstarts.eq_nil]
      simp
  | [s], [], _, _ =>
      rw [hends.eq_nil]
      simp
  | [s], [e], _, _ =>
      rw [List.perm_singleton.mp hstarts, List.perm_singleton.mp hends]
      simp [eq_comm]

theorem nodup_of_flowId {comms : List CommRecord}
    (h : ∀ flowId, (comms.filter fun comm => comm.flowId = flowId).length ≤ 1) :
    comms.Nodup := by
  rw [List.nodup_iff_count_le_one]
  intro comm
  calc
    comms.count comm ≤ comms.countP fun comm' => comm'.flowId = comm.flowId := by
      apply List.countP_mono_left
      intro comm' _ heq
      simp [beq_iff_eq.mp heq]
    _ = (comms.filter fun comm' => comm'.flowId = comm.flowId).length :=
      List.countP_eq_length_filter
    _ ≤ 1 := h comm.flowId

theorem createTracrPrv_flowsPaired {out : OutputFolder} {channels : List Nat} {file : PrvFile}
    (h : createTracrPrv ch out procs channels = .ok file) : FlowsPaired procs file := by
  obtain ⟨-, st, hst, rfl⟩ := createTracrPrv_ok_iff.mp h
  obtain ⟨tasks, rs, habsorbed⟩ := prvLoop_ok hst
  have hcomms : ∀ flowId, ((ch.sortComms.sort
      (pairFlows ch st.flowStarts st.flowEnds).1).filter fun comm => comm.flowId = flowId).Perm
        (((ch.sortEndpoints.sort (FlowMap.endpoints st.flowStarts flowId)).zip
          (ch.sortEndpoints.sort (FlowMap.endpoints st.flowEnds flowId))).map
            fun x => { send := x.1, recv := x.2, flowId }) := by
    intro flowId
    have hsort := (ch.sortComms.perm (pairFlows ch st.flowStarts st.flowEnds).1).filter
      fun comm => comm.flowId = flowId
    rwa [filter_pairFlows] at hsort
  have hstarts : ∀ flowId, (ch.sortEndpoints.sort
      (FlowMap.endpoints st.flowStarts flowId)).Perm
        (flowEndpoints procs eventIdFlowStart flowId) := by
    intro flowId
    refine (ch.sortEndpoints.perm _).trans ?_
    rw [habsorbed.starts]
    exact habsorbed.tasks_of.itemEndpoints_perm _ _
  have hends : ∀ flowId, (ch.sortEndpoints.sort
      (FlowMap.endpoints st.flowEnds flowId)).Perm
        (flowEndpoints procs eventIdFlowEnd flowId) := by
    intro flowId
    refine (ch.sortEndpoints.perm _).trans ?_
    rw [habsorbed.ends]
    exact habsorbed.tasks_of.itemEndpoints_perm _ _
  have hcount : ∀ flowId, ((ch.sortComms.sort
      (pairFlows ch st.flowStarts st.flowEnds).1).filter fun comm =>
        comm.flowId = flowId).length =
      min (flowEndpoints procs eventIdFlowStart flowId).length
        (flowEndpoints procs eventIdFlowEnd flowId).length := by
    intro flowId
    rw [(hcomms flowId).length_eq, List.length_map, List.length_zip,
      (hstarts flowId).length_eq, (hends flowId).length_eq]
  refine ⟨?_, ?_, ?_, ?_⟩
  · rw [PrvFile.events, PrvFile.comms, filterMap_event?_interleave,
      filterMap_comm?_interleave, (stableSort_perm st.records).length_eq,
      (ch.sortComms.perm _).length_eq]
    exact habsorbed.total
  · rw [PrvFile.comms, filterMap_comm?_interleave]
    exact hcount
  · rw [PrvFile.comms, filterMap_comm?_interleave]
    intro flowId
    exact ⟨_, _, hstarts flowId, ch.sortEndpoints.sorted _, hends flowId,
      ch.sortEndpoints.sorted _, hcomms flowId⟩
  · rw [PrvFile.comms, filterMap_comm?_interleave]
    intro hsingle
    constructor
    · apply nodup_of_flowId
      intro flowId
      rw [hcount]
      exact (Nat.min_le_left _ _).trans (hsingle flowId).1
    · intro comm
      have hmem := (hcomms comm.flowId).mem_iff (a := comm)
      rw [List.mem_filter] at hmem
      rw [← mem_zip_iff_of_perm (hstarts comm.flowId) (hends comm.flowId)
        (hsingle comm.flowId).1 (hsingle comm.flowId).2]
      constructor
      · intro h
        obtain ⟨x, hx, heq⟩ := List.mem_map.mp (hmem.mp ⟨h, by simp⟩)
        rwa [← heq]
      · intro h
        exact (hmem.mpr (List.mem_map.mpr ⟨_, h, rfl⟩)).1

theorem createTracrPrv_flowsPaired_arrow :
    ∃ file, createTracrPrv .first ⟨true, fun _ => true⟩
        [arrowProc 7 eventIdFlowStart, arrowProc 8 eventIdFlowEnd] [1, 1] = .ok file ∧
      FlowsPaired [arrowProc 7 eventIdFlowStart, arrowProc 8 eventIdFlowEnd] file := by
  obtain ⟨file, hfile⟩ : ∃ file, createTracrPrv .first ⟨true, fun _ => true⟩
      [arrowProc 7 eventIdFlowStart, arrowProc 8 eventIdFlowEnd] [1, 1] = .ok file :=
    ⟨_, rfl⟩
  exact ⟨file, hfile, createTracrPrv_flowsPaired hfile⟩

end TraCR
