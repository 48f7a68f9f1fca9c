import TraCR.Proofs.Paraver

/-!
# The body of `tracr.prv`

The lines after the header are two sorted lists threaded into one by a cursor that
moves over the communication records.  Nothing is lost or repeated, time does not go
back, and a communication line stands before the first event line it does not follow.
-/

namespace TraCR

open TraCR.Lib.SortedList TraCR.Lib.Traversal

def PrvLine.time : PrvLine → Nat
  | .event r => r.time
  | .comm c => c.time

/-- `line` may stand before `line'`: an event line only before later sends. -/
def PrvLine.Before (line line' : PrvLine) : Prop :=
  line.time ≤ line'.time ∧
    ∀ record comm, line = .event record → line' = .comm comm → record.time < comm.time

variable {records : List PrvRecord} {comms : List CommRecord}

theorem PrvLine.comm_before_comm {comm comm' : CommRecord} :
    (PrvLine.comm comm).Before (.comm comm') ↔ comm.time ≤ comm'.time := by
  simp [Before, PrvLine.time]

theorem PrvLine.event_before_comm {record : PrvRecord} {comm : CommRecord} :
    (PrvLine.event record).Before (.comm comm) ↔ record.time < comm.time := by
  simpa [Before, PrvLine.time] using le_of_lt

theorem PrvLine.before_event {line : PrvLine} {record : PrvRecord} :
    line.Before (.event record) ↔ line.time ≤ record.time := by
  simp [Before, PrvLine.time]

theorem mem_interleave {line : PrvLine} :
    line ∈ interleave records comms ↔
      (∃ r ∈ records, line = .event r) ∨ ∃ c ∈ comms, line = .comm c := by
  induction records generalizing comms with
  | nil => simp [interleave, eq_comm]
  | cons r records ih =>
      have hsplit : ∀ c, c ∈ comms ↔
          c ∈ comms.takeWhile (fun comm => comm.send.timestamp ≤ r.timestamp) ∨
            c ∈ comms.dropWhile (fun comm => comm.send.timestamp ≤ r.timestamp) := by
        intro c
        rw [← List.mem_append, List.takeWhile_append_dropWhile]
      simp only [interleave, List.mem_append, List.mem_map, List.mem_cons, ih, hsplit]
      constructor
      · rintro (⟨c, hc, rfl⟩ | rfl | ⟨r', hr', rfl⟩ | ⟨c, hc, rfl⟩)
        · exact .inr ⟨c, .inl hc, rfl⟩
        · exact .inl ⟨r, .inl rfl, rfl⟩
        · exact .inl ⟨r', .inr hr', rfl⟩
        · exact .inr ⟨c, .inr hc, rfl⟩
      · rintro (⟨r', rfl | hr', rfl⟩ | ⟨c, hc | hc, rfl⟩)
        · exact .inr (.inl rfl)
        · exact .inr (.inr (.inl ⟨r', hr', rfl⟩))
        · exact .inl ⟨c, hc, rfl⟩
        · exact .inr (.inr (.inr ⟨c, hc, rfl⟩))

theorem lt_of_mem_dropWhile (hsort : SortedBy CommRecord.time comms) {r : PrvRecord}
    {c : CommRecord}
    (hc : c ∈ comms.dropWhile fun comm => comm.send.timestamp ≤ r.timestamp) :
    r.time < c.time := by
  induction comms with
  | nil => cases hc
  | cons first comms ih =>
      by_cases hle : first.send.timestamp ≤ r.timestamp
      · rw [List.dropWhile_cons_of_pos (by simpa using hle)] at hc
        exact ih hsort.tail hc
      · rw [List.dropWhile_cons_of_neg (by simpa using hle)] at hc
        have hfirst : r.time < first.time := by
          rw [UInt64.le_iff_toNat_le] at hle
          exact Nat.lt_of_not_le hle
        exact hfirst.trans_le (hsort.head_le hc)

theorem le_of_mem_takeWhile {r : PrvRecord} {c : CommRecord}
    (hc : c ∈ comms.takeWhile fun comm => comm.send.timestamp ≤ r.timestamp) :
    c.time ≤ r.time := by
  have hle := List.mem_takeWhile_imp hc
  exact UInt64.le_iff_toNat_le.mp (by simpa using hle)

/-- Threading sorted lists puts every line before those it may stand before. -/
theorem pairwise_interleave (hrecords : SortedBy PrvRecord.time records)
    (hcomms : SortedBy CommRecord.time comms) :
    (interleave records comms).Pairwise PrvLine.Before := by
  have hmap : ∀ {cs : List CommRecord}, SortedBy CommRecord.time cs →
      (cs.map PrvLine.comm).Pairwise PrvLine.Before := by
    intro cs hcs
    rw [List.pairwise_map]
    exact hcs.imp PrvLine.comm_before_comm.mpr
  induction records generalizing comms with
  | nil => exact hmap hcomms
  | cons r records ih =>
      have htake := hcomms.sublist (List.takeWhile_sublist
        fun comm => comm.send.timestamp ≤ r.timestamp)
      have hdrop := hcomms.sublist (List.dropWhile_sublist
        fun comm => comm.send.timestamp ≤ r.timestamp)
      have hfront : ∀ c ∈ comms.takeWhile (fun comm => comm.send.timestamp ≤ r.timestamp),
          c.time ≤ r.time := fun c hc => le_of_mem_takeWhile hc
      -- everything behind the record is no earlier than it, and sends are later
      have hback : ∀ line ∈ interleave records
          (comms.dropWhile fun comm => comm.send.timestamp ≤ r.timestamp),
          (PrvLine.event r).Before line := by
        intro line hline
        rcases mem_interleave.mp hline with ⟨r', hr', rfl⟩ | ⟨c, hc, rfl⟩
        · exact PrvLine.before_event.mpr (hrecords.head_le (List.mem_cons_of_mem r hr'))
        · exact PrvLine.event_before_comm.mpr (lt_of_mem_dropWhile hcomms hc)
      rw [interleave, List.pairwise_append, List.pairwise_cons]
      refine ⟨hmap htake, ⟨hback, ih hrecords.tail hdrop⟩, ?_⟩
      intro line hline line' hline'
      obtain ⟨c, hc, rfl⟩ := List.mem_map.mp hline
      rcases List.mem_cons.mp hline' with rfl | hline'
      · exact PrvLine.before_event.mpr (hfront c hc)
      · refine ⟨(hfront c hc).trans (hback line' hline').1, ?_⟩
        intro record comm heq
        cases heq

/-- The lines after the header are the records and the communication records, once each,
in time order; sends stand before the records they are not later than; records with one
timestamp keep the order of procs and, within a proc, of the merge. -/
structure OrderedBody (ch : ParaverChoices) (procs : List ProcData) (st : PrvState)
    (file : PrvFile) : Prop where
  events : file.events.Perm st.records
  comms : file.comms.Perm (pairFlows ch st.flowStarts st.flowEnds).1
  lines : file.lines.Perm (file.events.map .event ++ file.comms.map .comm)
  time_le : file.lines.Pairwise fun line line' => line.time ≤ line'.time
  comm_first : file.lines.Pairwise fun line line' => ∀ record comm,
    line = .event record → line' = .comm comm → record.timestamp < comm.send.timestamp
  ties : ∀ t, file.events.filter (fun r => r.timestamp = t) =
    st.records.filter fun r => r.timestamp = t
  loop_order : ∃ tasks, TasksOf (globalT0 procs) procs tasks ∧
    ((prvItems ch.heapTop procs tasks).filter fun item => !item.2.isFlow).mapM taskRecord =
      .ok st.records

theorem perm_events_comms (lines : List PrvLine) :
    lines.Perm ((lines.filterMap PrvLine.event?).map .event ++
      (lines.filterMap PrvLine.comm?).map .comm) := by
  induction lines with
  | nil => exact .refl _
  | cons line lines ih =>
      cases line with
      | event r => exact ih.cons _
      | comm c => exact (ih.cons _).trans List.perm_middle.symm

theorem createTracrPrv_orderedBody {ch : ParaverChoices} {out : OutputFolder}
    {procs : List ProcData} {channels : List Nat} {file : PrvFile}
    (h : createTracrPrv ch out procs channels = .ok file) :
    ∃ st, prvLoop ch.heapTop procs = .ok st ∧ OrderedBody ch procs st file := by
  obtain ⟨-, st, hst, rfl⟩ := createTracrPrv_ok_iff.mp h
  obtain ⟨tasks, rs, habsorbed⟩ := prvLoop_ok hst
  have hbefore := pairwise_interleave (stableSort_sorted st.records)
    (ch.sortComms.sorted (pairFlows ch st.flowStarts st.flowEnds).1)
  refine ⟨st, hst, ?_, ?_, perm_events_comms _, hbefore.imp And.left, ?_, ?_, ?_⟩
  · rw [PrvFile.events, filterMap_event?_interleave]
    exact stableSort_perm _
  · rw [PrvFile.comms, filterMap_comm?_interleave]
    exact ch.sortComms.perm _
  · exact hbefore.imp fun h record comm hrecord hcomm =>
      UInt64.lt_iff_toNat_lt.mpr (h.2 record comm hrecord hcomm)
  · intro t
    have hblock : block PrvRecord.time t.toNat (stableSort PrvRecord.time st.records) =
        block PrvRecord.time t.toNat st.records := block_stableSort _
    simpa only [block, PrvRecord.time, UInt64.toNat_inj, PrvFile.events,
      filterMap_event?_interleave] using hblock
  · rw [habsorbed.records_eq]
    exact ⟨tasks, habsorbed.tasks_of, mapM_taskRecord habsorbed.records_of⟩

def arrowProc (pid : Int) (eventId : UInt16) : ProcData where
  pid := pid
  metadata := .object [("num_channels", .number 1)]
  btsFiles := [[⟨0, 0, uint32Max, 10⟩, ⟨0, eventId, 3, 20⟩, ⟨0, eventIdReset, uint32Max, 30⟩]]
  btsTids := [pid]
  syncStart := 10
  syncEnd := 30

theorem createTracrPrv_orderedBody_arrow :
    ∃ file st, createTracrPrv .first ⟨true, fun _ => true⟩
        [arrowProc 7 eventIdFlowStart, arrowProc 8 eventIdFlowEnd] [1, 1] = .ok file ∧
      OrderedBody .first [arrowProc 7 eventIdFlowStart, arrowProc 8 eventIdFlowEnd] st file := by
  obtain ⟨file, hfile⟩ : ∃ file, createTracrPrv .first ⟨true, fun _ => true⟩
      [arrowProc 7 eventIdFlowStart, arrowProc 8 eventIdFlowEnd] [1, 1] = .ok file :=
    ⟨_, rfl⟩
  obtain ⟨st, -, hbody⟩ := createTracrPrv_orderedBody hfile
  exact ⟨file, st, hfile, hbody⟩

end TraCR
