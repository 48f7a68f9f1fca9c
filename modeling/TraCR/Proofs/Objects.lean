import Mathlib.Algebra.BigOperators.Group.List.Basic
import TraCR.Proofs.Paraver
import TraCR.Proofs.Perfetto

/-!
# The objects a Paraver record names

The header of `tracr.prv` and the rows of `tracr.row` are sized by the metadata,
the records name the channels of the payloads.  `perfetto` compares the two,
`paraver` does not.
-/

namespace TraCR

open TraCR.Lib TraCR.Lib.Traversal

/-! ## Channel counts -/

/-- Where both exporters accept the channel metadata, `perfetto` counts modulo
`2 ^ 32` what `paraver` counts. -/
theorem perfettoNumChannels_of_extractChannelInfo {metadata : Json} {n : Nat}
    {names : List String} (h : extractChannelInfo metadata = .ok (n, names)) :
    ∃ k, perfettoNumChannels metadata = .ok k ∧ k.toNat = n % 2 ^ 32 := by
  unfold extractChannelInfo at h
  unfold perfettoNumChannels
  cases hnames : metadata.field? "channel_names" with
  | some channels =>
      rw [hnames] at h
      obtain ⟨names', -, heq⟩ := bind_ok_iff.mp h
      have hsize : channels.size = n := (Prod.mk.inj (pure_ok_iff.mp heq)).1
      refine ⟨_, rfl, ?_⟩
      rw [castUInt32_toNat, hsize]
      omega
  | none =>
      cases hcount : metadata.field? "num_channels" with
      | none =>
          rw [hnames, hcount] at h
          have hone : 1 = n := (Prod.mk.inj (Except.ok.inj h)).1
          refine ⟨1, rfl, ?_⟩
          rw [← hone]
          rfl
      | some j =>
          rw [hnames, hcount] at h
          cases j with
          | number m =>
              have hvalue : (castUInt64 m).toNat = n := (Prod.mk.inj (Except.ok.inj h)).1
              refine ⟨castUInt32 m, rfl, ?_⟩
              rw [castUInt32_toNat, ← hvalue, castUInt64_toNat]
              omega
          | null => cases h
          | boolean b => cases h
          | string s => cases h
          | array elements => cases h
          | object fields => cases h

/-! ## What a successful export writes -/

variable {ch : ParaverChoices} {out : OutputFolder} {procs : List ProcData}
  {files : ParaverFiles}

theorem paraver_ok (h : paraver ch out procs = .ok files) :
    ∃ channels, procs.mapM (fun proc => extractChannelInfo proc.metadata) = .ok channels ∧
      createTracrPrv ch out procs (channels.map Prod.fst) = .ok files.prv ∧
      files.row = (procs.zip channels).flatMap fun x =>
        procRowNames (1 < procs.length) x.1 x.2.1 x.2.2 := by
  unfold paraver at h
  split at h
  · cases h
  · simp only [bind_ok_iff, pure_ok_iff] at h
    obtain ⟨pcf, -, channels, hchannels, prv, hprv, row, hrow, rfl⟩ := h
    refine ⟨channels, hchannels, hprv, ?_⟩
    unfold createTracrRow at hrow
    split at hrow
    · cases hrow
    · exact (Except.ok.inj hrow).symm

theorem length_rows {multiProc : Bool} {channels : List (Nat × List String)}
    (hlen : channels.length = procs.length) :
    ((procs.zip channels).flatMap fun x =>
      procRowNames multiProc x.1 x.2.1 x.2.2).length = (channels.map Prod.fst).sum := by
  have hcount : ∀ x : ProcData × Nat × List String,
      (procRowNames multiProc x.1 x.2.1 x.2.2).length = x.2.1 := by
    intro x
    simp [procRowNames]
  have hsnd : (procs.zip channels).map Prod.snd = channels :=
    List.map_snd_zip (le_of_eq hlen)
  calc ((procs.zip channels).flatMap fun x =>
        procRowNames multiProc x.1 x.2.1 x.2.2).length
      = ((procs.zip channels).map fun x => x.2.1).sum := by
        simp only [List.length_flatMap, hcount]
    _ = (((procs.zip channels).map Prod.snd).map Prod.fst).sum := by
        rw [List.map_map]
        rfl
    _ = (channels.map Prod.fst).sum := by rw [hsnd]

/-! ## Existing objects -/

/-- The entry of the task-major row list that a task and a thread select. -/
def rowIndex (taskChannels : List Nat) (task thread : Nat) : Nat :=
  (taskChannels.take (task - 1)).sum + (thread - 1)

/-- The task is one of the procs, the thread one of the channels the header
declares for it, and both select an entry of `tracr.row`. -/
structure NamesRow (procs : List ProcData) (files : ParaverFiles) (task thread : Nat) :
    Prop where
  task_pos : 1 ≤ task
  task_le : task ≤ procs.length
  thread_pos : 1 ≤ thread
  thread_le : thread ≤ files.prv.taskChannels.getD (task - 1) 0
  row_lt : rowIndex files.prv.taskChannels task thread < files.row.length

/-- The header and the rows agree, every record names existing objects, and no
payload is accepted that `perfetto` refuses. -/
structure ConsistentObjects (procs : List ProcData) (files : ParaverFiles) : Prop where
  tasks : files.prv.taskChannels.length = procs.length
  rows : files.row.length = files.prv.taskChannels.sum
  event : ∀ r ∈ files.prv.events, NamesRow procs files r.task r.thread
  send : ∀ comm ∈ files.prv.comms, NamesRow procs files comm.send.task comm.send.thread
  recv : ∀ comm ∈ files.prv.comms, NamesRow procs files comm.recv.task comm.recv.thread
  accepted : ∀ proc ∈ procs, ∀ traces ∈ proc.btsFiles, ∀ p ∈ traces,
    ¬ChannelRejected proc p

theorem sum_take_add_lt {l : List Nat} {i k : Nat} (hi : i < l.length) (hk : k < l[i]) :
    (l.take i).sum + k < l.sum := by
  have hsplit : l.sum = (l.take i).sum + (l.drop i).sum := (List.sum_take_add_sum_drop l i).symm
  rw [List.drop_eq_getElem_cons hi, List.sum_cons] at hsplit
  omega

theorem namesRow_of_declared {channels : List (Nat × List String)}
    (hchannels : procs.mapM (fun proc => extractChannelInfo proc.metadata) = .ok channels)
    (hcounts : files.prv.taskChannels = channels.map Prod.fst)
    (hrows : files.row.length = files.prv.taskChannels.sum)
    {q : HeapTop} {tasks : List PrvTask} (htasks : TasksOf (globalT0 procs) procs tasks)
    (hdeclared : ∀ proc ∈ procs, ∀ traces ∈ proc.btsFiles, ∀ p ∈ traces,
      ChannelDeclared proc p)
    {item : PrvTask × Payload} (hitem : item ∈ prvItems q procs tasks) :
    NamesRow procs files item.1.task (item.2.channelId.toNat + 1) := by
  obtain ⟨i, hi, hi', htask, hp⟩ := htasks.mem_prvItems.mp hitem
  obtain ⟨_, _, hnumber, _⟩ := htasks.getElem hi
  obtain ⟨traces, htraces, hmem⟩ := mem_mergedPayloads.mp hp
  have hlen : channels.length = procs.length := length_mapM hchannels
  have hi'' : i < channels.length := by omega
  have hinfo : extractChannelInfo procs[i].metadata = .ok (channels[i].1, channels[i].2) :=
    (List.forall₂_iff_get.mp (mapM_ok_iff.mp hchannels)).2 i hi hi''
  -- the count of `perfetto` is at most the count in the header
  obtain ⟨k, hk, hkn⟩ := perfettoNumChannels_of_extractChannelInfo hinfo
  obtain ⟨n, hn, hlt⟩ := hdeclared procs[i] (List.getElem_mem hi) traces htraces _ hmem
  have hnk : k = n := Except.ok.inj (hk.symm.trans hn)
  have hle : k.toNat ≤ channels[i].1 := hkn ▸ Nat.mod_le _ _
  have hcount : item.2.channelId.toNat < channels[i].1 := by
    rw [← hnk] at hlt
    omega
  rw [htask, hnumber]
  constructor
  case task_pos => omega
  case task_le => omega
  case thread_pos => omega
  case thread_le =>
      rw [hcounts, Nat.add_sub_cancel]
      simpa [hi''] using Nat.succ_le_of_lt hcount
  case row_lt =>
      rw [hrows, rowIndex, hcounts, Nat.add_sub_cancel, Nat.add_sub_cancel]
      exact sum_take_add_lt (by simpa using hi'') (by simpa using hcount)

/-- A successful Paraver export names existing objects exactly when every payload
is recorded on a channel the metadata declares. -/
theorem consistentObjects_iff (h : paraver ch out procs = .ok files) :
    ConsistentObjects procs files ↔
      ∀ proc ∈ procs, ∀ traces ∈ proc.btsFiles, ∀ p ∈ traces, ChannelDeclared proc p := by
  obtain ⟨channels, hchannels, hprv, hrow⟩ := paraver_ok h
  obtain ⟨hcounts, tasks, rs, hexport⟩ := createTracrPrv_ok hprv
  have hlen : channels.length = procs.length := length_mapM hchannels
  have hrows : files.row.length = files.prv.taskChannels.sum := by
    rw [hrow, length_rows hlen, hcounts]
  constructor
  · intro hconsistent proc hproc traces htraces p hp
    obtain ⟨i, hi, rfl⟩ := List.mem_iff_getElem.mp hproc
    have hinfo := (List.forall₂_iff_get.mp (mapM_ok_iff.mp hchannels)).2 i hi (by omega)
    obtain ⟨k, hk, -⟩ := perfettoNumChannels_of_extractChannelInfo hinfo
    refine ⟨k, hk, ?_⟩
    by_contra hge
    exact hconsistent.accepted _ hproc traces htraces p hp ⟨k, hk, Nat.le_of_not_lt hge⟩
  · intro hdeclared
    have hitem : ∀ item ∈ prvItems ch.heapTop procs tasks,
        NamesRow procs files item.1.task (item.2.channelId.toNat + 1) := fun item hitem =>
      namesRow_of_declared hchannels hcounts hrows hexport.tasks_of hdeclared hitem
    constructor
    case tasks => simp [hcounts, hlen]
    case rows => exact hrows
    case event =>
        intro r hr
        rw [hexport.events_eq, SortedList.mem_stableSort] at hr
        obtain ⟨item, hmem, hrecord⟩ :=
          exists_of_mem_mapM (mapM_taskRecord hexport.records_of) hr
        obtain ⟨-, -, htask, hthread⟩ := taskRecord_ok_iff.mp hrecord
        rw [htask, hthread]
        exact hitem item (List.mem_filter.mp hmem).1
    case send =>
        intro comm hcomm
        obtain ⟨item, hmem, -, hsend⟩ := hexport.comm_send comm hcomm
        rw [hsend]
        exact hitem item hmem
    case recv =>
        intro comm hcomm
        obtain ⟨item, hmem, -, hrecv⟩ := hexport.comm_recv comm hcomm
        rw [hrecv]
        exact hitem item hmem
    case accepted =>
        rintro proc hproc traces htraces p hp ⟨n, hn, hle⟩
        obtain ⟨n', hn', hlt⟩ := hdeclared proc hproc traces htraces p hp
        obtain rfl : n = n' := Except.ok.inj (hn.symm.trans hn')
        omega

/-- Four channels declared, the fourth one used. -/
theorem consistentObjects_four_channels :
    ∃ files, paraver .first ⟨true, fun _ => true⟩ [{
        pid := 1
        metadata := .object [("num_channels", .number 4)]
        btsFiles := [[⟨3, 0, uint32Max, 7⟩, ⟨3, eventIdReset, uint32Max, 9⟩]]
        btsTids := [1]
        syncStart := 7
        syncEnd := 9 }] = .ok files ∧
      ConsistentObjects [{
        pid := 1
        metadata := .object [("num_channels", .number 4)]
        btsFiles := [[⟨3, 0, uint32Max, 7⟩, ⟨3, eventIdReset, uint32Max, 9⟩]]
        btsTids := [1]
        syncStart := 7
        syncEnd := 9 }] files := by
  refine ⟨_, rfl,
    (@consistentObjects_iff .first ⟨true, fun _ => true⟩ _ _ rfl).mpr ?_⟩
  intro proc hproc traces htraces p hp
  obtain rfl := List.mem_singleton.mp hproc
  obtain rfl := List.mem_singleton.mp htraces
  have hchannel : ∀ p ∈ [(⟨3, 0, uint32Max, 7⟩ : Payload),
      ⟨3, eventIdReset, uint32Max, 9⟩], p.channelId.toNat < 4 := by decide
  exact ⟨4, rfl, hchannel p hp⟩

/-- One channel by default, the fourth one used: the export succeeds with a record
for a thread the header does not declare. -/
theorem paraver_undeclared_channel :
    ¬∀ (ch : ParaverChoices) (out : OutputFolder) (procs : List ProcData)
      (files : ParaverFiles), paraver ch out procs = .ok files →
        ConsistentObjects procs files := by
  intro h
  have hconsistent := h .first ⟨true, fun _ => true⟩ [{
      pid := 1
      metadata := .object []
      btsFiles := [[⟨3, 0, uint32Max, 7⟩, ⟨3, eventIdReset, uint32Max, 9⟩]]
      btsTids := [1]
      syncStart := 7
      syncEnd := 9 }] _ rfl
  have hrow := hconsistent.event ⟨0, 1, 4, "0"⟩ (by decide)
  exact absurd hrow.thread_le (by decide)

end TraCR
