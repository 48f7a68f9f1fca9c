import TraCR.Proofs.Overflow

/-!
# From a buffer through its file and back

`load_bts_file` reads back the payloads that survive in the buffer of a thread, whatever
partial record follows them in the file.
-/

namespace TraCR

open TraCR.TraCRThread (tracesFile)

/-- `traces` are the payloads that survive in a buffer, out of all payloads stored: the
newest ones, the oldest ones, or all. -/
structure Survivors (b : Build) (stored traces : List Payload) : Prop where
  length : traces.length = min stored.length b.capacity
  periodic : b.policy = .periodic → traces <:+ stored
  ignoreIfFull : b.policy = .ignoreIfFull → traces <+: stored
  abortIfFull : b.policy = .abortIfFull → stored.length ≤ b.capacity ∧ traces = stored

variable {b : Build}

theorem TraCRThread.Recorded.survivors {th : TraCRThread b} {stored : List Payload}
    (h : TraCRThread.Recorded th stored) : Survivors b stored (TraCRThread.kept b stored) := by
  constructor
  case length =>
    cases hpolicy : b.policy with
    | periodic =>
        simp only [TraCRThread.kept, hpolicy, List.length_drop]
        omega
    | ignoreIfFull =>
        simp only [TraCRThread.kept, hpolicy, List.length_take]
        omega
    | abortIfFull =>
        have hfits := h.fits (by simp [hpolicy])
        simp only [TraCRThread.accepted, TraCRThread.kept, hpolicy] at hfits ⊢
        omega
  case periodic =>
    intro hpolicy
    simp only [TraCRThread.kept, hpolicy]
    exact List.drop_suffix _ _
  case ignoreIfFull =>
    intro hpolicy
    simp only [TraCRThread.kept, hpolicy]
    exact List.take_prefix _ _
  case abortIfFull =>
    intro hpolicy
    have hfits := h.fits (by simp [hpolicy])
    simp only [TraCRThread.accepted, TraCRThread.kept, hpolicy] at hfits ⊢
    exact ⟨hfits, trivial⟩

/-! ## Bytes -/

theorem length_payloadBytes (payloads : List Payload) :
    (payloadBytes payloads).length = payloads.length * Payload.size :=
  Lib.Records.length_flatMap_encode Payload.length_toBytes payloads

/-- A partial record at the end of the file is not read. -/
theorem loadBtsFile_payloadBytes (payloads : List Payload) {tail : List UInt8}
    (htail : tail.length < Payload.size) :
    loadBtsFile (.contents (payloadBytes payloads ++ tail)) = some payloads := by
  show some (readPayloads (payloadBytes payloads ++ tail)) = some payloads
  congr 1
  exact Lib.Records.readRecords_flatMap Payload.length_toBytes Payload.ofBytes_toBytes
    payloads htail

/-- A thread folder is loaded through `load_bts_file`. -/
theorem loadThreadFolder_ok_iff {entry : ThreadEntry} {traces : List Payload} {tid : Int} :
    loadThreadFolder entry = .ok (some (traces, tid)) ↔
      entry.isDirectory = true ∧ startsWith entry.name "thread." = true ∧
        loadBtsFile entry.tracesBts = some traces ∧
          Lib.Decimal.stoi (afterDot entry.name) = some tid := by
  unfold loadThreadFolder loadBtsFile
  split
  next hskip =>
    constructor
    · intro h
      cases h
    · rintro ⟨hdir, hname, -⟩
      simp [hdir, hname] at hskip
  next hthread =>
    have hthread : entry.isDirectory = true ∧ startsWith entry.name "thread." = true := by
      simpa using hthread
    cases entry.tracesBts with
    | missing => simp
    | unreadable => simp
    | contents bytes =>
        cases htid : Lib.Decimal.stoi (afterDot entry.name) with
        | none => simp
        | some n => simp [hthread]

/-! ## Store, flush and load -/

theorem TraCRThread.flushTraces_of_lookup {th : TraCRThread b} {disk : Disk}
    {path : ProcPath} {dir : ProcDir} (hindex : th.traceIdx ≠ 0)
    (hdir : disk.lookup path = some dir) :
    th.flushTraces disk path .none = .ok (disk.insert path { dir with
      threads := dir.threads.insert (TraCRThread.folderName th.tid)
        (payloadBytes th.written) }) := by
  unfold TraCRThread.flushTraces
  rw [if_neg hindex]
  simp only [hdir]

/-- The file has whole records of the survivors, and loading it gives them back, also
with a partial record after them. -/
def ReadsBack (b : Build) (stored : List Payload) (bytes : List UInt8) : Prop :=
  ∃ traces, Survivors b stored traces ∧ bytes.length = traces.length * Payload.size ∧
    ∀ tail : List UInt8, tail.length < Payload.size →
      loadBtsFile (.contents (bytes ++ tail)) = some traces

/-- A fresh buffer into which at least one payload is stored without taking the exit
can be flushed, and every flush of it that returns leaves a file that reads back. -/
theorem readsBack_of_flush {memory : Nat → Payload} {tid : Pid} {stored : List Payload}
    {th : TraCRThread b} (hstored : stored ≠ [])
    (hstore : storeAll b memory tid stored = .ok th) :
    (∀ disk path dir, disk.lookup path = some dir →
      ∃ disk', th.flushTraces disk path .none = .ok disk') ∧
    ∀ disk path fault disk', th.flushTraces disk path fault = .ok disk' →
      ∃ bytes, tracesFile disk' path tid = some bytes ∧ ReadsBack b stored bytes := by
  obtain ⟨hrecorded, htid⟩ := (TraCRThread.recorded_create memory tid).foldlM hstore
  rw [List.nil_append] at hrecorded
  have hindex : th.traceIdx ≠ 0 := mt hrecorded.traceIdx_eq_zero_iff.mp hstored
  constructor
  · intro disk path dir hdir
    exact ⟨_, TraCRThread.flushTraces_of_lookup hindex hdir⟩
  · intro disk path fault disk' hflush
    refine ⟨payloadBytes (TraCRThread.kept b stored), ?_, ?_⟩
    · have hfile : th.tid = tid := htid
      subst hfile
      rcases TraCRThread.flushTraces_ok hflush with ⟨hzero, -⟩ | ⟨-, dir, -, rfl⟩
      · exact absurd hzero hindex
      · simp [tracesFile, hrecorded.written_eq]
    · exact ⟨_, hrecorded.survivors, length_payloadBytes _,
        fun tail htail => loadBtsFile_payloadBytes _ htail⟩

theorem readsBack_ring_of_two :
    ∃ disk' bytes, tracesFile disk' ⟨"tracr/", "proc.3"⟩ ⟨7, by decide⟩ = some bytes ∧
      ReadsBack ringOfTwo threePayloads bytes := by
  have hflushed := @readsBack_of_flush ringOfTwo (fun _ => ⟨0, 0, 0, 0⟩) ⟨7, by decide⟩
    threePayloads _ (by decide) rfl
  obtain ⟨disk', hflush⟩ := hflushed.1 (AList.singleton ⟨"tracr/", "proc.3"⟩ ⟨none, ∅⟩)
    ⟨"tracr/", "proc.3"⟩ ⟨none, ∅⟩ rfl
  obtain ⟨bytes, hbytes, hreads⟩ := hflushed.2 _ _ _ _ hflush
  exact ⟨disk', bytes, hbytes, hreads⟩

end TraCR
