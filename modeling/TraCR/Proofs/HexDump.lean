import TraCR.Core.TraceStr
import TraCR.Lib.Traversal

/-!
# The hexadecimal dump of a buffer

The loop runs over as many payloads as were ever accepted.  While the buffer has not
wrapped these are the ones it holds; a periodic buffer that has wrapped makes the loop
leave the array.
-/

namespace TraCR

open TraCR.Lib TraCR.Lib.Records TraCR.Lib.Traversal TraCRThread

variable {b : Build} {th : TraCRThread b}

@[simp] theorem length_rawData (th : TraCRThread b) :
    th.rawData.length = Payload.size * b.capacity := by
  rw [rawData, payloadBytes, length_flatMap_encode Payload.length_toBytes, Vector.length_toList,
    Nat.mul_comm]

theorem isBlank_of_mem_separator {totalBytes i : Nat} {c : Char}
    (h : c ∈ separator totalBytes i) : Hex.isBlank c = true := by
  rw [separator, List.mem_append] at h
  rcases h with h | h
  · split at h
    · rw [List.mem_singleton.mp h]
      rfl
    · cases h
  · split at h
    · rw [List.mem_singleton.mp h]
      rfl
    · cases h

theorem map_range_getD (bytes : List UInt8) {n : Nat} (h : n ≤ bytes.length) :
    (List.range n).map (fun i => bytes.getD i 0) = bytes.take n := by
  apply List.ext_getElem
  · simp [h]
  · intro i hi hi'
    have hlt : i < bytes.length := by
      rw [List.length_map, List.length_range] at hi
      omega
    simp [hlt]

theorem mapM_hexRound {bytes : List UInt8} {n : Nat} (h : n ≤ bytes.length) :
    ∃ rounds, (List.range n).mapM (hexRound bytes n) = .ok rounds ∧
      Hex.decode (Hex.ink rounds.flatten) = some (bytes.take n) := by
  let pieces := (List.range n).map fun i => (bytes.getD i 0, separator n i)
  have hrounds : (List.range n).mapM (hexRound bytes n) =
      .ok ((List.range n).map fun i => Hex.encodeByte (bytes.getD i 0) ++ separator n i) := by
    apply mapM_eq_ok_map
    intro i hi
    have hlt : i < bytes.length := (List.mem_range.mp hi).trans_le h
    simp [hexRound, hlt]
  have hblank : ∀ x ∈ pieces, ∀ c ∈ x.2, Hex.isBlank c = true := by
    intro x hx c hc
    obtain ⟨i, -, rfl⟩ := List.mem_map.mp hx
    exact isBlank_of_mem_separator hc
  have hdecode := Hex.decode_ink hblank
  rw [List.flatMap_map, List.map_map] at hdecode
  refine ⟨_, hrounds, ?_⟩
  rw [← map_range_getD bytes h, ← List.flatMap_def]
  exact hdecode

/-- The loop over more bytes than there are reads the first offset behind them. -/
theorem mapM_hexRound_error {bytes : List UInt8} {n : Nat} (h : bytes.length < n) :
    (List.range n).mapM (hexRound bytes n) = .error bytes.length := by
  rw [mapM_error_iff]
  refine ⟨bytes.length, by simpa using h, by simp [hexRound], ?_⟩
  intro j hj
  exact ⟨Hex.encodeByte bytes[j] ++ separator n j, by simp [hexRound, hj]⟩

/-- The dump stays within the array, and behind the thread id it says what the buffer
holds, once. -/
structure FaithfulDump (th : TraCRThread b) : Prop where
  in_bounds : ∀ i, instrumentationGetThreadTraceStr (some th) ≠ .error i
  decodes : th.traceIdx ≠ 0 → ∃ text,
    instrumentationGetThreadTraceStr (some th) = .ok (tidStr th ++ String.ofList text) ∧
      Hex.decode (Hex.ink text) = some (payloadBytes th.written)

theorem traceStr_of_pos (h : th.traceIdx ≠ 0) :
    instrumentationGetThreadTraceStr (some th) =
      ((List.range (Payload.size * th.traceIdx)).mapM
        (hexRound th.rawData (Payload.size * th.traceIdx))).map fun rounds =>
          tidStr th ++ String.ofList rounds.flatten := by
  simp only [instrumentationGetThreadTraceStr, h, if_false]
  cases (List.range (Payload.size * th.traceIdx)).mapM
    (hexRound th.rawData (Payload.size * th.traceIdx)) <;> rfl

theorem written_of_le (h : th.traceIdx ≤ b.capacity) :
    th.written = th.traces.toList.take th.traceIdx := by
  unfold written
  cases b.policy with
  | periodic => simp only [Nat.not_lt.mpr h, if_false]
  | ignoreIfFull | abortIfFull => rfl

theorem faithfulDump_iff : FaithfulDump th ↔ th.traceIdx ≤ b.capacity := by
  constructor
  · intro h
    by_contra hgt
    have hpos : th.traceIdx ≠ 0 := by omega
    have hbeyond : th.rawData.length < Payload.size * th.traceIdx := by
      rw [length_rawData]
      exact Nat.mul_lt_mul_of_pos_left (by omega) (by decide)
    refine h.in_bounds th.rawData.length ?_
    rw [traceStr_of_pos hpos, mapM_hexRound_error hbeyond]
    rfl
  · intro hle
    by_cases hzero : th.traceIdx = 0
    · refine ⟨?_, fun hpos => absurd hzero hpos⟩
      simp [instrumentationGetThreadTraceStr, hzero]
    · have hbytes : Payload.size * th.traceIdx ≤ th.rawData.length := by
        rw [length_rawData]
        exact Nat.mul_le_mul_left _ hle
      obtain ⟨rounds, hrounds, hdecode⟩ := mapM_hexRound hbytes
      have hdump := traceStr_of_pos hzero
      rw [hrounds] at hdump
      refine ⟨by simp [hdump, Except.map], ?_⟩
      intro _
      refine ⟨rounds.flatten, hdump, ?_⟩
      rw [hdecode, written_of_le hle, rawData, payloadBytes, payloadBytes,
        take_flatMap_encode Payload.length_toBytes]

/-! ## Over a run -/

/-- After any calls of `store_trace` that return, the dump is faithful exactly when the
buffer is not a periodic one that has wrapped. -/
theorem faithfulDump_iff_of_run {memory : Nat → Payload} {tid : Pid} {stored : List Payload}
    (hrun : stored.foldlM storeTrace (create b memory tid) = .ok th) :
    FaithfulDump th ↔ (b.policy = .periodic → stored.length ≤ b.capacity) := by
  have hrecorded := ((recorded_create memory tid).foldlM hrun).1
  rw [List.nil_append] at hrecorded
  rw [faithfulDump_iff, hrecorded.index]
  cases hpolicy : b.policy with
  | periodic => simp [accepted, hpolicy]
  | ignoreIfFull => simpa [hpolicy] using hrecorded.fits
  | abortIfFull => simpa [hpolicy] using hrecorded.fits

def onePeriodic : Build := ⟨1, by decide, .periodic, false⟩

theorem firstTid_inRange : 0 < 7 ∧ 7 < 2 ^ 31 := by decide

def firstTid : Pid := ⟨7, firstTid_inRange⟩

def noMemory (_ : Nat) : Payload := ⟨0, 0, 0, 0⟩

theorem faithfulDump_one :
    ∃ th, [⟨0, 0, 5, 10⟩].foldlM storeTrace (create onePeriodic noMemory firstTid) = .ok th ∧
      FaithfulDump th := by
  obtain ⟨th, hrun⟩ : ∃ th, [⟨0, 0, 5, 10⟩].foldlM storeTrace
      (create onePeriodic noMemory firstTid) = .ok th := ⟨_, rfl⟩
  exact ⟨th, hrun, (faithfulDump_iff_of_run hrun).mpr fun _ => by decide⟩

/-- The second payload wraps the buffer and the dump reads the byte behind it. -/
theorem dump_out_of_bounds :
    ∃ th, [⟨0, 0, 5, 10⟩, ⟨0, eventIdReset, uint32Max, 20⟩].foldlM storeTrace
        (create onePeriodic noMemory firstTid) = .ok th ∧
      instrumentationGetThreadTraceStr (some th) = .error 16 ∧ ¬FaithfulDump th := by
  refine ⟨_, rfl, rfl, ?_⟩
  intro h
  exact h.in_bounds 16 rfl

end TraCR
