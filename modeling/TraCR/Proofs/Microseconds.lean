import TraCR.Postprocess.PerfettoText
import TraCR.Proofs.Slices

/-!
# Printed times

`fmt_us` writes every 64-bit count of nanoseconds in full, so a reader gets the count
back and what adds up in the program adds up in the file.
-/

namespace TraCR

open TraCR.Lib TraCR.Lib.Decimal TraCR.Lib.JsonText TraCR.Lib.SortedList TraCR.Lib.Traversal

/-! ## One time -/

/-- Nanoseconds read from a printed count of microseconds. -/
def printedTime (text : String) : Option Nat := readFixed 3 text.toList

/-- The text is the time, exactly. -/
structure PrintsTime (ns : UInt64) (text : String) : Prop where
  /-- The buffer has room for what the format makes and its terminator. -/
  fits : (usFormat ns).length + 1 ≤ 32
  untruncated : text.toList = usFormat ns
  number : IsNumber text.toList
  places : ∃ whole fraction, text.toList = whole ++ '.' :: fraction ∧
    IsDigits whole ∧ IsDigits fraction ∧ fraction.length = 3
  value : printedTime text = some ns.toNat

theorem usFormat_eq (ns : UInt64) : usFormat ns = printFixed 3 ns.toNat := by
  rw [usFormat, printFixed, UInt64.toNat_div, UInt64.toNat_mod]
  rfl

theorem length_usFormat_le (ns : UInt64) : (usFormat ns).length ≤ 21 := by
  have hlt : ns.toNat < 10 ^ (17 + 3) := by
    have hbound := ns.toNat_lt
    omega
  rw [usFormat_eq]
  exact length_printFixed_le (by omega) (by omega) hlt

theorem toList_fmtUs (ns : UInt64) : (fmtUs ns).toList = printFixed 3 ns.toNat := by
  have hlength := length_usFormat_le ns
  rw [fmtUs, snprintf, String.toList_ofList, List.take_of_length_le (by omega), usFormat_eq]

theorem printedTime_fmtUs (ns : UInt64) : printedTime (fmtUs ns) = some ns.toNat := by
  rw [printedTime, toList_fmtUs]
  exact readFixed_printFixed (by omega) ns.toNat

theorem printsTime_fmtUs (ns : UInt64) : PrintsTime ns (fmtUs ns) where
  fits := by
    have hlength := length_usFormat_le ns
    omega
  untruncated := by rw [toList_fmtUs, usFormat_eq]
  number := by
    rw [toList_fmtUs]
    exact (Number.fixed 3 ns.toNat).2
  places := by
    refine ⟨_, _, toList_fmtUs ns, isDigits_toDigits _, isDigits_padded _ _, ?_⟩
    exact length_padded (by omega) (Nat.mod_lt _ (by omega))
  value := printedTime_fmtUs ns

example : fmtUs 1017990020 = "1017990.020" := rfl

/-! ## The times of a channel -/

def PrintedStop (s : Slice) (stop : Nat) : Prop :=
  ∃ ts dur, printedTime (fmtUs s.ts) = some ts ∧ printedTime (fmtUs s.dur) = some dur ∧
    ts + dur = stop

/-- The slices of a channel, as printed: each stops at the rebased time of the payload
that closes it, and what lies between two of them is what was recorded. -/
structure PrintsSlices (syncStart : UInt64) (intervals : List (Payload × Payload))
    (slices : List Slice) : Prop where
  stops : List.Forall₂ (fun (x : Payload × Payload) s => ∃ stop, PrintedStop s stop ∧
    printedTime (fmtUs (x.2.timestamp - syncStart)) = some stop) intervals slices
  meets : ∀ (i : Nat) (x x' : Payload × Payload) (s s' : Slice),
    (intervals.zip slices)[i]? = some (x, s) →
      (intervals.zip slices)[i + 1]? = some (x', s') →
        ∃ stop next, PrintedStop s stop ∧ printedTime (fmtUs s'.ts) = some next ∧
          stop ≤ next ∧ stop + x'.1.time = next + x.2.time

theorem toNat_sub_add_sub {start a b : UInt64} (ha : start ≤ a) (hb : a ≤ b) :
    (a - start).toNat + (b - a).toNat = (b - start).toNat := by
  rw [Extrema.toNat_sub ha, Extrema.toNat_sub hb, Extrema.toNat_sub (UInt64.le_trans ha hb)]
  rw [UInt64.le_iff_toNat_le] at ha hb
  omega

variable {q : HeapTop} {raw proc : ProcData} {p : Nat} {file : PerfettoFile}

/-- The printed slices of a channel of an anchored proc. -/
theorem printsSlices_of_anchored (hanchored : Anchored proc)
    (h : perfettoProc q proc p = .ok file) (c : Nat) :
    PrintsSlices proc.syncStart (intervals c (mergedPayloads q proc.btsFiles))
      (slicesOf (perfettoPid proc.pid) (c + 1) file.traceEvents) := by
  obtain ⟨tables, htables, hslices⟩ := perfettoProc_slices h
  have hstart : tables.syncStart = proc.syncStart :=
    (perfettoTables_ok_iff.mp htables).2.2.2.2.2
  have hsort : TimeSorted (mergedPayloads q proc.btsFiles) :=
    mergedPayloads_sorted hanchored.sorted
  have hshows := (mapM_ok_iff.mp (hslices c)).imp fun _ _ => closePair_ok_iff.mp
  obtain ⟨-, hshow⟩ := List.forall₂_iff_zip.mp hshows
  have hprinted : ∀ x s, x ∈ intervals c (mergedPayloads q proc.btsFiles) →
      Shows tables x s → PrintedStop s (x.2.timestamp - proc.syncStart).toNat := by
    intro x s hx hs
    obtain ⟨hbegin, hself⟩ := interval_order hsort hanchored.start_le_merged hx
    refine ⟨_, _, printedTime_fmtUs _, printedTime_fmtUs _, ?_⟩
    rw [hs.ts, hs.dur, hstart]
    exact toNat_sub_add_sub hbegin hself
  constructor
  case stops =>
    refine List.forall₂_iff_zip.mpr ⟨hshows.length_eq, ?_⟩
    intro x s hin
    exact ⟨_, hprinted x s (List.of_mem_zip hin).1 (hshow hin), printedTime_fmtUs _⟩
  case meets =>
    intro i x x' s s' hi hi'
    have hin := List.mem_of_getElem? hi
    have hin' := List.mem_of_getElem? hi'
    have hle : x.2.time ≤ x'.1.time := by
      obtain ⟨hlt, hget⟩ := List.getElem?_eq_some_iff.mp (List.getElem?_zip_eq_some.mp hi).1
      obtain ⟨hlt', hget'⟩ := List.getElem?_eq_some_iff.mp (List.getElem?_zip_eq_some.mp hi').1
      have hpair := List.pairwise_iff_getElem.mp (pairwise_intervals hsort c) i (i + 1) hlt hlt'
        (by omega)
      rwa [hget, hget'] at hpair
    obtain ⟨hbegin, hself⟩ := interval_order hsort hanchored.start_le_merged (List.of_mem_zip hin).1
    obtain ⟨hbegin', -⟩ := interval_order hsort hanchored.start_le_merged (List.of_mem_zip hin').1
    have hstop := Extrema.toNat_sub (UInt64.le_trans hbegin hself)
    have hnext := Extrema.toNat_sub hbegin'
    have hts : s'.ts = x'.1.timestamp - proc.syncStart := by rw [(hshow hin').ts, hstart]
    refine ⟨_, _, hprinted x s (List.of_mem_zip hin).1 (hshow hin), printedTime_fmtUs _, ?_⟩
    rw [UInt64.le_iff_toNat_le] at hbegin hself hbegin'
    unfold Payload.time at hle ⊢
    rw [hts, hstop, hnext]
    omega

/-- Printed times are exact, keep the order and make the slices of a channel meet. -/
theorem fmtUs_exact :
    (∀ ns, PrintsTime ns (fmtUs ns)) ∧
      (∀ ns ns' n n', printedTime (fmtUs ns) = some n → printedTime (fmtUs ns') = some n' →
        (n ≤ n' ↔ ns ≤ ns')) ∧
      ∀ (q : HeapTop) (raw proc : ProcData) (p : Nat) (file : PerfettoFile),
        extractSyncAnchors raw = .ok proc → (∀ traces ∈ raw.btsFiles, TimeSorted traces) →
          perfettoProc q proc p = .ok file →
            ∀ c, PrintsSlices proc.syncStart (intervals c (mergedPayloads q proc.btsFiles))
              (slicesOf (perfettoPid proc.pid) (c + 1) file.traceEvents) := by
  refine ⟨printsTime_fmtUs, ?_, ?_⟩
  · intro ns ns' n n' hn hn'
    rw [printedTime_fmtUs] at hn hn'
    rw [← Option.some.inj hn, ← Option.some.inj hn', UInt64.le_iff_toNat_le]
  · intro q raw proc p file hanchors hsorted hfile
    exact printsSlices_of_anchored (anchored_of_extract hanchors hsorted) hfile

/-- The slices of two channels: a set over a set ends where the next one begins. -/
theorem fmtUs_twoChannels :
    ∃ file, perfettoProc .first twoChannels 0 = .ok file ∧
      ∀ c, PrintsSlices 10 (intervals c (mergedPayloads .first twoChannels.btsFiles))
        (slicesOf 7 (c + 1) file.traceEvents) := by
  obtain ⟨file, hfile⟩ : ∃ file, perfettoProc .first twoChannels 0 = .ok file := ⟨_, rfl⟩
  exact ⟨file, hfile, fmtUs_exact.2.2 .first twoChannels twoChannels 0 file rfl
    (by decide) hfile⟩

end TraCR
