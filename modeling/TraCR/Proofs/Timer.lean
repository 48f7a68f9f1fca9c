import TraCR.Engine.Timer
import TraCR.Postprocess.Merger

/-!
# Buffers filled from a hardware counter

As long as the converted time fits 64 bits, the conversion of ticks is exact and keeps
their order, so what a thread flushes is in the time order that the merger relies on.
-/

namespace TraCR

open TraCR.Lib.SortedList TraCRThread

def stamp (freq : UInt64) (mark : UInt64 × Payload) : Payload :=
  { mark.2 with timestamp := ticksToNs freq mark.1 }

/-- The converted time of the ticks fits 64 bits. -/
def InRange (freq ticks : UInt64) : Prop := ticks.toNat * nanos / freq.toNat < 2 ^ 64

/-- Conversion is exact without an intermediate wrap, keeps order, and so a thread that
reads a counter that does not go back flushes a file in time order. -/
theorem ticksToNs_exact {freq : UInt64} (hpos : 0 < freq)
    (hfreq : freq.toNat ≤ (2 ^ 64 - 1) / nanos) :
    (∀ ticks, InRange freq ticks → NoWrap freq ticks ∧
      (ticksToNs freq ticks).toNat = ticks.toNat * nanos / freq.toNat) ∧
    (∀ a b, a ≤ b → InRange freq a → InRange freq b → ticksToNs freq a ≤ ticksToNs freq b) ∧
    ∀ (b : Build) (memory : Nat → Payload) (tid : Pid) (marks : List (UInt64 × Payload))
      (th : TraCRThread b), (marks.map Prod.fst).Pairwise (· ≤ ·) →
      (∀ mark ∈ marks, InRange freq mark.1) →
      (marks.map (stamp freq)).foldlM storeTrace (create b memory tid) = .ok th →
        TimeSorted th.written := by
  refine ⟨?_, ?_, ?_⟩
  · intro ticks hrange
    exact ⟨noWrap hpos hfreq hrange, toNat_ticksToNs hpos hfreq hrange⟩
  · intro a b hab _ hb
    exact ticksToNs_le hpos hfreq hab hb
  · intro b memory tid marks th hticks hrange hrun
    have hrecorded := ((recorded_create memory tid).foldlM hrun).1
    rw [hrecorded.written_eq]
    apply SortedBy.sublist _ (kept_sublist _)
    rw [List.nil_append, SortedBy, List.pairwise_map]
    rw [List.pairwise_map] at hticks
    apply hticks.imp_of_mem
    intro mark mark' _ hmark' hle
    exact UInt64.le_iff_toNat_le.mp (ticksToNs_le hpos hfreq hle (hrange mark' hmark'))

/-- A counter of 3 GHz, at six seconds and a bit, where `ticks * 10^9` would wrap. -/
theorem ticksToNs_exact_3GHz :
    (ticksToNs 3000000000 19000000001).toNat = 19000000001 * nanos / 3000000000 := by
  have hrange : InRange 3000000000 19000000001 := by
    unfold InRange
    decide
  obtain ⟨hexact, -, -⟩ := @ticksToNs_exact 3000000000 (by decide) (by decide)
  exact (hexact 19000000001 hrange).2

end TraCR
