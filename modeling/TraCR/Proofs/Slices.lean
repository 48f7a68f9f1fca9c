import TraCR.Proofs.Tables
import TraCR.Proofs.Timeline

/-!
# The slice machine

`perfetto` reads one merged stream and remembers one payload per channel.  What it
emits is what each channel says on its own: a slice for every interval, in order, and
nothing else but the arrow ends of the flow payloads.
-/

namespace TraCR

open TraCR.Lib TraCR.Lib.Extrema TraCR.Lib.Interleaving TraCR.Lib.Pairs TraCR.Lib.Run
open TraCR.Lib.SortedList TraCR.Lib.Traversal

/-- `s'` starts no earlier than `s`, and not before `s` is over. -/
def Slice.Before (s s' : Slice) : Prop :=
  s.ts ≤ s'.ts ∧ s.ts.toNat + s.dur.toNat ≤ s'.ts.toNat

variable {tables : PerfettoTables} {payloads : List Payload}

/-! ## Time order -/

/-- In time order an interval ends no later than any further one begins. -/
theorem pairwise_intervals (hsort : TimeSorted payloads) (c : Nat) :
    (intervals c payloads).Pairwise fun x y => x.2.time ≤ y.1.time :=
  (pairwise_consecutive (hsort.filter (onChannel c))).filter _

theorem Anchored.start_le_merged {proc : ProcData} (h : Anchored proc) {q : HeapTop} :
    ∀ p ∈ mergedPayloads q proc.btsFiles, proc.syncStart ≤ p.timestamp := by
  intro p hp
  obtain ⟨traces, htraces, hmem⟩ := mem_mergedPayloads.mp hp
  exact h.start_le traces htraces p hmem

theorem interval_order (hsort : TimeSorted payloads) {start : UInt64}
    (hstart : ∀ p ∈ payloads, start ≤ p.timestamp) {c : Nat} {x : Payload × Payload}
    (hx : x ∈ intervals c payloads) :
    start ≤ x.1.timestamp ∧ x.1.timestamp ≤ x.2.timestamp :=
  ⟨hstart x.1 (mem_channelEvents.mp (mem_intervals hx).1).1,
    time_le_iff.mp (time_le_of_mem_intervals hsort hx)⟩

theorem pairwise_before (hsort : TimeSorted payloads)
    (hstart : ∀ p ∈ payloads, tables.syncStart ≤ p.timestamp) {c : Nat} {slices : List Slice}
    (hshows : List.Forall₂ (Shows tables) (intervals c payloads) slices) :
    slices.Pairwise Slice.Before := by
  apply pairwise_of_forall₂ hshows (pairwise_intervals hsort c)
  rintro ⟨a, b⟩ hab ⟨a', b'⟩ hab' s s' hle hs hs'
  have hbegin : tables.syncStart ≤ a.timestamp := (interval_order hsort hstart hab).1
  have hself : a.timestamp ≤ b.timestamp := (interval_order hsort hstart hab).2
  have hbegin' : tables.syncStart ≤ a'.timestamp := (interval_order hsort hstart hab').1
  have hnext : b.timestamp ≤ a'.timestamp := time_le_iff.mp hle
  have hts : s.ts.toNat = a.timestamp.toNat - tables.syncStart.toNat := by
    rw [hs.ts, toNat_sub hbegin]
  have hdur : s.dur.toNat = b.timestamp.toNat - a.timestamp.toNat := by
    rw [hs.dur, toNat_sub hself]
  have hts' : s'.ts.toNat = a'.timestamp.toNat - tables.syncStart.toNat := by
    rw [hs'.ts, toNat_sub hbegin']
  rw [UInt64.le_iff_toNat_le] at hbegin hself hnext
  constructor
  · rw [UInt64.le_iff_toNat_le, hts, hts']
    omega
  · rw [hts, hdur, hts']
    omega

theorem timeSorted_of_mergedPayloads {q : HeapTop} {files : List (List Payload)}
    (h : TimeSorted (mergedPayloads q files)) : ∀ file ∈ files, TimeSorted file := by
  intro file hfile
  obtain ⟨i, hi, rfl⟩ := List.getElem_of_mem hfile
  rw [← nthSource_of_lt hi, ← mergedStream_interleaves q files i]
  exact h.sublist (List.filter_sublist.map Prod.fst)

/-! ## The loop -/

/-- The events of the loop are, channel by channel, the slices of the intervals. -/
structure ShowsIntervals (tables : PerfettoTables) (payloads : List Payload)
    (events : List TraceEvent) : Prop where
  slices : ∀ c, List.Forall₂ (Shows tables) (intervals c payloads)
    (slicesOf tables.pid (c + 1) events)
  only : ∀ e ∈ events, OnTrack tables payloads e
  ordered : TimeSorted payloads →
    ∀ c, (slicesOf tables.pid (c + 1) events).Pairwise Slice.Before

/-- Where channels are in bounds and intervals have labels, the loop gets through unless
an extra label is no string, and it shows the intervals of every channel. -/
theorem showsIntervals_of_stream {q : HeapTop} {raw proc : ProcData}
    (hanchors : extractSyncAnchors raw = .ok proc) (htables : perfettoTables proc = .ok tables)
    (hchannel : ∀ p ∈ mergedPayloads q proc.btsFiles,
      p.channelId.toNat < tables.numChannels.toNat)
    (hlabel : ∀ c, ∀ x ∈ intervals c (mergedPayloads q proc.btsFiles),
      tables.markerLabels = [] ∨ x.1.eventId.toNat < tables.markerLabels.length) :
    ((∃ out, emitPayloads tables (mergedPayloads q proc.btsFiles) = .ok out) ↔
      ∀ c, ∀ x ∈ intervals c (mergedPayloads q proc.btsFiles),
        ∃ label, extraLabel tables.extraIdLabels x.1.extraId = .ok label) ∧
      ∀ obs prevs, emitPayloads tables (mergedPayloads q proc.btsFiles) = .ok (obs, prevs) →
        ShowsIntervals tables (mergedPayloads q proc.btsFiles) obs.flatten := by
  constructor
  · rw [exists_emitPayloads_ok_iff]
    constructor
    · rintro ⟨-, hclose⟩ c x hx
      obtain ⟨s, hs⟩ := hclose c x hx
      exact ⟨s.extraLabel, (closePair_ok_iff.mp hs).extraLabel⟩
    · intro hextra
      refine ⟨hchannel, ?_⟩
      intro c x hx
      obtain ⟨name, hname⟩ := markerName_ok_iff.mpr (hlabel c x hx)
      obtain ⟨label, hx⟩ := hextra c x hx
      exact ⟨_, bind_ok_iff.mpr ⟨name, hname, bind_ok_iff.mpr ⟨label, hx, rfl⟩⟩⟩
  · intro obs prevs hrun
    have hslices : ∀ c, List.Forall₂ (Shows tables)
        (intervals c (mergedPayloads q proc.btsFiles))
        (slicesOf tables.pid (c + 1) obs.flatten) := by
      intro c
      exact (mapM_ok_iff.mp (emitPayloads_slices hrun c)).imp fun _ _ => closePair_ok_iff.mp
    refine ⟨hslices, emit_onTrack tracks_initial hrun, ?_⟩
    intro hsort c
    have hfiles : raw.btsFiles = proc.btsFiles := by
      obtain ⟨first, last, -, -, rfl⟩ := extractSyncAnchors_ok hanchors
      rfl
    have hanchored : Anchored proc :=
      anchored_of_extract hanchors (hfiles ▸ timeSorted_of_mergedPayloads hsort)
    have hstart : tables.syncStart = proc.syncStart :=
      (perfettoTables_ok_iff.mp htables).2.2.2.2.2
    exact pairwise_before hsort (hstart ▸ hanchored.start_le_merged) (hslices c)

/-- Two threads on two channels: a set over a set, a flow payload, a repeated reset. -/
def twoChannels : ProcData where
  pid := 7
  metadata := .object [("markerLabels", .array [.string "run", .string "wait"]),
    ("num_channels", .number 2)]
  btsFiles := [
    [⟨0, 0, uint32Max, 10⟩, ⟨0, 1, 5, 30⟩, ⟨0, eventIdReset, uint32Max, 50⟩,
      ⟨0, eventIdReset, uint32Max, 60⟩],
    [⟨1, 1, uint32Max, 20⟩, ⟨1, eventIdFlowStart, 3, 25⟩, ⟨1, eventIdReset, uint32Max, 40⟩]]
  btsTids := [7, 8]
  syncStart := 10
  syncEnd := 60

def twoChannelsTables : PerfettoTables where
  pid := 7
  numChannels := 2
  channelsJson := none
  markerLabels := ["run", "wait"]
  extraIdLabels := none
  syncStart := 10

theorem showsIntervals_twoChannels :
    ∃ obs prevs, emitPayloads twoChannelsTables
        (mergedPayloads .first twoChannels.btsFiles) = .ok (obs, prevs) ∧
      ShowsIntervals twoChannelsTables (mergedPayloads .first twoChannels.btsFiles)
        obs.flatten := by
  have hlabels : ∀ p ∈ mergedPayloads .first twoChannels.btsFiles, p.isSet = true →
      p.eventId.toNat < twoChannelsTables.markerLabels.length := by
    decide
  obtain ⟨hok, hshows⟩ := @showsIntervals_of_stream twoChannelsTables .first twoChannels
    twoChannels rfl rfl (by decide) fun c x hx =>
      .inr (hlabels x.1 (mem_channelEvents.mp (mem_intervals hx).1).1
        (isSet_of_mem_intervals hx))
  have hextra : ∀ extraId, ∃ label,
      extraLabel twoChannelsTables.extraIdLabels extraId = .ok label := by
    intro extraId
    unfold extraLabel
    split
    · exact ⟨none, rfl⟩
    · exact ⟨none, rfl⟩
  obtain ⟨⟨obs, prevs⟩, hrun⟩ := hok.mpr fun c x _ => hextra x.1.extraId
  exact ⟨obs, prevs, hrun, hshows obs prevs hrun⟩

end TraCR
