import TraCR.Proofs.Slices

/-!
# Flow arrows and the slices around them

A flow payload is copied to the track of its own channel as soon as it is read, and
the state of every channel stays as it was.  So the arrow end lies inside whatever
slice is open at that moment, on any channel, and the slices do not depend on it.
-/

namespace TraCR

open TraCR.Lib.SortedList TraCR.Lib.Traversal TraCR.Lib.Run

variable {tables : PerfettoTables} {prevs prevs' : PrevPayloads tables}
  {payloads : List Payload} {obs : List (List TraceEvent)}

/-- What a round shows of a payload: one arrow end for a flow payload, none otherwise. -/
def ArrowRound (tables : PerfettoTables) (p : Payload) (events : List TraceEvent) : Prop :=
  events.filterMap TraceEvent.flow? = if p.isFlow then [flowEvent tables p] else []

theorem emitPayload_arrowRound {p : Payload} {events : List TraceEvent}
    (h : emitPayload tables prevs p = .ok (events, prevs')) : ArrowRound tables p events := by
  obtain ⟨-, ⟨hflow, rfl, -⟩ | ⟨hflow, -, slices, -, rfl⟩⟩ := emitPayload_ok_iff.mp h
  · simp [ArrowRound, hflow, TraceEvent.flow?]
  · simp [ArrowRound, hflow, List.filterMap_map, TraceEvent.flow?, Function.comp_def]

theorem emit_arrowRounds
    (hrun : exec (emitPayload tables) prevs payloads = .ok (obs, prevs')) :
    List.Forall₂ (ArrowRound tables) payloads obs := by
  induction payloads generalizing prevs obs with
  | nil =>
      obtain ⟨rfl, -⟩ : [] = obs ∧ prevs = prevs' := by simpa using hrun
      exact .nil
  | cons p payloads ih =>
      obtain ⟨events, next, rest, hstep, hrest, rfl⟩ := exec_cons_ok_iff.mp hrun
      exact .cons (emitPayload_arrowRound hstep) (ih hrest)

theorem filterMap_flow?_of_arrowRounds (h : List.Forall₂ (ArrowRound tables) payloads obs) :
    obs.flatten.filterMap TraceEvent.flow? =
      (payloads.filter Payload.isFlow).map (flowEvent tables) := by
  induction h with
  | nil => rfl
  | @cons p events payloads obs hround hrest ih =>
      rw [ArrowRound] at hround
      rw [List.flatten_cons, List.filterMap_append, hround, ih]
      cases hflow : p.isFlow <;> simp [hflow]

theorem emit_tracks (htracks : Tracks prevs)
    (hrun : exec (emitPayload tables) prevs payloads = .ok (obs, prevs')) : Tracks prevs' := by
  apply exec_invariant (I := Tracks) (P := fun _ _ => True) _ htracks
    (along_of_forall (Q := fun _ => True) fun _ _ => trivial) hrun
  intro prevs p events next htracks _ hstep
  obtain ⟨hlt, ⟨-, -, rfl⟩ | ⟨-, rfl, -⟩⟩ := emitPayload_ok_iff.mp hstep
  · exact htracks
  · exact htracks.set hlt

theorem mem_of_isReset_eq_false (hrun : emitPayloads tables payloads = .ok (obs, prevs))
    {c : Nat} (hc : c < tables.numChannels.toNat) (hopen : prevs[c].isReset = false) :
    prevs[c] ∈ payloads := by
  have hlast := emit_prevPayloads hrun hc
  have hmem : prevs[c] ∈ (initialPrevPayloads tables)[c] :: channelEvents c payloads := by
    rw [hlast]
    exact List.getLast_mem _
  rcases List.mem_cons.mp hmem with hinitial | hevent
  · rw [hinitial] at hopen
    simp [initialPrevPayloads, Payload.isReset] at hopen
  · exact (mem_channelEvents.mp hevent).1

theorem head_slicesOf (htracks : Tracks prevs)
    (hrun : exec (emitPayload tables) prevs payloads = .ok (obs, prevs'))
    {c : Nat} (hc : c < tables.numChannels.toNat) (hopen : prevs[c].isReset = false)
    {slice : Slice} (hslice : slice ∈ (slicesOf tables.pid (c + 1) obs.flatten).head?) :
    ∃ b ∈ channelEvents c payloads, Shows tables (prevs[c], b) slice := by
  have hslices := emit_slices htracks hrun hc
  cases hevents : channelEvents c payloads with
  | nil =>
      rw [hevents, openPairs_singleton] at hslices
      have hnil : [] = slicesOf tables.pid (c + 1) obs.flatten := pure_ok_iff.mp hslices
      rw [← hnil] at hslice
      cases hslice
  | cons b events =>
      rw [hevents, openPairs_cons_cons hopen] at hslices
      obtain ⟨first, rest, hfirst, -, hcons⟩ :=
        List.forall₂_cons_left_iff.mp (mapM_ok_iff.mp hslices)
      rw [hcons] at hslice
      obtain rfl : first = slice := by simpa using hslice
      exact ⟨b, by simp, closePair_ok_iff.mp hfirst⟩

/-- What is open when a payload is read starts no later, and ends no earlier. -/
theorem enclosed_of_shows {pre post : List Payload} {s f b : Payload} {slice : Slice}
    (hsort : TimeSorted (pre ++ f :: post)) (hs : s ∈ pre) (hb : b ∈ f :: post)
    (hshows : Shows tables (s, b) slice) :
    s.timestamp ≤ f.timestamp ∧
      f.timestamp.toNat ≤ s.timestamp.toNat + slice.dur.toNat := by
  obtain ⟨-, hsuffix, hcross⟩ := List.pairwise_append.mp hsort
  have hnext : f.time ≤ b.time := SortedBy.head_le hsuffix hb
  have hle : s.timestamp ≤ f.timestamp := time_le_iff.mp (hcross s hs f (by simp))
  have hend : s.timestamp ≤ b.timestamp := time_le_iff.mp (hcross s hs b hb)
  have hnext : f.timestamp ≤ b.timestamp := time_le_iff.mp hnext
  refine ⟨hle, ?_⟩
  rw [hshows.dur, Lib.Extrema.toNat_sub hend]
  rw [UInt64.le_iff_toNat_le] at hend hnext
  omega

/-- The slices that a run of the loop puts into the file, unless the run stops. -/
def slicesShown (run : Except Failure (List (List TraceEvent) × PrevPayloads tables)) :
    Except Failure (List Slice) :=
  run.map fun out => out.1.flatten.filterMap TraceEvent.slice?

/-- Without its flow payloads a stream shows the same slices, and stops for the same
reason if it stops. -/
theorem slicesShown_filter
    (hchannel : ∀ p ∈ payloads, p.channelId.toNat < tables.numChannels.toNat) :
    slicesShown (emitPayloads tables (payloads.filter fun p => !p.isFlow)) =
      slicesShown (emitPayloads tables payloads) := by
  have hskip : ∀ (prevs : PrevPayloads tables), ∀ p ∈ payloads, (!p.isFlow) = false →
      ∃ events, emitPayload tables prevs p = .ok (events, prevs) ∧
        events.filterMap TraceEvent.slice? = [] := by
    intro prevs p hp hflow
    have hflow : p.isFlow = true := by simpa using hflow
    exact ⟨_, emitPayload_ok_iff.mpr ⟨hchannel p hp, .inl ⟨hflow, rfl, rfl⟩⟩, rfl⟩
  have hview : ∀ run : Except Failure (List (List TraceEvent) × PrevPayloads tables),
      slicesShown run = (run.map fun out =>
        (out.1.flatMap (List.filterMap TraceEvent.slice?), out.2)).map Prod.fst := by
    intro run
    cases run with
    | error e => rfl
    | ok out => simp [slicesShown, Except.map, List.filterMap_flatten, List.flatMap_def]
  rw [hview, hview, emitPayloads, emitPayloads, exec_filter _ hskip]

/-- Arrow ends are copied one by one, each lies within every slice that is open around
it, and the slices do not depend on them.  The prefixes of the stream stand for what the
loop has written when it is cut short. -/
theorem flows_within_slices {q : HeapTop} {proc : ProcData}
    (hsort : TimeSorted (mergedPayloads q proc.btsFiles))
    (hchannel : ∀ p ∈ mergedPayloads q proc.btsFiles,
      p.channelId.toNat < tables.numChannels.toNat) :
    (∀ pre, pre <+: mergedPayloads q proc.btsFiles → ∀ obs prevs,
      emitPayloads tables pre = .ok (obs, prevs) →
        List.Forall₂ (ArrowRound tables) pre obs ∧
          obs.flatten.filterMap TraceEvent.flow? =
            (pre.filter Payload.isFlow).map (flowEvent tables)) ∧
    (∀ pre f post, pre ++ f :: post <+: mergedPayloads q proc.btsFiles →
      f.isFlow = true → ∀ obs prevs obs' prevs',
      emitPayloads tables pre = .ok (obs, prevs) →
      exec (emitPayload tables) prevs (f :: post) = .ok (obs', prevs') →
      ∀ c (_ : c < tables.numChannels.toNat), prevs[c].isReset = false →
      ∀ slice ∈ (slicesOf tables.pid (c + 1) obs'.flatten).head?,
        (∃ b ∈ post, Shows tables (prevs[c], b) slice) ∧
          prevs[c].timestamp ≤ f.timestamp ∧
            f.timestamp.toNat ≤ prevs[c].timestamp.toNat + slice.dur.toNat) ∧
    ∀ pre, pre <+: mergedPayloads q proc.btsFiles →
      slicesShown (emitPayloads tables (pre.filter fun p => !p.isFlow)) =
        slicesShown (emitPayloads tables pre) := by
  refine ⟨?_, ?_, ?_⟩
  · intro pre hpre obs prevs hrun
    have hrounds := emit_arrowRounds hrun
    exact ⟨hrounds, filterMap_flow?_of_arrowRounds hrounds⟩
  · intro pre f post hpre hflow obs prevs obs' prevs' hrun hrest c hc hopen slice hslice
    have hprefix : TimeSorted (pre ++ f :: post) := hsort.sublist hpre.sublist
    obtain ⟨b, hb, hshows⟩ :=
      head_slicesOf (emit_tracks tracks_initial hrun) hrest hc hopen hslice
    rw [channelEvents_cons_of_flow hflow] at hb
    have hpost : b ∈ post := (mem_channelEvents.mp hb).1
    have hs : prevs[c] ∈ pre := mem_of_isReset_eq_false hrun hc hopen
    exact ⟨⟨b, hpost, hshows⟩,
      enclosed_of_shows hprefix hs (List.mem_cons_of_mem f hpost) hshows⟩
  · intro pre hpre
    exact slicesShown_filter fun p hp => hchannel p (hpre.subset hp)

theorem flows_within_slices_twoChannels :
    ∃ obs prevs obs' prevs' slice,
      emitPayloads twoChannelsTables [⟨0, 0, uint32Max, 10⟩, ⟨1, 1, uint32Max, 20⟩] =
          .ok (obs, prevs) ∧
        exec (emitPayload twoChannelsTables) prevs
            [⟨1, eventIdFlowStart, 3, 25⟩, ⟨0, 1, 5, 30⟩] = .ok (obs', prevs') ∧
          slice ∈ (slicesOf 7 1 obs'.flatten).head? ∧
            prevs[0].timestamp ≤ 25 ∧
              (25 : UInt64).toNat ≤ prevs[0].timestamp.toNat + slice.dur.toNat := by
  obtain ⟨-, hwithin, -⟩ :=
    @flows_within_slices twoChannelsTables .first twoChannels (by decide) (by decide)
  have hslices := hwithin [⟨0, 0, uint32Max, 10⟩, ⟨1, 1, uint32Max, 20⟩]
    ⟨1, eventIdFlowStart, 3, 25⟩ [⟨0, 1, 5, 30⟩] (by decide) rfl _ _ _ _ rfl rfl 0
    (by decide) rfl _ rfl
  exact ⟨_, _, _, _, _, rfl, rfl, rfl, hslices.2⟩

end TraCR
