import TraCR.Core.Effects
import TraCR.Proofs.Dump

/-!
# When a balanced trace is reported

Every `mark_reset` records the extra id `UINT32_MAX`, whatever the extra id of the
`mark_set` it closes.  So a channel that alternates sets and resets and ends with a
reset is still reported for its extra ids, unless each extra id was set an even number
of times.
-/

namespace TraCR

open TraCR.Lib.Run TraCR.Lib.Tally TraCR.Lib.Traversal

/-- One recording call for every payload of a stream. -/
def RecordedBy (calls : List Call) (payloads : List Payload) : Prop :=
  List.Forall₂ (fun call p => call.record? = some (p.channelId, p.eventId, p.extraId))
    calls payloads

def channelCalls (c : Nat) (calls : List Call) (payloads : List Payload) : List Call :=
  ((calls.zip payloads).filter fun x => onChannel c x.2).map Prod.fst

/-- `mark_set` and `mark_reset` take turns, and a `mark_reset` is last. -/
def SetThenReset : List Call → Prop
  | [] => True
  | .markSet _ _ _ :: .markReset _ :: calls => SetThenReset calls
  | _ => False

def setIds (calls : List Call) : List (UInt16 × UInt32) :=
  calls.filterMap fun
    | .markSet _ eventId extraId => some (eventId, extraId)
    | _ => none

def spanEvents (spans : List (Payload × Payload)) : List Payload :=
  spans.flatMap fun s => [s.1, s.2]

def ClosedByReset (spans : List (Payload × Payload)) : Prop :=
  ∀ s ∈ spans, s.2.isReset = true ∧ s.2.extraId = uint32Max

@[simp] theorem spanEvents_cons (s : Payload × Payload) (spans : List (Payload × Payload)) :
    spanEvents (s :: spans) = s.1 :: s.2 :: spanEvents spans := rfl

theorem exists_spans {calls : List Call} {events : List Payload} (h : RecordedBy calls events)
    (hturns : SetThenReset calls) :
    ∃ spans, events = spanEvents spans ∧ ClosedByReset spans ∧
      setIds calls = spans.map fun s => (s.1.eventId, s.1.extraId) := by
  fun_induction SetThenReset calls generalizing events with
  | case1 =>
      cases h
      exact ⟨[], rfl, List.forall_mem_nil _, rfl⟩
  | case2 channelId eventId extraId channelId' calls ih =>
      obtain ⟨a, rest, ha, hrest, rfl⟩ := List.forall₂_cons_left_iff.mp h
      obtain ⟨b, rest, hb, hlast, rfl⟩ := List.forall₂_cons_left_iff.mp hrest
      obtain ⟨spans, rfl, hclosed, hids⟩ := ih hlast hturns
      simp only [Call.record?, Option.some.injEq, Prod.mk.injEq] at ha hb
      have hreset : b.isReset = true ∧ b.extraId = uint32Max :=
        ⟨by simp [Payload.isReset, ← hb.2.1], hb.2.2.symm⟩
      refine ⟨(a, b) :: spans, rfl, List.forall_mem_cons.mpr ⟨hreset, hclosed⟩, ?_⟩
      simp only [setIds] at hids
      simp [setIds, hids, ha.2.1, ha.2.2]
  | case3 => exact hturns.elim

/-! ## The counter -/

theorem balance_cons (p : Payload) (events : List Payload) :
    balance (p :: events) = (if p.isReset then -1 else 1) + balance events := by
  unfold balance
  cases hreset : p.isReset with
  | true =>
      simp [hreset]
      omega
  | false =>
      simp [hreset]
      omega

/-- A set that looks like a reset counts twice down with its reset. -/
theorem balance_spanEvents {spans : List (Payload × Payload)} (h : ClosedByReset spans) :
    balance (spanEvents spans) = -2 * (spans.countP fun s => s.1.isReset : Int) := by
  induction spans with
  | nil => rfl
  | cons s spans ih =>
      have hs := (h s (by simp)).1
      rw [spanEvents_cons, balance_cons, balance_cons, hs, List.countP_cons,
        ih fun s hs => h s (List.mem_cons_of_mem _ hs)]
      cases hreset : s.1.isReset with
      | true =>
          simp
          omega
      | false => simp

theorem balance_spanEvents_eq_zero_iff {spans : List (Payload × Payload)}
    (h : ClosedByReset spans) :
    balance (spanEvents spans) = 0 ↔ ∀ s ∈ spans, s.1.isReset = false := by
  have hzero : -2 * (spans.countP fun s => s.1.isReset : Int) = 0 ↔
      spans.countP (fun s => s.1.isReset) = 0 := by omega
  rw [balance_spanEvents h, hzero, List.countP_eq_zero]
  simp

theorem balance_prefix {spans : List (Payload × Payload)} (h : ClosedByReset spans)
    (hsets : ∀ s ∈ spans, s.1.isReset = false) {pre : List Payload}
    (hpre : pre <+: spanEvents spans) : balance pre = 0 ∨ balance pre = 1 := by
  induction spans generalizing pre with
  | nil =>
      rw [List.prefix_nil.mp hpre]
      exact .inl rfl
  | cons s spans ih =>
      have hopen := hsets s (by simp)
      have hclose := (h s (by simp)).1
      rcases List.prefix_cons_iff.mp hpre with rfl | ⟨pre₁, rfl, hpre₁⟩
      · exact .inl rfl
      · rcases List.prefix_cons_iff.mp hpre₁ with rfl | ⟨pre₂, rfl, hpre₂⟩
        · right
          rw [balance_cons, hopen]
          rfl
        · have hrest := ih (fun s hs => h s (List.mem_cons_of_mem _ hs))
            (fun s hs => hsets s (List.mem_cons_of_mem _ hs)) hpre₂
          rw [balance_cons, balance_cons, hopen, hclose]
          simpa using hrest

/-! ## The extra ids -/

theorem count_spanEvents {spans : List (Payload × Payload)} (h : ClosedByReset spans)
    (x : UInt32) :
    ((spanEvents spans).map Payload.extraId).count x =
      (spans.map fun s => s.1.extraId).count x + if x = uint32Max then spans.length else 0 := by
  induction spans with
  | nil => simp [spanEvents]
  | cons s spans ih =>
      have hs := (h s (by simp)).2
      simp only [spanEvents_cons, List.map_cons, List.count_cons, hs, List.length_cons,
        ih fun s hs => h s (List.mem_cons_of_mem _ hs)]
      by_cases hx : x = uint32Max
      · subst hx
        simp
        omega
      · simp [hx, Ne.symm hx]

/-- Nothing is left exactly when every other extra id was set an even number of times. -/
theorem leftExtraIds_spanEvents {spans : List (Payload × Payload)} (h : ClosedByReset spans) :
    leftExtraIds (spanEvents spans) = ∅ ↔
      ∀ x, x ≠ uint32Max → Even ((spans.map fun s => s.1.extraId).count x) := by
  rw [leftExtraIds, foldl_toggle_eq_empty_iff]
  simp only [count_spanEvents h]
  constructor
  · intro heven x hx
    simpa [hx] using heven x
  · intro heven x
    by_cases hx : x = uint32Max
    · subst hx
      rw [if_pos rfl]
      simpa using even_count_add_length heven
    · rw [if_neg hx, Nat.add_zero]
      exact heven x hx

/-! ## The report -/

/-- On every channel the payloads that are no flows come from sets and resets in turn. -/
structure BalancedRecording (q : HeapTop) (proc : ProcData) (calls : List Call) : Prop where
  recorded : RecordedBy calls (mergedPayloads q proc.btsFiles)
  turns : ∀ c, SetThenReset (channelCalls c calls (mergedPayloads q proc.btsFiles))

theorem RecordedBy.channel {calls : List Call} {payloads : List Payload}
    (h : RecordedBy calls payloads) (c : Nat) :
    RecordedBy (channelCalls c calls payloads) (channelEvents c payloads) := by
  induction h with
  | nil => exact .nil
  | @cons call p calls payloads hcall _ ih =>
      unfold channelCalls channelEvents at ih ⊢
      rw [List.zip_cons_cons]
      cases hon : onChannel c p with
      | true =>
          rw [List.filter_cons_of_pos (by exact hon), List.filter_cons_of_pos hon]
          exact .cons hcall ih
      | false =>
          rw [List.filter_cons_of_neg (by simp [hon]), List.filter_cons_of_neg (by simp [hon])]
          exact ih

theorem channelEvents_prefix {pre payloads : List Payload} (h : pre <+: payloads) (c : Nat) :
    channelEvents c pre <+: channelEvents c payloads := by
  obtain ⟨post, rfl⟩ := h
  exact ⟨channelEvents c post, by simp [channelEvents]⟩

theorem unbalancedChannels_eq_nil_iff {ch : DumpChoices} {st : DumpState}
    {payloads : List Payload} (h : st.Summarizes payloads) :
    unbalancedChannels ch st.channelIdsCheck = [] ↔
      ∀ c : UInt16, balance (channelEvents c.toNat payloads) = 0 := by
  rw [List.eq_nil_iff_forall_not_mem]
  constructor
  · intro hnone c
    by_contra hne
    exact hnone _ (h.mem_channels.mpr ⟨hne, rfl⟩)
  · rintro hzero ⟨c, d⟩ hmem
    obtain ⟨hne, heq⟩ := h.mem_channels.mp hmem
    exact hne (heq.trans (hzero c))

theorem unbalancedExtraIds_eq_nil_iff {ch : DumpChoices} {st : DumpState}
    {payloads : List Payload} (h : st.Summarizes payloads) :
    unbalancedExtraIds ch st.extraIdsCheck = [] ↔
      ∀ c : UInt16, leftExtraIds (channelEvents c.toNat payloads) = ∅ := by
  rw [List.eq_nil_iff_forall_not_mem]
  constructor
  · intro hnone c
    by_contra hne
    exact hnone _ (h.mem_extraIds.mpr ⟨hne, rfl⟩)
  · rintro hempty ⟨c, ids⟩ hmem
    exact (h.mem_extraIds.mp hmem).1 (hempty c)

def ListsNoChannel (ch : DumpChoices) (proc : ProcData) : Prop :=
  ∃ report, dumpProc ch proc = .ok report ∧ report.channels = [] ∧ report.extraIds = []

theorem listsNoChannel_iff {ch : DumpChoices} {proc : ProcData} :
    ListsNoChannel ch proc ↔ ∃ lines st,
      dumpLoop proc.btsTids (mergedStream ch.heapTop proc.btsFiles) = .ok (lines, st) ∧
        (∀ c : UInt16, balance (channelEvents c.toNat
          (mergedPayloads ch.heapTop proc.btsFiles)) = 0) ∧
        ∀ c : UInt16, leftExtraIds (channelEvents c.toNat
          (mergedPayloads ch.heapTop proc.btsFiles)) = ∅ := by
  constructor
  · rintro ⟨report, hreport, hchannels, hextra⟩
    obtain ⟨⟨lines, st⟩, hrun, heq⟩ := bind_ok_iff.mp hreport
    obtain rfl := pure_ok_iff.mp heq
    have hst := dumpLoop_summarizes hrun
    exact ⟨lines, st, hrun, (unbalancedChannels_eq_nil_iff hst).mp hchannels,
      (unbalancedExtraIds_eq_nil_iff hst).mp hextra⟩
  · rintro ⟨lines, st, hrun, hchannels, hextra⟩
    have hst := dumpLoop_summarizes hrun
    exact ⟨_, bind_ok_iff.mpr ⟨_, hrun, rfl⟩, (unbalancedChannels_eq_nil_iff hst).mpr hchannels,
      (unbalancedExtraIds_eq_nil_iff hst).mpr hextra⟩

/-- No set was given the event id of a reset, and every extra id but `UINT32_MAX` was set
an even number of times. -/
def EvenSets (ids : List (UInt16 × UInt32)) : Prop :=
  (∀ s ∈ ids, s.1 ≠ eventIdReset) ∧
    ∀ x, x ≠ uint32Max → Even (ids.countP fun s => s.2 = x)

theorem evenSets_iff {spans : List (Payload × Payload)} (h : ClosedByReset spans) :
    EvenSets (spans.map fun s => (s.1.eventId, s.1.extraId)) ↔
      balance (spanEvents spans) = 0 ∧ leftExtraIds (spanEvents spans) = ∅ := by
  have hcounter : (∀ s ∈ spans.map (fun s => (s.1.eventId, s.1.extraId)),
      s.1 ≠ eventIdReset) ↔ balance (spanEvents spans) = 0 := by
    rw [balance_spanEvents_eq_zero_iff h, List.forall_mem_map]
    simp [Payload.isReset]
  have hcount : ∀ x, (spans.map fun s => (s.1.eventId, s.1.extraId)).countP (fun s => s.2 = x) =
      (spans.map fun s => s.1.extraId).count x := by
    intro x
    rw [List.count_eq_countP, List.countP_map, List.countP_map]
    apply List.countP_congr
    intro s _
    simp
  rw [EvenSets, hcounter, leftExtraIds_spanEvents h]
  simp only [hcount]

/-- A balanced trace is reported by neither section exactly when on every channel the
extra ids given to `mark_set` pair up. -/
theorem listsNoChannel_iff_evenSets (ch : DumpChoices) {proc : ProcData} {calls : List Call}
    (htids : proc.btsTids.length = proc.btsFiles.length)
    (hbalanced : BalancedRecording ch.heapTop proc calls) :
    ListsNoChannel ch proc ↔ ∀ c : UInt16, EvenSets
      (setIds (channelCalls c.toNat calls (mergedPayloads ch.heapTop proc.btsFiles))) := by
  have hspans := fun c => exists_spans (hbalanced.recorded.channel c) (hbalanced.turns c)
  have heven : (∀ c : UInt16, EvenSets
      (setIds (channelCalls c.toNat calls (mergedPayloads ch.heapTop proc.btsFiles)))) ↔
        (∀ c : UInt16, balance (channelEvents c.toNat
          (mergedPayloads ch.heapTop proc.btsFiles)) = 0) ∧
        ∀ c : UInt16, leftExtraIds (channelEvents c.toNat
          (mergedPayloads ch.heapTop proc.btsFiles)) = ∅ := by
    rw [← forall_and]
    apply forall_congr'
    intro c
    obtain ⟨spans, hevents, hclosed, hids⟩ := hspans c.toNat
    rw [hids, hevents]
    exact evenSets_iff hclosed
  rw [listsNoChannel_iff, heven]
  constructor
  · rintro ⟨lines, st, -, h⟩
    exact h
  · intro h
    have hfits : ∀ pre, pre <+: mergedPayloads ch.heapTop proc.btsFiles → ∀ c : UInt16,
        FitsInt32 (balance (channelEvents c.toNat pre)) := by
      intro pre hpre c
      obtain ⟨spans, hevents, hclosed, -⟩ := hspans c.toNat
      have hsets := (balance_spanEvents_eq_zero_iff hclosed).mp (hevents ▸ h.1 c)
      have hprefix : channelEvents c.toNat pre <+: spanEvents spans :=
        hevents ▸ channelEvents_prefix hpre c.toNat
      rcases balance_prefix hclosed hsets hprefix with hbalance | hbalance <;>
        simp [FitsInt32, hbalance]
    have hindex : ∀ x ∈ mergedStream ch.heapTop proc.btsFiles, x.2 < proc.btsTids.length := by
      intro x hx
      rw [htids]
      exact snd_lt_of_mem_mergedStream hx
    obtain ⟨⟨lines, st⟩, hrun⟩ := exists_dumpLoop hindex hfits
    exact ⟨lines, st, hrun, h⟩

theorem balancedRecording_setAndReset (extraId : UInt32) :
    BalancedRecording .first (setAndReset extraId) [.markSet 0 0 extraId, .markReset 0] where
  recorded := .cons rfl (.cons rfl .nil)
  turns := by
    intro c
    show SetThenReset (channelCalls c [.markSet 0 0 extraId, .markReset 0]
      [⟨0, 0, extraId, 10⟩, ⟨0, eventIdReset, uint32Max, 20⟩])
    by_cases hc : 0 = c
    · subst hc
      trivial
    · simp [channelCalls, onChannel, hc, SetThenReset]

def setTwice : ProcData where
  pid := 7
  metadata := .object []
  btsFiles := [[⟨0, 0, 5, 10⟩, ⟨0, eventIdReset, uint32Max, 20⟩, ⟨0, 1, 5, 30⟩,
    ⟨0, eventIdReset, uint32Max, 40⟩]]
  btsTids := [7]
  syncStart := 10
  syncEnd := 40

theorem listsNoChannel_setTwice : ListsNoChannel .first setTwice := by
  let calls : List Call := [.markSet 0 0 5, .markReset 0, .markSet 0 1 5, .markReset 0]
  have hcalls : ∀ c, channelCalls c calls (mergedPayloads .first setTwice.btsFiles) =
      if c = 0 then calls else [] := by
    intro c
    show channelCalls c calls [⟨0, 0, 5, 10⟩, ⟨0, eventIdReset, uint32Max, 20⟩, ⟨0, 1, 5, 30⟩,
      ⟨0, eventIdReset, uint32Max, 40⟩] = _
    by_cases hc : c = 0
    · subst hc
      rfl
    · rw [if_neg hc]
      simp [channelCalls, calls, onChannel, Ne.symm hc]
  have hbalanced : BalancedRecording .first setTwice calls := by
    refine ⟨.cons rfl (.cons rfl (.cons rfl (.cons rfl .nil))), fun c => ?_⟩
    rw [hcalls]
    split <;> trivial
  apply (listsNoChannel_iff_evenSets .first rfl hbalanced).mpr
  intro c
  show EvenSets (setIds (channelCalls c.toNat calls (mergedPayloads .first setTwice.btsFiles)))
  rw [hcalls]
  split
  · show EvenSets [(0, 5), (1, 5)]
    refine ⟨List.forall_mem_cons.mpr ⟨by decide, List.forall_mem_singleton.mpr (by decide)⟩,
      fun x _ => ?_⟩
    by_cases hx : (5 : UInt32) = x
    · simp [hx]
    · simp [hx]
  · exact ⟨fun _ hs => absurd hs List.not_mem_nil, fun _ _ => Even.zero⟩

/-- A set with an extra id of its own is reported although its reset follows. -/
theorem reported_setAndReset :
    BalancedRecording .first (setAndReset 5) [.markSet 0 0 5, .markReset 0] ∧
      ¬ListsNoChannel .first (setAndReset 5) := by
  refine ⟨balancedRecording_setAndReset 5, ?_⟩
  rw [listsNoChannel_iff]
  rintro ⟨-, -, -, -, hextra⟩
  exact absurd (hextra 0) (by decide)

end TraCR
