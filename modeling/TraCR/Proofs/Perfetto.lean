import TraCR.Lib.Traversal
import TraCR.Postprocess.Channel
import TraCR.Postprocess.Perfetto
import TraCR.Proofs.Merger

/-!
# The Perfetto loop shows the intervals of every channel

The loop keeps the last state change of every channel.  What it emits for one
channel is determined by the state changes of that channel alone: one slice per
interval, in order, and one arrow end per flow payload.
-/

namespace TraCR

open TraCR.Lib.Traversal TraCR.Lib.Run

def slicesOf (pid : Int) (tid : Nat) (events : List TraceEvent) : List Slice :=
  (events.filterMap TraceEvent.slice?).filter fun s => s.pid = pid ∧ s.tid = tid

def flowsOf (pid : Int) (tid : Nat) (events : List TraceEvent) : List Flow :=
  (events.filterMap TraceEvent.flow?).filter fun f => f.pid = pid ∧ f.tid = tid

def closePair (tables : PerfettoTables) (x : Payload × Payload) : Except Failure Slice :=
  closeSlice tables x.1 x.2

@[simp] theorem slicesOf_nil (pid : Int) (tid : Nat) : slicesOf pid tid [] = [] := rfl

@[simp] theorem flowsOf_nil (pid : Int) (tid : Nat) : flowsOf pid tid [] = [] := rfl

theorem mem_filterMap_slice? {events : List TraceEvent} {s : Slice} :
    s ∈ events.filterMap TraceEvent.slice? ↔ .slice s ∈ events := by
  rw [List.mem_filterMap]
  constructor
  · rintro ⟨e, he, hes⟩
    cases e with
    | slice s' => exact Option.some.inj hes ▸ he
    | processName | processSortIndex | threadName | flow => cases hes
  · exact fun h => ⟨_, h, rfl⟩

theorem mem_filterMap_flow? {events : List TraceEvent} {f : Flow} :
    f ∈ events.filterMap TraceEvent.flow? ↔ .flow f ∈ events := by
  rw [List.mem_filterMap]
  constructor
  · rintro ⟨e, he, hef⟩
    cases e with
    | flow f' => exact Option.some.inj hef ▸ he
    | processName | processSortIndex | threadName | slice => cases hef
  · exact fun h => ⟨_, h, rfl⟩

theorem slicesOf_append (pid : Int) (tid : Nat) (events events' : List TraceEvent) :
    slicesOf pid tid (events ++ events') =
      slicesOf pid tid events ++ slicesOf pid tid events' := by
  simp [slicesOf]

theorem flowsOf_append (pid : Int) (tid : Nat) (events events' : List TraceEvent) :
    flowsOf pid tid (events ++ events') =
      flowsOf pid tid events ++ flowsOf pid tid events' := by
  simp [flowsOf]

def ChannelDeclared (proc : ProcData) (p : Payload) : Prop :=
  ∃ n, perfettoNumChannels proc.metadata = .ok n ∧ p.channelId.toNat < n.toNat

def ChannelRejected (proc : ProcData) (p : Payload) : Prop :=
  ∃ n, perfettoNumChannels proc.metadata = .ok n ∧ n.toNat ≤ p.channelId.toNat

theorem perfettoTables_ok_iff {proc : ProcData} {tables : PerfettoTables} :
    perfettoTables proc = .ok tables ↔
      perfettoNumChannels proc.metadata = .ok tables.numChannels ∧
        perfettoMarkerLabels proc.metadata = .ok tables.markerLabels ∧
          tables.pid = perfettoPid proc.pid ∧
            tables.channelsJson = proc.metadata.field? "channel_names" ∧
              tables.extraIdLabels = proc.metadata.field? "extraIdLabels" ∧
                tables.syncStart = proc.syncStart := by
  simp only [perfettoTables, bind_ok_iff, pure_ok_iff]
  constructor
  · rintro ⟨n, hn, labels, hlabels, rfl⟩
    exact ⟨hn, hlabels, rfl, rfl, rfl, rfl⟩
  · rintro ⟨hn, hlabels, hpid, hchannels, hextra, hstart⟩
    exact ⟨tables.numChannels, hn, tables.markerLabels, hlabels, by
      rw [← hpid, ← hchannels, ← hextra, ← hstart]⟩

theorem perfettoTables_congr {proc proc' : ProcData} (hpid : proc'.pid = proc.pid)
    (hmetadata : proc'.metadata = proc.metadata)
    (hstart : proc'.syncStart = proc.syncStart) :
    perfettoTables proc' = perfettoTables proc := by
  unfold perfettoTables
  rw [hpid, hmetadata, hstart]

/-! ## One slice -/

/-- What a slice says about the interval it stands for. -/
structure Shows (tables : PerfettoTables) (x : Payload × Payload) (s : Slice) : Prop where
  name : markerName tables.markerLabels x.1.eventId = .ok s.name
  ts : s.ts = x.1.timestamp - tables.syncStart
  dur : s.dur = x.2.timestamp - x.1.timestamp
  pid : s.pid = tables.pid
  tid : s.tid = x.1.channelId.toNat + 1
  extraId : s.extraId = if x.1.extraId = uint32Max then none else some x.1.extraId
  extraLabel : extraLabel tables.extraIdLabels x.1.extraId = .ok s.extraLabel

theorem closePair_ok_iff {tables : PerfettoTables} {x : Payload × Payload} {s : Slice} :
    closePair tables x = .ok s ↔ Shows tables x s := by
  simp only [closePair, closeSlice, bind_ok_iff, pure_ok_iff]
  constructor
  · rintro ⟨name, hname, label, hlabel, rfl⟩
    exact ⟨hname, rfl, rfl, rfl, rfl, rfl, hlabel⟩
  · rintro ⟨hname, hts, hdur, hpid, htid, hextra, hlabel⟩
    refine ⟨s.name, hname, s.extraLabel, hlabel, ?_⟩
    rw [← hts, ← hdur, ← hpid, ← htid, ← hextra]

/-! ## One round -/

variable {tables : PerfettoTables}

/-- Every channel that is open was opened by one of its own payloads. -/
def Tracks (prevPayloads : PrevPayloads tables) : Prop :=
  ∀ c (h : c < tables.numChannels.toNat),
    prevPayloads[c].isReset = false → prevPayloads[c].channelId.toNat = c

theorem tracks_initial : Tracks (initialPrevPayloads tables) := by
  intro c h hopen
  simp [initialPrevPayloads, Payload.isReset] at hopen

theorem openPairs_cons_cons_eq (a b : Payload) (l : List Payload) :
    openPairs (a :: b :: l) = openPairs [a, b] ++ openPairs (b :: l) := by
  cases h : a.isReset with
  | false => simp [openPairs_cons_cons h]
  | true => simp [openPairs_cons_cons_of_isReset h]

/-- A round refuses a channel out of bounds; it copies a flow payload and
otherwise closes what is open on the channel. -/
theorem emitPayload_ok_iff {prevs prevs' : PrevPayloads tables} {p : Payload}
    {events : List TraceEvent} :
    emitPayload tables prevs p = .ok (events, prevs') ↔
      ∃ h : p.channelId.toNat < tables.numChannels.toNat,
        (p.isFlow = true ∧ events = [.flow (flowEvent tables p)] ∧ prevs' = prevs) ∨
        (p.isFlow = false ∧ prevs' = prevs.set p.channelId.toNat p ∧
          ∃ slices, (openPairs [prevs[p.channelId.toNat], p]).mapM (closePair tables) =
            .ok slices ∧ events = slices.map .slice) := by
  rw [emitPayload]
  split
  next hlt =>
    cases hflow : p.isFlow with
    | true =>
        simp only [if_true, Except.ok.injEq, Prod.mk.injEq, hlt, exists_true_left,
          true_and, Bool.true_eq_false, false_and, or_false]
        exact and_congr eq_comm eq_comm
    | false =>
        cases hreset : prevs[p.channelId.toNat].isReset with
        | true =>
            simp only [openPairs_cons_cons_of_isReset hreset, openPairs_singleton,
              List.mapM_nil, hlt, hreset]
            simp [pure, Except.pure, eq_comm, and_comm]
        | false =>
            simp only [openPairs_cons_cons hreset, openPairs_singleton, List.mapM_cons,
              List.mapM_nil, hlt, hreset, closePair]
            cases closeSlice tables prevs[p.channelId.toNat] p <;>
              simp [bind, Except.bind, pure, Except.pure, eq_comm, and_comm]
  next hge =>
    simp [hge]

theorem slicesOf_map_slice {a b : Payload} {slices : List Slice} {c : Nat}
    (h : (openPairs [a, b]).mapM (closePair tables) = .ok slices)
    (ha : a.isReset = false → a.channelId.toNat = c) (d : Nat) :
    slicesOf tables.pid (d + 1) (slices.map .slice) = if d = c then slices else [] := by
  have htrack : ∀ s ∈ slices, s.pid = tables.pid ∧ s.tid = c + 1 := by
    intro s hs
    obtain ⟨⟨x, y⟩, hmem, hclose⟩ := exists_of_mem_mapM h hs
    obtain ⟨hpair, hopen⟩ := List.mem_filter.mp hmem
    obtain ⟨rfl, rfl⟩ : x = a ∧ y = b := by simpa using hpair
    have hshows := closePair_ok_iff.mp hclose
    exact ⟨hshows.pid, by rw [hshows.tid, ha (by simpa using hopen)]⟩
  have hmap : (slices.map TraceEvent.slice).filterMap TraceEvent.slice? = slices := by
    simp [List.filterMap_map, TraceEvent.slice?, Function.comp_def]
  rw [slicesOf, hmap]
  split
  next hd =>
    rw [List.filter_eq_self]
    intro s hs
    simp [htrack s hs, hd]
  next hd =>
    rw [List.filter_eq_nil_iff]
    intro s hs
    simp [htrack s hs, Ne.symm hd]

theorem Tracks.set {prevs : PrevPayloads tables} (h : Tracks prevs) {p : Payload}
    (hlt : p.channelId.toNat < tables.numChannels.toNat) :
    Tracks (prevs.set p.channelId.toNat p) := by
  intro c hc
  rw [Vector.getElem_set]
  split
  next heq =>
    exact fun _ => heq
  · exact h c hc

/-! ## The whole loop -/

variable {prevs prevs' : PrevPayloads tables} {payloads : List Payload}
  {obs : List (List TraceEvent)}

/-- A slice on the track of a channel, or the arrow end of a flow payload. -/
def OnTrack (tables : PerfettoTables) (payloads : List Payload) : TraceEvent → Prop
  | .slice s => s.pid = tables.pid ∧ ∃ c < tables.numChannels.toNat, s.tid = c + 1
  | .flow f => ∃ p ∈ payloads, p.isFlow = true ∧ f = flowEvent tables p
  | _ => False

theorem OnTrack.cons {e : TraceEvent} (h : OnTrack tables payloads e) (p : Payload) :
    OnTrack tables (p :: payloads) e := by
  cases e with
  | slice s => exact h
  | flow f =>
      obtain ⟨a, ha, hflow⟩ := h
      exact ⟨a, List.mem_cons_of_mem p ha, hflow⟩
  | processName | processSortIndex | threadName => exact h

theorem onTrack_of_openPairs (htracks : Tracks prevs) {c : Nat}
    (hc : c < tables.numChannels.toNat) {p : Payload} {slices : List Slice}
    (h : (openPairs [prevs[c], p]).mapM (closePair tables) = .ok slices) {s : Slice}
    (hs : s ∈ slices) : OnTrack tables payloads (.slice s) := by
  obtain ⟨x, hx, hclose⟩ := exists_of_mem_mapM h hs
  have hshows := closePair_ok_iff.mp hclose
  refine ⟨hshows.pid, c, hc, ?_⟩
  cases hreset : prevs[c].isReset with
  | true =>
      rw [openPairs_cons_cons_of_isReset hreset] at hx
      cases hx
  | false =>
      rw [openPairs_cons_cons hreset, openPairs_singleton, List.mem_singleton] at hx
      rw [hshows.tid, hx, htracks c hc hreset]

theorem emit_onTrack (htracks : Tracks prevs)
    (hrun : exec (emitPayload tables) prevs payloads = .ok (obs, prevs')) :
    ∀ e ∈ obs.flatten, OnTrack tables payloads e := by
  induction payloads generalizing prevs obs with
  | nil =>
      obtain ⟨rfl, -⟩ : [] = obs ∧ prevs = prevs' := by simpa using hrun
      simp
  | cons p payloads ih =>
      obtain ⟨events, next, rest, hstep, hrest, rfl⟩ := exec_cons_ok_iff.mp hrun
      intro e he
      rw [List.flatten_cons, List.mem_append] at he
      obtain ⟨hlt, ⟨hflow, rfl, rfl⟩ | ⟨hflow, rfl, slices, hslices, rfl⟩⟩ :=
        emitPayload_ok_iff.mp hstep
      · rcases he with he | he
        · rw [List.mem_singleton] at he
          subst he
          exact ⟨p, by simp, hflow, rfl⟩
        · exact (ih htracks hrest e he).cons p
      · rcases he with he | he
        · obtain ⟨s, hs, rfl⟩ := List.mem_map.mp he
          exact onTrack_of_openPairs htracks hlt hslices hs
        · exact (ih (htracks.set hlt) hrest e he).cons p

theorem emit_channel_lt
    (hrun : exec (emitPayload tables) prevs payloads = .ok (obs, prevs')) :
    ∀ p ∈ payloads, p.channelId.toNat < tables.numChannels.toNat := by
  induction payloads generalizing prevs obs with
  | nil => simp
  | cons p payloads ih =>
      obtain ⟨events, next, rest, hstep, hrest, -⟩ := exec_cons_ok_iff.mp hrun
      obtain ⟨hlt, -⟩ := emitPayload_ok_iff.mp hstep
      exact List.forall_mem_cons.mpr ⟨hlt, ih hrest⟩

/-- The slices of a channel are those of the intervals that its state changes cut
out, starting from the state the loop remembers. -/
theorem emit_slices (htracks : Tracks prevs)
    (hrun : exec (emitPayload tables) prevs payloads = .ok (obs, prevs'))
    {c : Nat} (hc : c < tables.numChannels.toNat) :
    (openPairs (prevs[c] :: channelEvents c payloads)).mapM (closePair tables) =
      .ok (slicesOf tables.pid (c + 1) obs.flatten) := by
  induction payloads generalizing prevs obs with
  | nil =>
      obtain ⟨rfl, -⟩ : [] = obs ∧ prevs = prevs' := by simpa using hrun
      rfl
  | cons p payloads ih =>
      obtain ⟨events, next, rest, hstep, hrest, rfl⟩ := exec_cons_ok_iff.mp hrun
      obtain ⟨hlt, ⟨hflow, rfl, rfl⟩ | ⟨hflow, rfl, slices, hslices, rfl⟩⟩ :=
        emitPayload_ok_iff.mp hstep
      · rw [channelEvents_cons_of_flow hflow, List.flatten_cons, slicesOf_append]
        exact ih htracks hrest
      · rw [List.flatten_cons, slicesOf_append,
          slicesOf_map_slice hslices (htracks _ hlt)]
        have hnext := ih (htracks.set hlt) hrest
        rw [Vector.getElem_set] at hnext
        by_cases hch : p.channelId.toNat = c
        · subst hch
          rw [if_pos rfl] at hnext
          rw [if_pos rfl, channelEvents_cons_self hflow, openPairs_cons_cons_eq]
          exact mapM_append_ok_iff.mpr ⟨_, _, hslices, hnext, rfl⟩
        · rw [if_neg hch] at hnext
          rw [if_neg (Ne.symm hch), channelEvents_cons_of_ne hch, List.nil_append]
          exact hnext

theorem emit_prevPayloads
    (hrun : exec (emitPayload tables) prevs payloads = .ok (obs, prevs'))
    {c : Nat} (hc : c < tables.numChannels.toNat) :
    prevs'[c] = (prevs[c] :: channelEvents c payloads).getLast (by simp) := by
  induction payloads generalizing prevs obs with
  | nil =>
      obtain ⟨-, rfl⟩ : [] = obs ∧ prevs = prevs' := by simpa using hrun
      rfl
  | cons p payloads ih =>
      obtain ⟨events, next, rest, hstep, hrest, rfl⟩ := exec_cons_ok_iff.mp hrun
      rw [ih hrest]
      obtain ⟨hlt, ⟨hflow, rfl, rfl⟩ | ⟨hflow, rfl, -⟩⟩ := emitPayload_ok_iff.mp hstep
      · simp only [channelEvents_cons_of_flow hflow]
      · by_cases hch : p.channelId.toNat = c
        · subst hch
          simp only [Vector.getElem_set_self, channelEvents_cons_self hflow]
          rw [List.getLast_cons (List.cons_ne_nil _ _)]
        · simp only [Vector.getElem_set_ne _ _ hch, channelEvents_cons_of_ne hch]

theorem emit_flowPayloads
    (hrun : exec (emitPayload tables) prevs payloads = .ok (obs, prevs')) :
    obs.flatten.filterMap TraceEvent.flow? =
      (payloads.filter Payload.isFlow).map (flowEvent tables) := by
  induction payloads generalizing prevs obs with
  | nil =>
      obtain ⟨rfl, -⟩ : [] = obs ∧ prevs = prevs' := by simpa using hrun
      rfl
  | cons p payloads ih =>
      obtain ⟨events, next, rest, hstep, hrest, rfl⟩ := exec_cons_ok_iff.mp hrun
      rw [List.flatten_cons, List.filterMap_append, ih hrest]
      obtain ⟨-, ⟨hflow, rfl, -⟩ | ⟨hflow, -, slices, -, rfl⟩⟩ := emitPayload_ok_iff.mp hstep
      · simp [TraceEvent.flow?, hflow]
      · have hnone : (slices.map TraceEvent.slice).filterMap TraceEvent.flow? = [] := by
          simp [List.filterMap_map, TraceEvent.flow?, Function.comp_def]
        rw [hnone, List.filter_cons_of_neg (by simp [hflow]), List.nil_append]

theorem emit_flows
    (hrun : exec (emitPayload tables) prevs payloads = .ok (obs, prevs')) (c : Nat) :
    flowsOf tables.pid (c + 1) obs.flatten =
      (channelFlows c payloads).map (flowEvent tables) := by
  rw [flowsOf, emit_flowPayloads hrun, List.filter_map, List.filter_filter, channelFlows]
  congr 1
  apply List.filter_congr
  intro p _
  simp [flowEvent]

theorem emit_ok
    (hlt : ∀ p ∈ payloads, p.channelId.toNat < tables.numChannels.toNat)
    (hclose : ∀ c (hc : c < tables.numChannels.toNat),
      ∀ x ∈ openPairs (prevs[c] :: channelEvents c payloads),
        ∃ s, closePair tables x = .ok s) :
    ∃ out, exec (emitPayload tables) prevs payloads = .ok out := by
  induction payloads generalizing prevs with
  | nil => exact ⟨([], prevs), rfl⟩
  | cons p payloads ih =>
      obtain ⟨hp, hrest⟩ := List.forall_mem_cons.mp hlt
      -- it is enough to take one step and to go on from where it leads
      have hstep : ∀ events next, emitPayload tables prevs p = .ok (events, next) →
          (∃ out, exec (emitPayload tables) next payloads = .ok out) →
            ∃ out, exec (emitPayload tables) prevs (p :: payloads) = .ok out := by
        rintro events next hfirst ⟨⟨rest, last⟩, hout⟩
        exact ⟨(events :: rest, last),
          exec_cons_ok_iff.mpr ⟨events, next, rest, hfirst, hout, rfl⟩⟩
      cases hflow : p.isFlow with
      | true =>
          apply hstep _ prevs (emitPayload_ok_iff.mpr ⟨hp, .inl ⟨hflow, rfl, rfl⟩⟩)
          apply ih hrest
          intro c hc
          rw [← channelEvents_cons_of_flow hflow]
          exact hclose c hc
      | false =>
          have hself := hclose _ hp
          rw [channelEvents_cons_self hflow, openPairs_cons_cons_eq] at hself
          obtain ⟨slices, hslices⟩ := exists_mapM_ok_iff.mpr fun x hx =>
            hself x (List.mem_append_left _ hx)
          apply hstep _ _ (emitPayload_ok_iff.mpr
            ⟨hp, .inr ⟨hflow, rfl, slices, hslices, rfl⟩⟩)
          apply ih hrest
          intro c hc
          rw [Vector.getElem_set]
          split
          next hch =>
            subst hch
            exact fun x hx => hself x (List.mem_append_right _ hx)
          next hch =>
            rw [← channelEvents_cons_of_ne hch]
            exact hclose c hc

/-! ## The loop of one proc -/

theorem emit_slices_beyond (htracks : Tracks prevs)
    (hrun : exec (emitPayload tables) prevs payloads = .ok (obs, prevs'))
    {c : Nat} (hc : tables.numChannels.toNat ≤ c) :
    slicesOf tables.pid (c + 1) obs.flatten = [] := by
  rw [slicesOf, List.filter_eq_nil_iff]
  intro s hs
  obtain ⟨-, d, hd, htid⟩ := emit_onTrack htracks hrun _ (mem_filterMap_slice?.mp hs)
  have hne : s.tid ≠ c + 1 := by omega
  simp [hne]

theorem emitPayloads_slices (hrun : emitPayloads tables payloads = .ok (obs, prevs'))
    (c : Nat) :
    (intervals c payloads).mapM (closePair tables) =
      .ok (slicesOf tables.pid (c + 1) obs.flatten) := by
  by_cases hc : c < tables.numChannels.toNat
  · have hslices := emit_slices tracks_initial hrun hc
    rwa [openPairs_cons_of_isReset (by simp [initialPrevPayloads, Payload.isReset])] at hslices
  · have hempty : channelEvents c payloads = [] := by
      rw [channelEvents, List.filter_eq_nil_iff]
      intro p hp
      have hlt := emit_channel_lt hrun p hp
      simp only [onChannel, Bool.and_eq_true, decide_eq_true_eq, not_and]
      omega
    rw [emit_slices_beyond tracks_initial hrun (Nat.le_of_not_lt hc), intervals, hempty]
    rfl

/-- The loop succeeds exactly when every channel is in bounds and every interval
closes. -/
theorem exists_emitPayloads_ok_iff :
    (∃ out, emitPayloads tables payloads = .ok out) ↔
      (∀ p ∈ payloads, p.channelId.toNat < tables.numChannels.toNat) ∧
        ∀ c, ∀ x ∈ intervals c payloads, ∃ s, closePair tables x = .ok s := by
  constructor
  · rintro ⟨⟨obs, prevs⟩, hrun⟩
    have hlt := emit_channel_lt hrun
    refine ⟨hlt, ?_⟩
    rintro c ⟨a, b⟩ hx
    exact exists_mapM_ok_iff.mp ⟨_, emitPayloads_slices hrun c⟩ _ hx
  · rintro ⟨hlt, hclose⟩
    apply emit_ok hlt
    intro c hc
    rw [openPairs_cons_of_isReset (by simp [initialPrevPayloads, Payload.isReset])]
    exact hclose c

theorem emitPayload_error {p : Payload} {e : Failure}
    (h : emitPayload tables prevs p = .error e) :
    (tables.numChannels.toNat ≤ p.channelId.toNat ∧
        e = .channelOutOfBounds p.channelId) ∨
      (p.channelId.toNat < tables.numChannels.toNat ∧
        ∃ a, closePair tables (a, p) = .error e) := by
  unfold emitPayload at h
  split at h
  next hlt =>
    split at h
    · cases h
    · simp only at h
      split at h
      · cases h
      · split at h
        next e' hclose =>
          obtain rfl : e' = e := Except.error.inj h
          exact .inr ⟨hlt, _, hclose⟩
        · cases h
  next hge =>
    exact .inl ⟨Nat.le_of_not_lt hge, (Except.error.inj h).symm⟩

/-! ## The round of a proc and the whole file -/

/-- What a proc contributes to the file. -/
structure ProcExport (q : HeapTop) (proc : ProcData) (file : PerfettoFile)
    (tables : PerfettoTables) : Prop where
  tables_of : perfettoTables proc = .ok tables
  channel_lt : ∀ p ∈ mergedPayloads q proc.btsFiles,
    p.channelId.toNat < tables.numChannels.toNat
  slices : ∀ c, (intervals c (mergedPayloads q proc.btsFiles)).mapM (closePair tables) =
    .ok (slicesOf tables.pid (c + 1) file.traceEvents)
  flows : ∀ c, flowsOf tables.pid (c + 1) file.traceEvents =
    (channelFlows c (mergedPayloads q proc.btsFiles)).map (flowEvent tables)
  own_track : ∀ pid tid, pid ≠ tables.pid ∨ tid = 0 →
    slicesOf pid tid file.traceEvents = [] ∧ flowsOf pid tid file.traceEvents = []

theorem mapM_getString (names : List String) :
    (names.map Json.string).mapM getString = .ok names := by
  have h := @mapM_eq_ok_map Json String Failure getString
    (fun j => (j.asString?).getD "") (names.map Json.string) (by
      intro j hj
      obtain ⟨name, -, rfl⟩ := List.mem_map.mp hj
      rfl)
  rw [h, List.map_map]
  congr 1
  exact List.map_id names

theorem metadataEvents_ok_iff {p : Nat} {events : List TraceEvent} :
    metadataEvents tables p = .ok events ↔ ∃ names,
      (List.range tables.numChannels.toNat).mapM (perfettoChannelName tables.channelsJson) =
          .ok names ∧
        events = .processName tables.pid s!"TraCR proc.{tables.pid}" ::
          .processSortIndex tables.pid p ::
            ((List.range tables.numChannels.toNat).zip names).map fun x =>
              .threadName tables.pid (x.1 + 1) x.2 := by
  simp only [metadataEvents, bind_ok_iff, pure_ok_iff, mapM_shape_ok_iff]
  constructor
  · rintro ⟨_, ⟨names, hnames, rfl⟩, rfl⟩
    exact ⟨names, hnames, rfl⟩
  · rintro ⟨names, hnames, rfl⟩
    exact ⟨_, ⟨names, hnames, rfl⟩, rfl⟩

theorem exists_metadataEvents_of_names {metadata : Json}
    (hnum : perfettoNumChannels metadata = .ok tables.numChannels)
    (hjson : tables.channelsJson = metadata.field? "channel_names")
    (hnames : ∀ j, metadata.field? "channel_names" = some j →
      ∃ names : List String, j = .array (names.map .string)) (p : Nat) :
    ∃ events, metadataEvents tables p = .ok events := by
  have hname : ∀ i ∈ List.range tables.numChannels.toNat,
      ∃ name, perfettoChannelName tables.channelsJson i = .ok name := by
    intro i hi
    rw [List.mem_range] at hi
    rw [hjson]
    cases hchannels : metadata.field? "channel_names" with
    | none => exact ⟨_, rfl⟩
    | some j =>
        obtain ⟨names, rfl⟩ := hnames j hchannels
        unfold perfettoNumChannels at hnum
        rw [hchannels] at hnum
        have hsize : tables.numChannels.toNat ≤ names.length := by
          rw [← Except.ok.inj hnum, castUInt32_toNat, Json.size, List.length_map]
          omega
        have hlt : i < names.length := by omega
        exact ⟨names[i], by simp [perfettoChannelName, hlt, getString, Json.asString?]⟩
  obtain ⟨shown, hshown⟩ := exists_mapM_ok_iff.mpr hname
  exact ⟨_, metadataEvents_ok_iff.mpr ⟨shown, hshown, rfl⟩⟩

theorem metadataEvents_silent {p : Nat} {metadata : List TraceEvent}
    (h : metadataEvents tables p = .ok metadata) :
    metadata.filterMap TraceEvent.slice? = [] ∧
      metadata.filterMap TraceEvent.flow? = [] := by
  obtain ⟨names, -, rfl⟩ := metadataEvents_ok_iff.mp h
  simp only [List.filterMap_cons, List.filterMap_map, TraceEvent.slice?, TraceEvent.flow?]
  constructor
  · exact List.filterMap_eq_nil_iff.mpr fun _ _ => rfl
  · exact List.filterMap_eq_nil_iff.mpr fun _ _ => rfl

theorem emit_own_track (htracks : Tracks prevs)
    (hrun : exec (emitPayload tables) prevs payloads = .ok (obs, prevs')) :
    (∀ s ∈ obs.flatten.filterMap TraceEvent.slice?, s.pid = tables.pid ∧ s.tid ≠ 0) ∧
      ∀ f ∈ obs.flatten.filterMap TraceEvent.flow?, f.pid = tables.pid ∧ f.tid ≠ 0 := by
  constructor
  · intro s hs
    obtain ⟨hpid, c, -, htid⟩ := emit_onTrack htracks hrun _ (mem_filterMap_slice?.mp hs)
    exact ⟨hpid, by omega⟩
  · intro f hf
    obtain ⟨p, -, -, rfl⟩ := emit_onTrack htracks hrun _ (mem_filterMap_flow?.mp hf)
    exact ⟨rfl, Nat.succ_ne_zero _⟩

theorem perfettoProc_ok_iff {q : HeapTop} {proc : ProcData} {p : Nat}
    {file : PerfettoFile} :
    perfettoProc q proc p = .ok file ↔
      ∃ tables, perfettoTables proc = .ok tables ∧
        ∃ metadata, metadataEvents tables p = .ok metadata ∧
          ∃ out, emitPayloads tables (mergedPayloads q proc.btsFiles) = .ok out ∧
            { traceEvents := metadata ++ out.1.flatten
              warnings := validateLastEvents proc.btsFiles proc.btsTids } = file := by
  simp only [perfettoProc, bind_ok_iff, pure_ok_iff]

theorem exists_perfettoProc_iff {q : HeapTop} {proc : ProcData} {p : Nat} :
    (∃ file, perfettoProc q proc p = .ok file) ↔
      ∃ tables, perfettoTables proc = .ok tables ∧
        (∃ metadata, metadataEvents tables p = .ok metadata) ∧
          (∀ x ∈ mergedPayloads q proc.btsFiles,
            x.channelId.toNat < tables.numChannels.toNat) ∧
          ∀ c, ∀ x ∈ intervals c (mergedPayloads q proc.btsFiles),
            ∃ s, closePair tables x = .ok s := by
  simp only [perfettoProc_ok_iff, ← exists_emitPayloads_ok_iff]
  constructor
  · rintro ⟨_, tables, htables, metadata, hmetadata, out, hout, rfl⟩
    exact ⟨tables, htables, ⟨metadata, hmetadata⟩, out, hout⟩
  · rintro ⟨tables, htables, ⟨metadata, hmetadata⟩, out, hout⟩
    exact ⟨_, tables, htables, metadata, hmetadata, out, hout, rfl⟩

def Closable (tables : PerfettoTables) (p : Payload) : Prop :=
  ∃ s, closePair tables (p, p) = .ok s

theorem Closable.exists_closePair {p : Payload} (h : Closable tables p) (p' : Payload) :
    ∃ s, closePair tables (p, p') = .ok s := by
  obtain ⟨s, hs⟩ := h
  have hshows := closePair_ok_iff.mp hs
  exact ⟨{ s with dur := p'.timestamp - p.timestamp }, closePair_ok_iff.mpr
    { hshows with dur := rfl }⟩

theorem exists_perfettoProc_of_closable {q : HeapTop} {proc : ProcData} {p : Nat}
    (htables : perfettoTables proc = .ok tables) {metadata : List TraceEvent}
    (hmetadata : metadataEvents tables p = .ok metadata)
    (hchannel : ∀ traces ∈ proc.btsFiles, ∀ a ∈ traces,
      a.channelId.toNat < tables.numChannels.toNat)
    (hclose : ∀ traces ∈ proc.btsFiles, ∀ a ∈ traces, a.isSet = true → Closable tables a) :
    ∃ file, perfettoProc q proc p = .ok file := by
  refine exists_perfettoProc_iff.mpr ⟨tables, htables, ⟨metadata, hmetadata⟩, ?_, ?_⟩
  · intro a ha
    obtain ⟨traces, htraces, hmem⟩ := mem_mergedPayloads.mp ha
    exact hchannel traces htraces a hmem
  · rintro c ⟨a, b⟩ hx
    have ha := (mem_channelEvents.mp (mem_intervals hx).1).1
    obtain ⟨traces, htraces, hmem⟩ := mem_mergedPayloads.mp ha
    exact (hclose traces htraces a hmem (isSet_of_mem_intervals hx)).exists_closePair b

theorem perfettoProc_ok {q : HeapTop} {proc : ProcData} {p : Nat} {file : PerfettoFile}
    (h : perfettoProc q proc p = .ok file) : ∃ tables, ProcExport q proc file tables := by
  obtain ⟨tables, htables, metadata, hmetadata, ⟨obs, prevs⟩, hrun, rfl⟩ :=
    perfettoProc_ok_iff.mp h
  obtain ⟨hslice, hflow⟩ := metadataEvents_silent hmetadata
  obtain ⟨hslices, hflows⟩ := emit_own_track tracks_initial hrun
  refine ⟨tables, htables, emit_channel_lt hrun, ?_, ?_, ?_⟩
  · intro c
    rw [emitPayloads_slices hrun, slicesOf_append, slicesOf, slicesOf, hslice]
    rfl
  · intro c
    rw [flowsOf_append, emit_flows hrun, flowsOf, hflow]
    rfl
  · intro pid tid hother
    rw [slicesOf_append, flowsOf_append, slicesOf, slicesOf, flowsOf, flowsOf, hslice, hflow]
    constructor
    · simp only [List.filter_nil, List.nil_append, List.filter_eq_nil_iff,
        decide_eq_true_eq]
      rintro s hs ⟨rfl, rfl⟩
      have htrack := hslices s hs
      rcases hother with hpid | htid
      · exact hpid htrack.1
      · exact htrack.2 htid
    · simp only [List.filter_nil, List.nil_append, List.filter_eq_nil_iff,
        decide_eq_true_eq]
      rintro f hf ⟨rfl, rfl⟩
      have htrack := hflows f hf
      rcases hother with hpid | htid
      · exact hpid htrack.1
      · exact htrack.2 htid

/-- The slices of a proc are those of its intervals. -/
theorem perfettoProc_slices {q : HeapTop} {proc : ProcData} {p : Nat} {file : PerfettoFile}
    (h : perfettoProc q proc p = .ok file) :
    ∃ tables, perfettoTables proc = .ok tables ∧
      ∀ c, (intervals c (mergedPayloads q proc.btsFiles)).mapM (closePair tables) =
        .ok (slicesOf (perfettoPid proc.pid) (c + 1) file.traceEvents) := by
  obtain ⟨tables, hexport⟩ := perfettoProc_ok h
  obtain ⟨-, -, hpid, -⟩ := perfettoTables_ok_iff.mp hexport.tables_of
  refine ⟨tables, hexport.tables_of, fun c => ?_⟩
  rw [← hpid]
  exact hexport.slices c

theorem perfetto_ok {q : HeapTop} {out : OutputFolder} {procs : List ProcData}
    {file : PerfettoFile} (h : perfetto q out procs = .ok file) :
    ∃ files, procs.zipIdx.mapM (fun x => perfettoProc q x.1 x.2) = .ok files ∧
      file.traceEvents = files.flatMap PerfettoFile.traceEvents := by
  unfold perfetto at h
  split at h
  · cases h
  · obtain ⟨files, hfiles, heq⟩ := bind_ok_iff.mp h
    exact ⟨files, hfiles, by rw [← pure_ok_iff.mp heq]⟩

theorem slicesOf_flatMap (pid : Int) (tid : Nat) (files : List PerfettoFile) :
    slicesOf pid tid (files.flatMap PerfettoFile.traceEvents) =
      files.flatMap fun file => slicesOf pid tid file.traceEvents := by
  induction files with
  | nil => rfl
  | cons file files ih => rw [List.flatMap_cons, slicesOf_append, ih, List.flatMap_cons]

theorem flowsOf_flatMap (pid : Int) (tid : Nat) (files : List PerfettoFile) :
    flowsOf pid tid (files.flatMap PerfettoFile.traceEvents) =
      files.flatMap fun file => flowsOf pid tid file.traceEvents := by
  induction files with
  | nil => rfl
  | cons file files ih => rw [List.flatMap_cons, flowsOf_append, ih, List.flatMap_cons]

end TraCR
