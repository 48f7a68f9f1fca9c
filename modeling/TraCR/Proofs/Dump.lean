import TraCR.Lib.Traversal
import TraCR.Postprocess.Channel
import TraCR.Postprocess.Dump
import TraCR.Proofs.Merger

/-!
# What the dump reports

The three tables of the loop summarize the payloads read so far: a signed count and a
set of extra ids per channel, and a histogram.  None of them depends on the order in
which the merge yields the payloads.
-/

namespace TraCR

open TraCR.Lib TraCR.Lib.Run TraCR.Lib.SortedList TraCR.Lib.Tally TraCR.Lib.Traversal

def ifSeen {α β : Type} (f : List α → β) (l : List α) : Option β :=
  if l = [] then none else some (f l)

section IfSeen

variable {α β : Type} {f : List α → β} {l : List α}

theorem getD_ifSeen {v : β} (hnil : f [] = v) : (ifSeen f l).getD v = f l := by
  unfold ifSeen
  split
  next h =>
    rw [h, hnil]
    rfl
  · rfl

theorem ifSeen_eq_some_iff {v : β} : ifSeen f l = some v ↔ l ≠ [] ∧ f l = v := by
  unfold ifSeen
  split
  next h =>
    simp [h]
  next h =>
    simp [h]

theorem ifSeen_append_singleton (a : α) : ifSeen f (l ++ [a]) = some (f (l ++ [a])) :=
  ifSeen_eq_some_iff.mpr ⟨by simp, rfl⟩

end IfSeen

/-! ## The summaries -/

/-- Payloads that are no resets less those that are. -/
def balance (events : List Payload) : Int :=
  (events.countP fun p => !p.isReset : Int) - (events.countP Payload.isReset : Int)

/-- The extra ids left after taking each one in and out in turn. -/
def leftExtraIds (events : List Payload) : Finset UInt32 :=
  (events.map Payload.extraId).foldl toggle ∅

def countUInt64 (payloads : List Payload) : UInt64 := .ofNat payloads.length

theorem getD_balance (events : List Payload) : (ifSeen balance events).getD 0 = balance events :=
  getD_ifSeen rfl

theorem getD_leftExtraIds (events : List Payload) :
    (ifSeen leftExtraIds events).getD ∅ = leftExtraIds events :=
  getD_ifSeen rfl

theorem getD_countUInt64 (payloads : List Payload) :
    (ifSeen countUInt64 payloads).getD 0 = countUInt64 payloads :=
  getD_ifSeen rfl

theorem balance_append_singleton (events : List Payload) (p : Payload) :
    balance (events ++ [p]) = if p.isReset then balance events - 1 else balance events + 1 := by
  unfold balance
  cases hreset : p.isReset <;> simp [List.countP_append, hreset] <;> omega

theorem leftExtraIds_append_singleton (events : List Payload) (p : Payload) :
    leftExtraIds (events ++ [p]) = toggle (leftExtraIds events) p.extraId := by
  simp [leftExtraIds]

theorem countUInt64_append_singleton (payloads : List Payload) (p : Payload) :
    countUInt64 (payloads ++ [p]) = countUInt64 payloads + 1 := by
  simp [countUInt64]

theorem channelEvents_append_singleton (c : Nat) (payloads : List Payload) (p : Payload) :
    channelEvents c (payloads ++ [p]) =
      channelEvents c payloads ++ if onChannel c p then [p] else [] := by
  unfold channelEvents
  cases h : onChannel c p <;> simp [h]

structure DumpState.Summarizes (st : DumpState) (payloads : List Payload) : Prop where
  channelIds : ∀ c, st.channelIdsCheck.lookup c =
    ifSeen balance (channelEvents c.toNat payloads)
  extraIds : ∀ c, st.extraIdsCheck.lookup c =
    ifSeen leftExtraIds (channelEvents c.toNat payloads)
  counts : ∀ e, st.eventCounts.lookup e =
    ifSeen countUInt64 (payloads.filter fun p => p.eventId = e)

theorem summarizes_nil : DumpState.Summarizes ⟨∅, ∅, ∅⟩ [] where
  channelIds _ := rfl
  extraIds _ := rfl
  counts _ := rfl

variable {btsTids : List Int} {st st' : DumpState} {payloads : List Payload}

theorem lookup_insert_ifSeen {κ β : Type} [DecidableEq κ] {t : Table κ β}
    {f : List Payload → β} (g : κ → List Payload → List Payload) {k : κ} {v : β} {p : Payload}
    (ht : ∀ k', t.lookup k' = ifSeen f (g k' payloads))
    (hself : g k (payloads ++ [p]) = g k payloads ++ [p])
    (hother : ∀ k', k' ≠ k → g k' (payloads ++ [p]) = g k' payloads)
    (hv : v = f (g k payloads ++ [p])) (k' : κ) :
    (t.insert k v).lookup k' = ifSeen f (g k' (payloads ++ [p])) := by
  by_cases hkey : k' = k
  · subst hkey
    rw [AList.lookup_insert, hself, ifSeen_append_singleton, hv]
  · rw [AList.lookup_insert_ne hkey, hother k' hkey, ht]

theorem DumpState.Summarizes.counts_insert (h : st.Summarizes payloads) (p : Payload)
    (e : UInt16) :
    (st.eventCounts.insert p.eventId ((st.eventCounts.lookup p.eventId).getD 0 + 1)).lookup e =
      ifSeen countUInt64 ((payloads ++ [p]).filter fun p => p.eventId = e) := by
  apply lookup_insert_ifSeen (fun e l => l.filter fun p => p.eventId = e) h.counts
  · simp
  · intro e he
    simp [Ne.symm he]
  · rw [h.counts, getD_countUInt64, countUInt64_append_singleton]

theorem lookup_insert_channelEvents {β : Type} {t : Table UInt16 β} {f : List Payload → β}
    {v : β} {p : Payload} (ht : ∀ c, t.lookup c = ifSeen f (channelEvents c.toNat payloads))
    (hflow : p.isFlow = false) (hv : v = f (channelEvents p.channelId.toNat payloads ++ [p]))
    (c : UInt16) :
    (t.insert p.channelId v).lookup c =
      ifSeen f (channelEvents c.toNat (payloads ++ [p])) := by
  apply lookup_insert_ifSeen (fun (c : UInt16) l => channelEvents c.toNat l) ht _ _ hv
  · simp [channelEvents_append_singleton, onChannel, hflow]
  · intro c hc
    have hne : p.channelId.toNat ≠ c.toNat := fun heq => hc (UInt16.toNat_inj.mp heq.symm)
    simp [channelEvents_append_singleton, onChannel, hne]

theorem channelEvents_append_of_isFlow {p : Payload} (hflow : p.isFlow = true) (c : Nat) :
    channelEvents c (payloads ++ [p]) = channelEvents c payloads := by
  simp [channelEvents_append_singleton, onChannel, hflow]

def FitsInt32 (counter : Int) : Prop := -2 ^ 31 ≤ counter ∧ counter < 2 ^ 31

theorem countPayload_ok_iff {counter next : Int} {p : Payload} :
    countPayload counter p = .ok next ↔
      next = (if p.isReset then counter - 1 else counter + 1) ∧ FitsInt32 next := by
  unfold FitsInt32
  simp only [countPayload]
  generalize (if p.isReset then counter - 1 else counter + 1) = n
  split
  next hfits =>
    rw [Except.ok.injEq]
    constructor
    · rintro rfl
      exact ⟨rfl, hfits⟩
    · exact fun h => h.1.symm
  next hfits =>
    simp only [reduceCtorEq, false_iff, not_and]
    rintro rfl
    exact not_and.mp hfits

theorem dumpPayload_ok_iff {x : Payload × Nat} {line : DumpLine} :
    dumpPayload btsTids st x = .ok (line, st') ↔
      ∃ tid, btsTids[x.2]? = some tid ∧
        st'.eventCounts = st.eventCounts.insert x.1.eventId
          ((st.eventCounts.lookup x.1.eventId).getD 0 + 1) ∧
        ((x.1.isFlow = true ∧ st'.channelIdsCheck = st.channelIdsCheck ∧
            st'.extraIdsCheck = st.extraIdsCheck ∧
            line = .flow tid x.1.channelId (x.1.eventId = eventIdFlowStart) x.1.extraId
              x.1.timestamp) ∨
          (x.1.isFlow = false ∧ (∃ counter,
            countPayload ((st.channelIdsCheck.lookup x.1.channelId).getD 0) x.1 = .ok counter ∧
              st'.channelIdsCheck = st.channelIdsCheck.insert x.1.channelId counter) ∧
            st'.extraIdsCheck = st.extraIdsCheck.insert x.1.channelId
              (toggle ((st.extraIdsCheck.lookup x.1.channelId).getD ∅) x.1.extraId) ∧
            line = .event tid x.1.channelId x.1.eventId x.1.extraId x.1.timestamp)) := by
  obtain ⟨channelIds', extraIds', counts'⟩ := st'
  simp only [dumpPayload]
  cases htid : btsTids[x.2]? with
  | none => simp
  | some tid =>
      cases hflow : x.1.isFlow with
      | true =>
          simp only [if_true, Except.ok.injEq, Prod.mk.injEq, DumpState.mk.injEq,
            Option.some.injEq, exists_eq_left', true_and, Bool.true_eq_false, false_and,
            or_false]
          constructor
          · rintro ⟨rfl, rfl, rfl, rfl⟩
            exact ⟨rfl, rfl, rfl, rfl⟩
          · rintro ⟨rfl, rfl, rfl, rfl⟩
            exact ⟨rfl, rfl, rfl, rfl⟩
      | false =>
          simp only [Bool.false_eq_true, if_false, false_and, false_or, true_and,
            Option.some.injEq, exists_eq_left']
          cases hcounter : countPayload ((st.channelIdsCheck.lookup x.1.channelId).getD 0) x.1 with
          | error e => simp
          | ok counter =>
              simp only [Except.ok.injEq, Prod.mk.injEq, DumpState.mk.injEq, exists_eq_left']
              constructor
              · rintro ⟨rfl, rfl, rfl, rfl⟩
                exact ⟨rfl, rfl, rfl, rfl⟩
              · rintro ⟨rfl, rfl, rfl, rfl⟩
                exact ⟨rfl, rfl, rfl, rfl⟩

/-- One round adds its payload to the summaries. -/
theorem DumpState.Summarizes.dumpPayload (h : st.Summarizes payloads) {x : Payload × Nat}
    {line : DumpLine} (hstep : TraCR.dumpPayload btsTids st x = .ok (line, st')) :
    st'.Summarizes (payloads ++ [x.1]) := by
  obtain ⟨tid, -, hcounts, ⟨hflow, hchannels, hextra, -⟩ |
    ⟨hflow, ⟨counter, hcounter, hchannels⟩, hextra, -⟩⟩ := dumpPayload_ok_iff.mp hstep
  · refine ⟨?_, ?_, ?_⟩
    · intro c
      rw [hchannels, channelEvents_append_of_isFlow hflow, h.channelIds]
    · intro c
      rw [hextra, channelEvents_append_of_isFlow hflow, h.extraIds]
    · rw [hcounts]
      exact h.counts_insert x.1
  · obtain ⟨rfl, -⟩ := countPayload_ok_iff.mp hcounter
    refine ⟨?_, ?_, ?_⟩
    · rw [hchannels]
      apply lookup_insert_channelEvents h.channelIds hflow
      rw [balance_append_singleton, h.channelIds, getD_balance]
    · rw [hextra]
      apply lookup_insert_channelEvents h.extraIds hflow
      rw [leftExtraIds_append_singleton, h.extraIds, getD_leftExtraIds]
    · rw [hcounts]
      exact h.counts_insert x.1

theorem DumpState.Summarizes.exists_dumpPayload (h : st.Summarizes payloads)
    {x : Payload × Nat} (htid : x.2 < btsTids.length)
    (hfits : FitsInt32 (balance (channelEvents x.1.channelId.toNat (payloads ++ [x.1])))) :
    ∃ r, TraCR.dumpPayload btsTids st x = .ok r := by
  have htid' : btsTids[x.2]? = some btsTids[x.2] := List.getElem?_eq_getElem htid
  cases hflow : x.1.isFlow with
  | true => simp [TraCR.dumpPayload, htid', hflow]
  | false =>
      rw [channelEvents_append_singleton, if_pos (by simp [onChannel, hflow]),
        balance_append_singleton, ← getD_balance, ← h.channelIds] at hfits
      have hcounter := countPayload_ok_iff.mpr ⟨rfl, hfits⟩
      simp [TraCR.dumpPayload, htid', hflow, hcounter]

/-! ## The loop -/

def dumpLoop (btsTids : List Int) (stream : List (Payload × Nat)) :
    Except DumpFailure (List DumpLine × DumpState) :=
  exec (TraCR.dumpPayload btsTids) ⟨∅, ∅, ∅⟩ stream

variable {stream : List (Payload × Nat)}

theorem dumpLoop_summarizes {lines : List DumpLine}
    (h : dumpLoop btsTids stream = .ok (lines, st)) : st.Summarizes (stream.map Prod.fst) := by
  have hinputs := exec_inputs (I := fun st l => DumpState.Summarizes st (l.map Prod.fst))
    (P := fun _ _ => True) (h := []) (by
      intro st l x line st' hst _ hstep
      rw [List.map_append]
      exact hst.dumpPayload hstep)
    summarizes_nil (along_of_forall (Q := fun _ => True) fun _ _ => trivial) h
  simpa using hinputs

theorem exists_dumpLoop (htids : ∀ x ∈ stream, x.2 < btsTids.length)
    (hfits : ∀ pre, pre <+: stream.map Prod.fst → ∀ c : UInt16,
      FitsInt32 (balance (channelEvents c.toNat pre))) :
    ∃ out, dumpLoop btsTids stream = .ok out := by
  cases hrun : dumpLoop btsTids stream with
  | ok out => exact ⟨out, rfl⟩
  | error e =>
      obtain ⟨pre, x, post, lines, st, rfl, hpre, herror⟩ := exec_error_iff.mp hrun
      have hprefix : pre.map Prod.fst ++ [x.1] <+: (pre ++ x :: post).map Prod.fst :=
        ⟨post.map Prod.fst, by simp⟩
      obtain ⟨r, hr⟩ := (dumpLoop_summarizes hpre).exists_dumpPayload
        (htids x (by simp)) (hfits _ hprefix x.1.channelId)
      rw [hr] at herror
      cases herror

theorem snd_lt_of_mem_mergedStream {q : HeapTop} {files : List (List Payload)}
    {x : Payload × Nat} (h : x ∈ mergedStream q files) : x.2 < files.length := by
  have hmem := (mergedStream_interleaves q files).mem_iff.mp h
  by_contra hge
  rw [Interleaving.nthSource_of_le (Nat.le_of_not_lt hge)] at hmem
  cases hmem

/-! ## The three listings -/

variable {ch : DumpChoices}

theorem mem_iterate {α : Type} {t : Table UInt16 α} {k : UInt16} {v : α}
    (h : t.lookup k = some v) : k ∈ ch.iterate t := by
  rw [(ch.iterate_perm t).mem_iff]
  exact AList.lookup_isSome.mp (by rw [h]; rfl)

theorem nodup_iterate_keys {α : Type} (ch : DumpChoices) (t : Table UInt16 α) :
    (ch.iterate t).Nodup :=
  (ch.iterate_perm t).nodup_iff.mpr t.keys_nodup

theorem mem_unbalancedChannels {check : Table UInt16 Int} {c : UInt16} {value : Int} :
    (c, value) ∈ unbalancedChannels ch check ↔ check.lookup c = some value ∧ value ≠ 0 := by
  rw [unbalancedChannels, List.mem_filterMap]
  constructor
  · rintro ⟨k, -, hk⟩
    split at hk
    · cases hk
    next v hlookup =>
      split at hk
      next hne =>
        obtain ⟨rfl, rfl⟩ := Prod.mk.inj (Option.some.inj hk)
        exact ⟨hlookup, hne⟩
      · cases hk
  · rintro ⟨hlookup, hne⟩
    exact ⟨c, mem_iterate hlookup, by simp [hlookup, hne]⟩

theorem mem_unbalancedExtraIds {check : Table UInt16 (Finset UInt32)} {c : UInt16}
    {ids : List UInt32} :
    (c, ids) ∈ unbalancedExtraIds ch check ↔
      ∃ innerSet, check.lookup c = some innerSet ∧ innerSet ≠ ∅ ∧
        ids = ch.iterateSet innerSet := by
  rw [unbalancedExtraIds, List.mem_filterMap]
  constructor
  · rintro ⟨k, -, hk⟩
    split at hk
    · cases hk
    next innerSet hlookup =>
      split at hk
      next hcard =>
        obtain ⟨rfl, rfl⟩ := Prod.mk.inj (Option.some.inj hk)
        exact ⟨innerSet, hlookup, Finset.nonempty_iff_ne_empty.mp (Finset.card_pos.mp hcard),
          rfl⟩
      · cases hk
  · rintro ⟨innerSet, hlookup, hne, rfl⟩
    have hcard : 0 < innerSet.card := Finset.card_pos.mpr (Finset.nonempty_iff_ne_empty.mpr hne)
    exact ⟨c, mem_iterate hlookup, by simp [hlookup, hcard]⟩

theorem mem_eventHistogram {eventCounts : Table UInt16 UInt64} {e : UInt16} {n : UInt64} :
    (e, n) ∈ eventHistogram eventCounts ↔ eventCounts.lookup e = some n := by
  rw [eventHistogram, List.mem_filterMap]
  constructor
  · rintro ⟨k, -, hk⟩
    obtain ⟨v, hlookup, hkv⟩ := Option.map_eq_some_iff.mp hk
    obtain ⟨rfl, rfl⟩ := Prod.mk.inj hkv
    exact hlookup
  · intro hlookup
    refine ⟨e, ?_, by rw [hlookup]; rfl⟩
    rw [mem_stableSort]
    exact AList.lookup_isSome.mp (by rw [hlookup]; rfl)

theorem mem_iterateSet {s : Finset UInt32} {x : UInt32} : x ∈ ch.iterateSet s ↔ x ∈ s := by
  rw [(ch.iterateSet_perm s).mem_iff, Finset.mem_sort]

theorem nodup_iterateSet (s : Finset UInt32) : (ch.iterateSet s).Nodup :=
  (ch.iterateSet_perm s).nodup_iff.mpr (s.sort_nodup _)

/-! ## Counts over the files -/

theorem balance_channelEvents (c : Nat) (payloads : List Payload) :
    balance (channelEvents c payloads) =
      (payloads.countP fun p => onChannel c p && !p.isReset : Int) -
        (payloads.countP fun p => onChannel c p && p.isReset : Int) := by
  simp only [balance, channelEvents, List.countP_filter, Bool.and_comm]

theorem mem_leftExtraIds_channelEvents {c : Nat} {payloads : List Payload} {x : UInt32} :
    x ∈ leftExtraIds (channelEvents c payloads) ↔
      Odd (payloads.countP fun p => onChannel c p && p.extraId = x) := by
  rw [leftExtraIds, mem_foldl_toggle, List.count_eq_countP, List.countP_map, channelEvents,
    List.countP_filter]
  have hcount : payloads.countP (fun p => ((· == x) ∘ Payload.extraId) p && onChannel c p) =
      payloads.countP fun p => onChannel c p && p.extraId = x := by
    apply List.countP_congr
    intro p _
    simp [and_comm]
  rw [hcount]

structure DumpExact (proc : ProcData) (report : DumpReport) : Prop where
  eventCounts : ∀ e n, (e, n) ∈ report.eventCounts ↔
    0 < n.toNat ∧ n.toNat = proc.btsFiles.flatten.countP fun p => p.eventId = e
  eventIds_nodup : (report.eventCounts.map Prod.fst).Nodup
  total : (report.eventCounts.map fun x => x.2.toNat).sum = proc.btsFiles.flatten.length
  channels : ∀ c d, (c, d) ∈ report.channels ↔
    d ≠ 0 ∧ d = (proc.btsFiles.flatten.countP fun p => onChannel c.toNat p && !p.isReset : Int) -
      (proc.btsFiles.flatten.countP fun p => onChannel c.toNat p && p.isReset : Int)
  channels_nodup : (report.channels.map Prod.fst).Nodup
  extraIds : ∀ c, (∃ ids, (c, ids) ∈ report.extraIds) ↔
    ∃ x, Odd (proc.btsFiles.flatten.countP fun p => onChannel c.toNat p && p.extraId = x)
  extraIds_mem : ∀ c ids, (c, ids) ∈ report.extraIds → ids.Nodup ∧ ∀ x, x ∈ ids ↔
    Odd (proc.btsFiles.flatten.countP fun p => onChannel c.toNat p && p.extraId = x)
  extraIds_nodup : (report.extraIds.map Prod.fst).Nodup

theorem unbalancedChannels_nodup (check : Table UInt16 Int) :
    ((unbalancedChannels ch check).map Prod.fst).Nodup := by
  apply nodup_map_fst_filterMap _ (nodup_iterate_keys ch check)
  intro k x hx
  split at hx
  · cases hx
  · split at hx
    · rw [← Option.some.inj hx]
    · cases hx

theorem unbalancedExtraIds_nodup (check : Table UInt16 (Finset UInt32)) :
    ((unbalancedExtraIds ch check).map Prod.fst).Nodup := by
  apply nodup_map_fst_filterMap _ (nodup_iterate_keys ch check)
  intro k x hx
  split at hx
  · cases hx
  · split at hx
    · rw [← Option.some.inj hx]
    · cases hx

theorem eventHistogram_nodup (eventCounts : Table UInt16 UInt64) :
    ((eventHistogram eventCounts).map Prod.fst).Nodup := by
  apply nodup_map_fst_filterMap
  · intro k x hx
    obtain ⟨v, -, rfl⟩ := Option.map_eq_some_iff.mp hx
    rfl
  · exact (stableSort_perm _).nodup_iff.mpr eventCounts.keys_nodup

namespace DumpState.Summarizes

variable (h : st.Summarizes payloads)

include h

theorem mem_channels {c : UInt16} {d : Int} :
    (c, d) ∈ unbalancedChannels ch st.channelIdsCheck ↔
      d ≠ 0 ∧ d = balance (channelEvents c.toNat payloads) := by
  rw [mem_unbalancedChannels, h.channelIds, ifSeen_eq_some_iff]
  constructor
  · rintro ⟨⟨-, rfl⟩, hne⟩
    exact ⟨hne, rfl⟩
  · rintro ⟨hne, rfl⟩
    refine ⟨⟨?_, rfl⟩, hne⟩
    intro hnil
    exact hne (by rw [hnil]; rfl)

theorem mem_extraIds {c : UInt16} {ids : List UInt32} :
    (c, ids) ∈ unbalancedExtraIds ch st.extraIdsCheck ↔
      leftExtraIds (channelEvents c.toNat payloads) ≠ ∅ ∧
        ids = ch.iterateSet (leftExtraIds (channelEvents c.toNat payloads)) := by
  rw [mem_unbalancedExtraIds, h.extraIds]
  simp only [ifSeen_eq_some_iff]
  constructor
  · rintro ⟨_, ⟨-, rfl⟩, hne, rfl⟩
    exact ⟨hne, rfl⟩
  · rintro ⟨hne, rfl⟩
    refine ⟨_, ⟨?_, rfl⟩, hne, rfl⟩
    intro hnil
    exact hne (by rw [hnil]; rfl)

theorem mem_eventCounts (hsize : payloads.length < 2 ^ 64) {e : UInt16} {n : UInt64} :
    (e, n) ∈ eventHistogram st.eventCounts ↔
      0 < n.toNat ∧ n.toNat = payloads.countP fun p => p.eventId = e := by
  have hle := List.length_filter_le (fun p : Payload => p.eventId = e) payloads
  have hcount : (countUInt64 (payloads.filter fun p => p.eventId = e)).toNat =
      payloads.countP fun p => p.eventId = e := by
    rw [countUInt64, UInt64.toNat_ofNat_of_lt' (hle.trans_lt hsize), List.countP_eq_length_filter]
  rw [mem_eventHistogram, h.counts, ifSeen_eq_some_iff, ← List.length_pos_iff,
    ← List.countP_eq_length_filter, ← hcount]
  constructor
  · rintro ⟨hpos, rfl⟩
    exact ⟨hpos, rfl⟩
  · rintro ⟨hpos, heq⟩
    exact ⟨heq ▸ hpos, UInt64.toNat_inj.mp heq.symm⟩

theorem sum_eventCounts (hsize : payloads.length < 2 ^ 64) :
    ((eventHistogram st.eventCounts).map fun x => x.2.toNat).sum = payloads.length := by
  have hcounts : (eventHistogram st.eventCounts).map (fun x => x.2.toNat) =
      ((eventHistogram st.eventCounts).map Prod.fst).map fun e =>
        (payloads.filter fun p => p.eventId = e).length := by
    rw [List.map_map]
    apply List.map_congr_left
    rintro ⟨e, n⟩ hmem
    rw [((h.mem_eventCounts hsize).mp hmem).2, List.countP_eq_length_filter]
    rfl
  rw [hcounts]
  apply sum_map_length_filter (eventHistogram_nodup _)
  intro p hp
  rw [List.mem_map]
  have hpos : (payloads.filter fun p' => p'.eventId = p.eventId) ≠ [] :=
    List.ne_nil_of_mem (List.mem_filter.mpr ⟨hp, by simp⟩)
  exact ⟨(p.eventId, _), mem_eventHistogram.mpr ((h.counts _).trans
    (ifSeen_eq_some_iff.mpr ⟨hpos, rfl⟩)), rfl⟩

end DumpState.Summarizes

/-- What `dump_info` prints for a proc of fewer than 2^31 payloads, whatever the order of
its files and the ties of the merge. -/
theorem dumpProc_exact (ch : DumpChoices) {proc : ProcData}
    (htids : proc.btsTids.length = proc.btsFiles.length)
    (hsize : proc.btsFiles.flatten.length < 2 ^ 31) :
    ∃ report, dumpProc ch proc = .ok report ∧ DumpExact proc report := by
  have hperm := mergedPayloads_perm ch.heapTop proc.btsFiles
  have hlength := hperm.length_eq
  have hcountP : ∀ f : Payload → Bool,
      (mergedPayloads ch.heapTop proc.btsFiles).countP f = proc.btsFiles.flatten.countP f :=
    fun f => hperm.countP_eq f
  have hfits : ∀ pre, pre <+: mergedPayloads ch.heapTop proc.btsFiles → ∀ c : UInt16,
      FitsInt32 (balance (channelEvents c.toNat pre)) := by
    intro pre hpre c
    have hpre := hpre.length_le
    have hevents := List.length_filter_le (onChannel c.toNat) pre
    have hsets := List.countP_le_length (p := fun p => !p.isReset)
      (l := channelEvents c.toNat pre)
    have hresets := List.countP_le_length (p := Payload.isReset) (l := channelEvents c.toNat pre)
    rw [channelEvents] at hsets hresets
    unfold FitsInt32 balance channelEvents
    omega
  have hindex : ∀ x ∈ mergedStream ch.heapTop proc.btsFiles, x.2 < proc.btsTids.length := by
    intro x hx
    rw [htids]
    exact snd_lt_of_mem_mergedStream hx
  obtain ⟨⟨lines, st⟩, hrun⟩ := exists_dumpLoop hindex hfits
  have hst := dumpLoop_summarizes hrun
  have hsize' : (mergedPayloads ch.heapTop proc.btsFiles).length < 2 ^ 64 := by omega
  refine ⟨_, bind_ok_iff.mpr ⟨_, hrun, rfl⟩, ?_, eventHistogram_nodup _, ?_, ?_,
    unbalancedChannels_nodup _, ?_, ?_, unbalancedExtraIds_nodup _⟩
  · intro e n
    rw [← hcountP]
    exact hst.mem_eventCounts hsize'
  · rw [← hlength]
    exact hst.sum_eventCounts hsize'
  · intro c d
    rw [← hcountP, ← hcountP, ← balance_channelEvents]
    exact hst.mem_channels
  · intro c
    simp only [← hcountP, ← mem_leftExtraIds_channelEvents]
    constructor
    · rintro ⟨ids, hmem⟩
      exact Finset.nonempty_iff_ne_empty.mpr (hst.mem_extraIds.mp hmem).1
    · intro hx
      exact ⟨_, hst.mem_extraIds.mpr ⟨Finset.nonempty_iff_ne_empty.mp hx, rfl⟩⟩
  · intro c ids hmem
    obtain ⟨-, rfl⟩ := hst.mem_extraIds.mp hmem
    refine ⟨nodup_iterateSet _, ?_⟩
    intro x
    rw [mem_iterateSet, ← hcountP]
    exact mem_leftExtraIds_channelEvents

def setAndReset (extraId : UInt32) : ProcData where
  pid := 7
  metadata := .object []
  btsFiles := [[⟨0, 0, extraId, 10⟩, ⟨0, eventIdReset, uint32Max, 20⟩]]
  btsTids := [7]
  syncStart := 10
  syncEnd := 20

theorem dumpProc_exact_setAndReset :
    ∃ report, dumpProc .first (setAndReset 5) = .ok report ∧ DumpExact (setAndReset 5) report :=
  dumpProc_exact .first rfl (by decide)

end TraCR
