import TraCR.Proofs.Paraver
import TraCR.Proofs.Perfetto

/-!
# The marker tables

Both exporters index a table of the metadata with the event id of a payload.
Nothing compares the two, so the read may fall outside the table.  With well-typed
metadata this is the only way a table is read out of range, and the theorem of
this file says for which payloads it happens.
-/

namespace TraCR

open TraCR.Lib TraCR.Lib.Traversal TraCR.Lib.Run

/-! ## Well-typed metadata -/

/-- The fields the exporters read have the types the library writes. -/
structure WellTyped (metadata : Json) : Prop where
  channelNames : ∀ j, metadata.field? "channel_names" = some j →
    ∃ names : List String, j = .array (names.map .string)
  numChannels : ∀ j, metadata.field? "num_channels" = some j → ∃ n, j = .number n
  markerLabels : ∀ j, metadata.field? "markerLabels" = some j →
    ∃ labels : List String, j = .array (labels.map .string)
  markerColorIds : ∀ j, metadata.field? "markerColorIds" = some j →
    ∃ ids : List Int, j = .array (ids.map .number)
  markerTypes : ∀ j, metadata.field? "markerTypes" = some j →
    ∃ types : List (String × String), j = .object (types.map fun x => (x.1, .string x.2))
  extraIdLabels : ∀ j, metadata.field? "extraIdLabels" = some j →
    ∃ labels : List (String × String),
      j = .object (labels.map fun x => (x.1, .string x.2))

theorem wellTyped_tables (ids : List Int) (labels : List String) :
    WellTyped (.object [("markerColorIds", .array (ids.map .number)),
      ("markerLabels", .array (labels.map .string))]) where
  channelNames := fun _ h => nomatch h
  numChannels := fun _ h => nomatch h
  markerLabels := fun _ h => ⟨labels, (Option.some.inj h).symm⟩
  markerColorIds := fun _ h => ⟨ids, (Option.some.inj h).symm⟩
  markerTypes := fun _ h => nomatch h
  extraIdLabels := fun _ h => nomatch h

private theorem lookup_map_string (labels : List (String × String)) (key : String) :
    (labels.map fun x => (x.1, Json.string x.2)).lookup key =
      (labels.lookup key).map Json.string := by
  induction labels with
  | nil => rfl
  | cons x labels ih =>
      rw [List.map_cons, List.lookup_cons, List.lookup_cons]
      split
      · rfl
      · exact ih

section WellTyped

variable {metadata : Json} (h : WellTyped metadata)
include h

theorem WellTyped.exists_numChannels : ∃ n, perfettoNumChannels metadata = .ok n := by
  unfold perfettoNumChannels
  cases hnames : metadata.field? "channel_names" with
  | some channels => exact ⟨_, rfl⟩
  | none =>
      cases hcount : metadata.field? "num_channels" with
      | none => exact ⟨_, rfl⟩
      | some j =>
          obtain ⟨n, rfl⟩ := h.numChannels j hcount
          exact ⟨_, rfl⟩

theorem WellTyped.exists_markerLabels :
    ∃ labels, perfettoMarkerLabels metadata = .ok labels := by
  unfold perfettoMarkerLabels
  cases hlabels : metadata.field? "markerLabels" with
  | some j =>
      obtain ⟨labels, rfl⟩ := h.markerLabels j hlabels
      exact ⟨labels, mapM_getString labels⟩
  | none =>
      cases htypes : metadata.field? "markerTypes" with
      | none => exact ⟨_, rfl⟩
      | some j =>
          obtain ⟨types, rfl⟩ := h.markerTypes j htypes
          refine ⟨types.map Prod.snd, ?_⟩
          have hvalues := mapM_getString (types.map Prod.snd)
          simpa [Json.items, Function.comp_def] using hvalues

theorem WellTyped.exists_colorIds :
    ∃ ids, extractMarkerColorIds metadata = .ok ids := by
  unfold extractMarkerColorIds
  cases hids : metadata.field? "markerColorIds" with
  | some j =>
      obtain ⟨ids, rfl⟩ := h.markerColorIds j hids
      apply exists_mapM_ok_iff.mpr
      intro j hj
      obtain ⟨n, -, rfl⟩ := List.mem_map.mp hj
      exact ⟨_, rfl⟩
  | none =>
      cases htypes : metadata.field? "markerTypes" with
      | none => exact ⟨_, rfl⟩
      | some j => exact ⟨_, rfl⟩

theorem WellTyped.exists_extraLabel (extraId : UInt32) :
    ∃ label, extraLabel (metadata.field? "extraIdLabels") extraId = .ok label := by
  unfold extraLabel
  split
  · exact ⟨_, rfl⟩
  · cases hlabels : metadata.field? "extraIdLabels" with
    | none => exact ⟨_, rfl⟩
    | some j =>
        obtain ⟨labels, rfl⟩ := h.extraIdLabels j hlabels
        simp only [Option.bind_some, Json.member?]
        rw [lookup_map_string]
        cases labels.lookup (toString extraId.toNat) with
        | none => exact ⟨_, rfl⟩
        | some label => exact ⟨_, rfl⟩

theorem WellTyped.exists_metadataEvents {proc : ProcData} {tables : PerfettoTables}
    (hmetadata : proc.metadata = metadata) (htables : perfettoTables proc = .ok tables)
    (p : Nat) : ∃ events, metadataEvents tables p = .ok events := by
  obtain ⟨hcount, -, -, hchannels, -, -⟩ := perfettoTables_ok_iff.mp htables
  rw [hmetadata] at hcount hchannels
  exact exists_metadataEvents_of_names hcount hchannels h.channelNames p

end WellTyped

/-! ## The label table -/

def beforeRefusal (n : UInt32) (payloads : List Payload) : List Payload :=
  payloads.takeWhile fun p => p.channelId.toNat < n.toNat

/-- Every interval that closes before `perfetto` stops has a label. -/
def LabelsCover (q : HeapTop) (proc : ProcData) : Prop :=
  ∀ n labels, perfettoNumChannels proc.metadata = .ok n →
    perfettoMarkerLabels proc.metadata = .ok labels → labels = [] ∨
      ∀ c, ∀ x ∈ intervals c (beforeRefusal n (mergedPayloads q proc.btsFiles)),
        x.1.eventId.toNat < labels.length

theorem markerName_ok_iff {labels : List String} {eventId : UInt16} :
    (∃ name, markerName labels eventId = .ok name) ↔
      labels = [] ∨ eventId.toNat < labels.length := by
  unfold markerName
  split
  next hnil =>
    simp [hnil]
  next hne =>
    by_cases hlt : eventId.toNat < labels.length
    · simp [hlt]
    · simp [hne, hlt]

theorem markerName_error {labels : List String} {eventId : UInt16} {e : Failure}
    (h : markerName labels eventId = .error e) : e = .indexOutOfRange := by
  unfold markerName at h
  split at h
  · cases h
  · split at h
    · exact (Except.error.inj h).symm
    · cases h

theorem lt_of_mem_beforeRefusal {n : UInt32} {payloads : List Payload} {p : Payload}
    (hp : p ∈ beforeRefusal n payloads) : p.channelId.toNat < n.toNat := by
  simpa using List.mem_takeWhile_imp hp

section Loop

variable {tables : PerfettoTables} {payloads : List Payload}
  (hextra : ∀ extraId, ∃ label, extraLabel tables.extraIdLabels extraId = .ok label)
include hextra

theorem exists_closePair_ok_iff {x : Payload × Payload} :
    (∃ s, closePair tables x = .ok s) ↔
      tables.markerLabels = [] ∨ x.1.eventId.toNat < tables.markerLabels.length := by
  rw [← markerName_ok_iff]
  obtain ⟨label, hlabel⟩ := hextra x.1.extraId
  constructor
  · rintro ⟨s, hs⟩
    exact ⟨s.name, (closePair_ok_iff.mp hs).name⟩
  · rintro ⟨name, hname⟩
    exact ⟨_, bind_ok_iff.mpr ⟨name, hname, bind_ok_iff.mpr ⟨label, hlabel, rfl⟩⟩⟩

theorem closePair_error {x : Payload × Payload} {e : Failure}
    (h : closePair tables x = .error e) : e = .indexOutOfRange := by
  obtain ⟨label, hlabel⟩ := hextra x.1.extraId
  unfold closePair closeSlice at h
  cases hname : markerName tables.markerLabels x.1.eventId with
  | error e' =>
      rw [hname] at h
      have heq : e' = e := Except.error.inj h
      exact heq ▸ markerName_error hname
  | ok name =>
      rw [hname, hlabel] at h
      cases h

/-- The loop gets through the payloads before the first refused channel exactly when
every interval among them has a label. -/
theorem exists_emitPayloads_beforeRefusal_iff :
    (∃ out, emitPayloads tables (beforeRefusal tables.numChannels payloads) = .ok out) ↔
      (tables.markerLabels = [] ∨
        ∀ c, ∀ x ∈ intervals c (beforeRefusal tables.numChannels payloads),
          x.1.eventId.toNat < tables.markerLabels.length) := by
  rw [exists_emitPayloads_ok_iff]
  simp only [exists_closePair_ok_iff hextra]
  constructor
  · rintro ⟨-, hclose⟩
    by_cases hnil : tables.markerLabels = []
    · exact .inl hnil
    · exact .inr fun c x hx => (hclose c x hx).resolve_left hnil
  · rintro (hnil | hcover)
    · exact ⟨fun _ => lt_of_mem_beforeRefusal, fun _ _ _ => .inl hnil⟩
    · exact ⟨fun _ => lt_of_mem_beforeRefusal, fun c x hx => .inr (hcover c x hx)⟩

theorem emitPayloads_outOfRange_iff :
    emitPayloads tables payloads = .error .indexOutOfRange ↔
      ¬(tables.markerLabels = [] ∨
        ∀ c, ∀ x ∈ intervals c (beforeRefusal tables.numChannels payloads),
          x.1.eventId.toNat < tables.markerLabels.length) := by
  have hsplit : beforeRefusal tables.numChannels payloads ++
      payloads.dropWhile (fun p => p.channelId.toNat < tables.numChannels.toNat) =
        payloads := List.takeWhile_append_dropWhile
  rw [← exists_emitPayloads_beforeRefusal_iff hextra]
  constructor
  · rintro herror ⟨⟨obs, prevs⟩, hrun⟩
    rw [← hsplit] at herror
    rcases exec_append_error_iff.mp herror with hfail | ⟨obs', prevs', -, hfail⟩
    · have hfail' : emitPayloads tables _ = .error _ := hfail
      rw [hrun] at hfail'
      cases hfail'
    · -- the first payload after the prefix is refused, whatever the state
      cases hrest : payloads.dropWhile
          fun p => p.channelId.toNat < tables.numChannels.toNat with
      | nil =>
          rw [hrest] at hfail
          cases hfail
      | cons p rest =>
          have hge : ¬p.channelId.toNat < tables.numChannels.toNat := by
            have hhead := List.head?_dropWhile_not
              (fun p => p.channelId.toNat < tables.numChannels.toNat) payloads
            rw [hrest] at hhead
            simpa using hhead
          rw [hrest, exec, emitPayload, dif_neg hge] at hfail
          cases hfail
  · intro hnot
    cases hrun : emitPayloads tables (beforeRefusal tables.numChannels payloads) with
    | ok out => exact absurd ⟨out, hrun⟩ hnot
    | error e =>
        obtain ⟨pre, p, post, obs, t, hpre, -, hstep⟩ := exec_error_iff.mp hrun
        have hmem : p ∈ beforeRefusal tables.numChannels payloads := by simp [hpre]
        have hp := lt_of_mem_beforeRefusal hmem
        have he : e = .indexOutOfRange := by
          rcases emitPayload_error hstep with ⟨hge, -⟩ | ⟨-, a, hclose⟩
          · omega
          · exact closePair_error hextra hclose
        rw [← hsplit]
        exact exec_append_error_iff.mpr (.inl (he ▸ hrun))

end Loop

/-! ## The Perfetto export -/

section Perfetto

variable {q : HeapTop} {proc : ProcData} {p : Nat}

/-- With well-typed metadata the loop decides how the round of a proc ends. -/
theorem perfettoProc_eq (h : WellTyped proc.metadata) :
    ∃ tables, perfettoTables proc = .ok tables ∧ ∃ file : List (List TraceEvent) → PerfettoFile,
      perfettoProc q proc p =
        (emitPayloads tables (mergedPayloads q proc.btsFiles)).map fun x => file x.1 := by
  obtain ⟨n, hn⟩ := h.exists_numChannels
  obtain ⟨labels, hlabels⟩ := h.exists_markerLabels
  have htables : perfettoTables proc = .ok _ :=
    bind_ok_iff.mpr ⟨n, hn, bind_ok_iff.mpr ⟨labels, hlabels, rfl⟩⟩
  obtain ⟨metadata, hmetadata⟩ := h.exists_metadataEvents rfl htables p
  refine ⟨_, htables, fun events => {
    traceEvents := metadata ++ events.flatten
    warnings := validateLastEvents proc.btsFiles proc.btsTids }, ?_⟩
  unfold perfettoProc
  rw [htables]
  simp only [bind, Except.bind, hmetadata]
  cases emitPayloads _ _ <;> rfl

theorem perfettoProc_outOfRange_iff (h : WellTyped proc.metadata) :
    perfettoProc q proc p = .error .indexOutOfRange ↔ ¬LabelsCover q proc := by
  obtain ⟨tables, htables, file, heq⟩ := @perfettoProc_eq q proc p h
  obtain ⟨hn, hlabels, -, -, hextra, -⟩ := perfettoTables_ok_iff.mp htables
  have hcover : LabelsCover q proc ↔ (tables.markerLabels = [] ∨
      ∀ c, ∀ x ∈ intervals c
          (beforeRefusal tables.numChannels (mergedPayloads q proc.btsFiles)),
        x.1.eventId.toNat < tables.markerLabels.length) := by
    unfold LabelsCover
    rw [hn, hlabels]
    constructor
    · exact fun hall => hall _ _ rfl rfl
    · intro hall n labels hn' hlabels'
      rwa [← Except.ok.inj hn', ← Except.ok.inj hlabels']
  rw [hcover, ← emitPayloads_outOfRange_iff (by rw [hextra]; exact h.exists_extraLabel), heq]
  cases emitPayloads tables (mergedPayloads q proc.btsFiles) <;> simp [Except.map]

theorem exists_perfettoProc_ok_iff (h : WellTyped proc.metadata) :
    (∃ file, perfettoProc q proc p = .ok file) ↔
      (∀ traces ∈ proc.btsFiles, ∀ a ∈ traces, ChannelDeclared proc a) ∧
        LabelsCover q proc := by
  have houtOfRange := @perfettoProc_outOfRange_iff q proc p h
  obtain ⟨tables, htables, file, heq⟩ := @perfettoProc_eq q proc p h
  obtain ⟨hn, hlabels, -, -, hextra, -⟩ := perfettoTables_ok_iff.mp htables
  have hextra' : ∀ extraId, ∃ label, extraLabel tables.extraIdLabels extraId = .ok label := by
    rw [hextra]
    exact h.exists_extraLabel
  have hdeclared : (∀ traces ∈ proc.btsFiles, ∀ a ∈ traces, ChannelDeclared proc a) ↔
      ∀ a ∈ mergedPayloads q proc.btsFiles,
        a.channelId.toNat < tables.numChannels.toNat := by
    constructor
    · intro hall a ha
      obtain ⟨traces, htraces, hmem⟩ := mem_mergedPayloads.mp ha
      obtain ⟨n, hn', hlt⟩ := hall traces htraces a hmem
      rwa [Except.ok.inj (hn'.symm.trans hn)] at hlt
    · intro hall traces htraces a ha
      exact ⟨_, hn, hall a (mem_mergedPayloads.mpr ⟨traces, htraces, ha⟩)⟩
  rw [hdeclared]
  constructor
  · rintro ⟨out, hout⟩
    have hok : ∃ out, emitPayloads tables (mergedPayloads q proc.btsFiles) = .ok out := by
      rw [heq] at hout
      cases hrun : emitPayloads tables (mergedPayloads q proc.btsFiles) with
      | ok run => exact ⟨run, rfl⟩
      | error e => simp [hrun, Except.map] at hout
    refine ⟨(exists_emitPayloads_ok_iff.mp hok).1, ?_⟩
    by_contra hnot
    rw [houtOfRange.mpr hnot] at hout
    cases hout
  · rintro ⟨hlt, hcover⟩
    rw [heq]
    cases hrun : emitPayloads tables (mergedPayloads q proc.btsFiles) with
    | ok run => exact ⟨_, rfl⟩
    | error e =>
        -- every channel is in bounds, so the loop can only fail on a label
        obtain ⟨pre, a, post, obs, t, hsplit, -, hstep⟩ := exec_error_iff.mp hrun
        have ha := hlt a (by simp [hsplit])
        rcases emitPayload_error hstep with ⟨hge, -⟩ | ⟨-, b, hclose⟩
        · omega
        · have he := closePair_error hextra' hclose
          have herror : perfettoProc q proc p = .error .indexOutOfRange := by
            rw [heq, hrun, he]
            rfl
          exact absurd hcover (houtOfRange.mp herror)

end Perfetto

theorem perfetto_ne_outOfRange_iff {q : HeapTop} {out : OutputFolder}
    {procs : List ProcData} (htyped : ∀ proc ∈ procs, WellTyped proc.metadata) :
    perfetto q out procs ≠ .error .indexOutOfRange ↔
      (out.opens "perfetto.json" = true → ∀ i (hi : i < procs.length),
        (∀ j (_ : j < i), ∀ traces ∈ procs[j].btsFiles, ∀ p ∈ traces,
          ChannelDeclared procs[j] p) → LabelsCover q procs[i]) := by
  have htyped' : ∀ i (hi : i < procs.length), WellTyped procs[i].metadata :=
    fun i hi => htyped _ (List.getElem_mem hi)
  have hloop : procs.zipIdx.mapM (fun x => perfettoProc q x.1 x.2) =
      .error .indexOutOfRange ↔ ∃ i, ∃ hi : i < procs.length, ¬LabelsCover q procs[i] ∧
        ∀ j (_ : j < i), (∀ traces ∈ procs[j].btsFiles, ∀ p ∈ traces,
          ChannelDeclared procs[j] p) ∧ LabelsCover q procs[j] := by
    rw [mapM_error_iff]
    simp only [List.length_zipIdx, List.getElem_zipIdx, Nat.zero_add]
    apply exists_congr
    intro i
    apply exists_congr
    intro hi
    rw [perfettoProc_outOfRange_iff (htyped' i hi)]
    apply and_congr_right
    intro _
    apply forall_congr'
    intro j
    apply forall_congr'
    intro hj
    exact exists_perfettoProc_ok_iff (htyped' j (by omega))
  unfold perfetto
  cases hopens : out.opens "perfetto.json" with
  | false => simp
  | true =>
      have hbind : (procs.zipIdx.mapM (fun x => perfettoProc q x.1 x.2) >>= fun files =>
          (pure {
            traceEvents := files.flatMap PerfettoFile.traceEvents
            warnings := files.flatMap PerfettoFile.warnings } :
              Except Failure PerfettoFile)) = .error .indexOutOfRange ↔
          procs.zipIdx.mapM (fun x => perfettoProc q x.1 x.2) =
            .error .indexOutOfRange := by
        cases procs.zipIdx.mapM fun x => perfettoProc q x.1 x.2 <;>
          simp [bind, Except.bind, pure, Except.pure]
      simp only [Bool.not_true, Bool.false_eq_true, if_false, ne_eq, hbind, hloop,
        forall_const]
      constructor
      · intro hnone i
        -- the procs before a reached proc are covered as well
        induction i using Nat.strongRecOn with
        | _ i ih =>
            intro hi hreached
            by_contra hnot
            refine hnone ⟨i, hi, hnot, fun j hj => ⟨hreached j hj, ?_⟩⟩
            exact ih j hj (by omega) fun k hk => hreached k (by omega)
      · rintro hcover ⟨i, hi, hnot, hbefore⟩
        exact hnot (hcover i hi fun j hj => (hbefore j hj).1)

/-! ## The colour table -/

/-- Every set payload has a colour, unless the proc has no colours at all. -/
def ColorsCover (proc : ProcData) : Prop :=
  ∀ ids, extractMarkerColorIds proc.metadata = .ok ids → ids = [] ∨
    ∀ traces ∈ proc.btsFiles, ∀ p ∈ traces, p.isSet = true → p.eventId.toNat < ids.length

theorem exists_itemRecord_ok_iff {item : PrvTask × Payload} :
    (∃ r, itemRecord item = .ok r) ↔ (item.2.isSet = true →
      item.1.markerColorIds = [] ∨ item.2.eventId.toNat < item.1.markerColorIds.length) := by
  unfold itemRecord recordColorId
  cases hflow : item.2.isFlow with
  | true => simp [Payload.isSet, hflow]
  | false =>
      by_cases hreset : item.2.eventId = eventIdReset
      · simp [Payload.isSet, Payload.isReset, hflow, hreset, Except.map]
      · by_cases hnil : item.1.markerColorIds = []
        · simp [hreset, hnil, Except.map]
        · by_cases hlt : item.2.eventId.toNat < item.1.markerColorIds.length
          · simp [hreset, hnil, hlt, Except.map]
          · simp [Payload.isSet, Payload.isReset, hflow, hreset, hnil, hlt, Except.map]

theorem prvPayload_error {task : PrvTask} {st : PrvState} {p : Payload} {e : Failure}
    (h : prvPayload task st p = .error e) : e = .indexOutOfRange := by
  unfold prvPayload recordColorId at h
  grind

theorem exists_tasksOf {t0 : UInt64} {procs : List ProcData}
    (htyped : ∀ proc ∈ procs, WellTyped proc.metadata) :
    ∃ tasks, TasksOf t0 procs tasks := by
  apply exists_mapM_ok_iff.mpr
  rintro ⟨proc, i⟩ hmem
  obtain ⟨ids, hids⟩ := (htyped proc (List.fst_mem_of_mem_zipIdx hmem)).exists_colorIds
  exact ⟨_, bind_ok_iff.mpr ⟨ids, hids, rfl⟩⟩

theorem exists_itemRecords_iff {q : HeapTop} {procs : List ProcData} {tasks : List PrvTask}
    (htasks : TasksOf (globalT0 procs) procs tasks) :
    (∃ rs, (prvItems q procs tasks).mapM itemRecord = .ok rs) ↔
      ∀ proc ∈ procs, ColorsCover proc := by
  rw [exists_mapM_ok_iff]
  simp only [exists_itemRecord_ok_iff]
  constructor
  · intro hall proc hproc ids hids
    obtain ⟨i, hi, rfl⟩ := List.mem_iff_getElem.mp hproc
    obtain ⟨hi', hids', _⟩ := htasks.getElem hi
    obtain rfl : ids = tasks[i].markerColorIds := Except.ok.inj (hids.symm.trans hids')
    by_cases hnil : tasks[i].markerColorIds = []
    · exact .inl hnil
    · refine .inr fun traces htraces p hp hset => ?_
      have hmem : (tasks[i], p) ∈ prvItems q procs tasks :=
        htasks.mem_prvItems.mpr ⟨i, hi, hi', rfl,
          mem_mergedPayloads.mpr ⟨traces, htraces, hp⟩⟩
      exact (hall _ hmem hset).resolve_left hnil
  · intro hcover item hitem hset
    obtain ⟨i, hi, hi', htask, hp⟩ := htasks.mem_prvItems.mp hitem
    obtain ⟨_, hids, _⟩ := htasks.getElem hi
    obtain ⟨traces, htraces, hmem⟩ := mem_mergedPayloads.mp hp
    rw [htask]
    exact (hcover _ (List.getElem_mem hi) _ hids).imp_right fun hall =>
      hall traces htraces _ hmem hset

theorem prvProcs_ne_outOfRange_iff {q : HeapTop} {procs : List ProcData}
    (htyped : ∀ proc ∈ procs, WellTyped proc.metadata) :
    procs.zipIdx.foldlM (fun st x => prvProc q (globalT0 procs) st x.1 x.2) ⟨[], ∅, ∅⟩ ≠
        .error .indexOutOfRange ↔
      ∀ proc ∈ procs, ColorsCover proc := by
  obtain ⟨tasks, htasks⟩ := @exists_tasksOf (globalT0 procs) procs htyped
  rw [← exists_itemRecords_iff (q := q) htasks]
  constructor
  · intro hne
    cases hrun : procs.zipIdx.foldlM
        (fun st x => prvProc q (globalT0 procs) st x.1 x.2) ⟨[], ∅, ∅⟩ with
    | ok st =>
        obtain ⟨tasks', rs, htasks', hrs, -⟩ := foldlM_prvProc_ok_iff.mp hrun
        rw [List.zipIdx_map_fst] at hrs
        have heq : tasks' = tasks := Except.ok.inj (htasks'.symm.trans htasks)
        exact ⟨rs, heq ▸ hrs⟩
    | error e =>
        -- a task always has its colours, so a payload is to blame
        obtain ⟨st, ⟨proc, i⟩, hmem, hproc⟩ := exists_of_foldlM_error hrun
        obtain ⟨ids, hids⟩ :=
          (htyped proc (List.fst_mem_of_mem_zipIdx hmem)).exists_colorIds
        have htask : prvTask (globalT0 procs) proc i = .ok _ :=
          bind_ok_iff.mpr ⟨ids, hids, rfl⟩
        simp only [prvProc, htask, bind, Except.bind] at hproc
        obtain ⟨st', p, -, hp⟩ := exists_of_foldlM_error hproc
        rw [hrun, prvPayload_error hp] at hne
        exact absurd rfl hne
  · rintro ⟨rs, hrs⟩ herror
    have hok := (@foldlM_prvProc_ok_iff q (globalT0 procs) procs.zipIdx
      ⟨[], ∅, ∅⟩ _).mpr ⟨tasks, rs, htasks, by rwa [List.zipIdx_map_fst], rfl⟩
    rw [hok] at herror
    cases herror

theorem createTracrPrv_ne_outOfRange_iff {ch : ParaverChoices} {out : OutputFolder}
    {procs : List ProcData} {channels : List Nat}
    (htyped : ∀ proc ∈ procs, WellTyped proc.metadata) :
    createTracrPrv ch out procs channels ≠ .error .indexOutOfRange ↔
      (out.opens "tracr.prv" = true → ∀ proc ∈ procs, ColorsCover proc) := by
  rw [← prvProcs_ne_outOfRange_iff (q := ch.heapTop) htyped]
  unfold createTracrPrv
  cases out.opens "tracr.prv" with
  | false => simp
  | true =>
      simp only [Bool.not_true, Bool.false_eq_true, if_false, forall_const]
      cases procs.zipIdx.foldlM
        (fun st x => prvProc ch.heapTop (globalT0 procs) st x.1 x.2) ⟨[], ∅, ∅⟩ <;>
          simp [bind, Except.bind, pure, Except.pure]

/-! ## Both exports -/

/-- Neither exporter reads a marker table out of range exactly when the labels
cover what `perfetto` reaches and the colours cover every set payload. -/
theorem tables_in_range_iff {q : HeapTop} {ch : ParaverChoices} {out : OutputFolder}
    {procs : List ProcData} {channels : List Nat}
    (htyped : ∀ proc ∈ procs, WellTyped proc.metadata) :
    (perfetto q out procs ≠ .error .indexOutOfRange ∧
        createTracrPrv ch out procs channels ≠ .error .indexOutOfRange) ↔
      (out.opens "perfetto.json" = true → ∀ i (hi : i < procs.length),
        (∀ j (_ : j < i), ∀ traces ∈ procs[j].btsFiles, ∀ p ∈ traces,
          ChannelDeclared procs[j] p) → LabelsCover q procs[i]) ∧
      (out.opens "tracr.prv" = true → ∀ proc ∈ procs, ColorsCover proc) := by
  rw [perfetto_ne_outOfRange_iff htyped, createTracrPrv_ne_outOfRange_iff htyped]

theorem tables_in_range_one_marker :
    perfetto .first ⟨true, fun _ => true⟩ [{
        pid := 7
        metadata := .object [("markerColorIds", .array ([4].map .number)),
          ("markerLabels", .array (["compute"].map .string))]
        btsFiles := [[⟨0, 0, uint32Max, 1⟩, ⟨0, eventIdReset, uint32Max, 2⟩]]
        btsTids := [7]
        syncStart := 1
        syncEnd := 2 }] ≠ .error .indexOutOfRange ∧
      createTracrPrv .first ⟨true, fun _ => true⟩ [{
        pid := 7
        metadata := .object [("markerColorIds", .array ([4].map .number)),
          ("markerLabels", .array (["compute"].map .string))]
        btsFiles := [[⟨0, 0, uint32Max, 1⟩, ⟨0, eventIdReset, uint32Max, 2⟩]]
        btsTids := [7]
        syncStart := 1
        syncEnd := 2 }] [1] ≠ .error .indexOutOfRange := by
  have hevent : ∀ p ∈ [(⟨0, 0, uint32Max, 1⟩ : Payload), ⟨0, eventIdReset, uint32Max, 2⟩],
      p.isSet = true → p.eventId.toNat < 1 := by decide
  apply (tables_in_range_iff ?_).mpr
  · refine ⟨fun _ i hi _ n labels hn hlabels => .inr ?_, fun _ proc hproc ids hids => .inr ?_⟩
    · obtain rfl : i = 0 := by simpa using hi
      obtain rfl : ["compute"] = labels := Except.ok.inj hlabels
      intro c x hx
      have hset := isSet_of_mem_intervals hx
      have hmem := (mem_channelEvents.mp (mem_intervals hx).1).1
      obtain ⟨traces, htraces, hp⟩ :=
        mem_mergedPayloads.mp ((List.takeWhile_sublist _).subset hmem)
      rw [List.mem_singleton.mp htraces] at hp
      exact hevent _ hp hset
    · obtain rfl := List.mem_singleton.mp hproc
      obtain rfl : ["4"] = ids := Except.ok.inj hids
      intro traces htraces p hp
      rw [List.mem_singleton.mp htraces] at hp
      exact hevent p hp
  · intro proc hproc
    rw [List.mem_singleton.mp hproc]
    exact wellTyped_tables [4] ["compute"]

/-- One marker registered, event id 5 recorded: both exporters read past the end. -/
theorem tables_read_out_of_range :
    ¬∀ (q : HeapTop) (ch : ParaverChoices) (out : OutputFolder)
      (sorter : SortedList.Sorter ProcData.pid) (entries : List ProcEntry)
      (procs : List ProcData) (channels : List Nat),
      extractBtsMetadata sorter entries = .ok procs →
      (∀ proc ∈ procs, WellTyped proc.metadata) →
        perfetto q out procs ≠ .error .indexOutOfRange ∧
          createTracrPrv ch out procs channels ≠ .error .indexOutOfRange := by
  intro h
  have hsafe := h .first .first ⟨true, fun _ => true⟩ (.stable _) [{
      name := "proc.7"
      isDirectory := true
      metadata := .contents (some (.object [
        ("markerColorIds", .array ([4].map .number)),
        ("markerLabels", .array (["compute"].map .string))]))
      threads := [{
        name := "thread.7"
        isDirectory := true
        tracesBts := .contents (payloadBytes
          [⟨0, 5, uint32Max, 1⟩, ⟨0, eventIdReset, uint32Max, 2⟩]) }] }] _ [1] rfl
    (by
      intro proc hproc
      rw [List.mem_singleton.mp hproc]
      exact wellTyped_tables [4] ["compute"])
  exact hsafe.1 rfl

end TraCR
