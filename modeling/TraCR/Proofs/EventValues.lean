import TraCR.Proofs.Registry
import TraCR.Proofs.Tables

/-!
# Event values

The value of an event record is the colour of its marker, and 0 closes an event.  The
colours of a registry are distinct, so the values tell events apart; 0 is a colour the
registry accepts, and then a set looks like a reset.
-/

namespace TraCR

open TraCR.Lib TraCR.Lib.Traversal TraCR.Lib.SortedList TraCR.TraCRProc

/-! ## Registries and their documents -/

def Reachable (reg : TraCRProc) : Prop :=
  ∃ (b : Build) (pf : Platform) (w w' : World b) (actions : List Action) (obs : List Obs),
    w.tracrProc = none ∧ run pf w actions = .ok (obs, w') ∧ w'.tracrProc = some reg

/-- What the document says about markers is what `write_JSON` writes for the registry.
The channels and the end anchor may be assigned afterwards. -/
def Published (reg : TraCRProc) (metadata : Json) : Prop :=
  ∃ fields now, metadata = .object fields ∧
    ∀ key ∈ ["markerLabels", "markerColorIds", "markerTypes"],
      fields.lookup key = (reg.writeJSON now).jsonFile.lookup key

theorem published_of_lookup {reg : TraCRProc} {fields : List (String × Json)} (now : UInt64)
    (hlabels : fields.lookup "markerLabels" = (reg.writeJSON now).jsonFile.lookup "markerLabels")
    (hcolours : fields.lookup "markerColorIds" =
      (reg.writeJSON now).jsonFile.lookup "markerColorIds")
    (htypes : fields.lookup "markerTypes" = (reg.writeJSON now).jsonFile.lookup "markerTypes") :
    Published reg (.object fields) := by
  refine ⟨fields, now, rfl, ?_⟩
  simpa using ⟨hlabels, hcolours, htypes⟩

theorem published_writeJSON (reg : TraCRProc) (now : UInt64) :
    Published reg (.object (reg.writeJSON now).jsonFile) :=
  published_of_lookup now rfl rfl rfl

theorem published_dumped {reg : TraCRProc} (hready : reg.jsonIsReady = false)
    (clock : Nat → UInt64) (reads : Nat) :
    Published reg (.object (reg.dumped clock reads).jsonFile) := by
  unfold dumped
  rw [hready, if_neg Bool.false_ne_true]
  refine ⟨_, clock reads, rfl, ?_⟩
  intro key hkey
  apply lookup_setField_ne
  rintro rfl
  exact absurd hkey (by decide)

theorem Reachable.registered {reg : TraCRProc} (h : Reachable reg) : Registered reg := by
  obtain ⟨b, pf, w, w', actions, obs, hidle, hrun, hproc⟩ := h
  exact (numbered_of_run hidle hrun).registered reg hproc

theorem Reachable.consistent {reg : TraCRProc} (h : Reachable reg) : Consistent reg := by
  obtain ⟨b, pf, w, w', actions, obs, hidle, hrun, hproc⟩ := h
  exact (numbered_of_run hidle hrun).consistent reg hproc

theorem Reachable.ascending {reg : TraCRProc} (h : Reachable reg) :
    Ascending (jsonMarkerTypes reg.jsonFile) := by
  obtain ⟨b, pf, w, w', actions, obs, hidle, hrun, hproc⟩ := h
  exact (numbered_of_run hidle hrun).ascending reg hproc

section Published

variable {reg : TraCRProc} {metadata : Json}

theorem Published.reflects (hreach : Reachable reg) (h : Published reg metadata) :
    ∃ fields, metadata = .object fields ∧ Reflects reg fields := by
  obtain ⟨fields, now, rfl, hfields⟩ := h
  refine ⟨fields, rfl, ?_⟩
  rw [reflects_congr (hfields _ (by simp)) (hfields _ (by simp)) (hfields _ (by simp))]
  exact hreach.consistent.reflects_writeJSON now

theorem Reflects.extractMarkerColorIds {fields : List (String × Json)}
    (h : Reflects reg fields) :
    TraCR.extractMarkerColorIds (.object fields) =
      .ok (reg.markerColorIds.map fun id => toString id.toNat) := by
  unfold TraCR.extractMarkerColorIds
  rw [Json.field?_of_lookup h.colours (by simp)]
  simp only [Json.elements]
  rw [mapM_eq_ok_map (g := fun j => toString (castUInt16 ((j.asArithmetic?).getD 0)).toNat)]
  · simp [Function.comp_def, Json.asArithmetic?, castUInt16_natCast]
  · intro j hj
    obtain ⟨id, -, rfl⟩ := List.mem_map.mp hj
    rfl

theorem Reflects.perfettoMarkerLabels {fields : List (String × Json)}
    (h : Reflects reg fields) :
    TraCR.perfettoMarkerLabels (.object fields) = .ok reg.markerLabels := by
  unfold TraCR.perfettoMarkerLabels
  rw [Json.field?_of_lookup h.labels (by simp)]
  exact mapM_getString reg.markerLabels

end Published

/-! ## The records of a task -/

/-- `written` are the payloads of the proc that are not flows, in merge order, each with
the record it became; the file holds these records, sorted by time. -/
structure TaskRecords (ch : ParaverChoices) (procs : List ProcData) (file : PrvFile)
    (task : Nat) (proc : ProcData) (written : List (Payload × PrvRecord)) : Prop where
  payloads : written.map Prod.fst =
    (mergedPayloads ch.heapTop proc.btsFiles).filter fun p => !p.isFlow
  records : file.events.filter (fun r => r.task = task) =
    stableSort PrvRecord.time (written.map Prod.snd)
  shows : ∀ x ∈ written, x.2.thread = x.1.channelId.toNat + 1 ∧
    x.2.timestamp = x.1.timestamp - proc.syncStart - globalT0 procs

section TaskRecords

variable {ch : ParaverChoices} {out : OutputFolder} {procs : List ProcData} {prv : PrvFile}
  {channels : List Nat} {task : Nat} {proc : ProcData} {written : List (Payload × PrvRecord)}

theorem TaskRecords.unique {written' : List (Payload × PrvRecord)}
    (h : TaskRecords ch procs prv task proc written)
    (h' : TaskRecords ch procs prv task proc written') : written = written' := by
  have hfst : written.map Prod.fst = written'.map Prod.fst :=
    h.payloads.trans h'.payloads.symm
  have htime : ∀ {l : List (Payload × PrvRecord)}, TaskRecords ch procs prv task proc l →
      (l.map Prod.snd).map PrvRecord.time =
        (l.map Prod.fst).map fun p => (p.timestamp - proc.syncStart - globalT0 procs).toNat := by
    intro l hl
    rw [List.map_map, List.map_map]
    apply List.map_congr_left
    intro x hx
    show x.2.timestamp.toNat = _
    rw [(hl.shows x hx).2]
    rfl
  have hsnd : written.map Prod.snd = written'.map Prod.snd := by
    have hkeys : (written.map Prod.snd).map PrvRecord.time =
        (written'.map Prod.snd).map PrvRecord.time := by
      rw [htime h, htime h', hfst]
    apply eq_of_stableSort_eq hkeys
    rw [← h.records, ← h'.records]
  rw [← List.zip_unzip written, ← List.zip_unzip written', List.unzip_eq_map,
    List.unzip_eq_map, hfst, hsnd]

theorem exists_taskRecords (h : createTracrPrv ch out procs channels = .ok prv) {i : Nat}
    (hi : i < procs.length) :
    ∃ written colours, TaskRecords ch procs prv (i + 1) procs[i] written ∧
      extractMarkerColorIds procs[i].metadata = .ok colours ∧
        ∀ x ∈ written, recordColorId colours x.1.eventId = .ok x.2.colorId := by
  obtain ⟨-, tasks, rs, hexported⟩ := createTracrPrv_ok h
  obtain ⟨hi', hcolours, htask, hstart, hglobal⟩ := hexported.tasks_of.getElem hi
  have hmapM := mapM_filter_ok (p := fun item => item.1.task = i + 1)
    (r := fun r : PrvRecord => r.task = i + 1) (mapM_taskRecord hexported.records_of) (by
      intro item _ r hr
      obtain ⟨-, -, hrtask, -⟩ := taskRecord_ok_iff.mp hr
      simp [hrtask])
  rw [List.filter_comm, hexported.tasks_of.filter_task hi hi', List.filter_map] at hmapM
  rw [List.mapM_map] at hmapM
  have hlength := length_mapM hmapM
  refine ⟨((mergedPayloads ch.heapTop procs[i].btsFiles).filter fun p => !p.isFlow).zip
    (rs.reduceOption.filter fun r => r.task = i + 1), tasks[i].markerColorIds, ?_, hcolours, ?_⟩
  · constructor
    case payloads => exact List.map_fst_zip (le_of_eq hlength.symm)
    case records =>
      rw [hexported.events_eq, filter_stableSort]
      congr 1
      exact (List.map_snd_zip (le_of_eq hlength)).symm
    case shows =>
      intro x hx
      obtain ⟨-, htime, -, hthread⟩ :=
        taskRecord_ok_iff.mp (List.forall₂_zip (mapM_ok_iff.mp hmapM) hx)
      refine ⟨hthread, ?_⟩
      rw [htime, PrvTask.normalize, hstart, hglobal]
  · intro x hx
    exact (taskRecord_ok_iff.mp (List.forall₂_zip (mapM_ok_iff.mp hmapM) hx)).1

end TaskRecords

/-! ## Values and events -/

/-- The values tell the events of the task apart, and 0 is that of a reset. -/
def Distinguishes (written : List (Payload × PrvRecord)) : Prop :=
  ∀ x ∈ written, (x.2.colorId = "0" ↔ x.1.eventId = eventIdReset) ∧
    ∀ y ∈ written, (x.2.colorId = y.2.colorId ↔ x.1.eventId = y.1.eventId)

section Values

variable {ids : List UInt16} {eventId : UInt16} {value : String}

theorem recordColorId_ok_iff (hsome : ids ≠ []) :
    recordColorId (ids.map fun id => toString id.toNat) eventId = .ok value ↔
      (eventId = eventIdReset ∧ value = "0") ∨
        (eventId ≠ eventIdReset ∧
          ∃ id, ids[eventId.toNat]? = some id ∧ value = toString id.toNat) := by
  unfold recordColorId
  by_cases hreset : eventId = eventIdReset
  · simp [hreset, eq_comm]
  · rw [if_neg hreset, if_neg (by simpa using hsome), List.getElem?_map]
    cases hid : ids[eventId.toNat]? with
    | none => simp [hreset]
    | some id => simp [hreset, eq_comm]

theorem toString_toNat_eq_zero_iff {id : UInt16} : toString id.toNat = "0" ↔ id = 0 := by
  constructor
  · intro h
    have hnat : id.toNat = 0 := Lib.Decimal.toString_injective h
    exact UInt16.toNat_inj.mp hnat
  · rintro rfl
    rfl

/-- Distinct colours give distinct values. -/
theorem eventId_eq_of_value {eventId' : UInt16} (hsome : ids ≠ []) (hnodup : ids.Nodup)
    (hzero : ∀ e ∈ [eventId, eventId'], e ≠ eventIdReset → ids[e.toNat]? ≠ some 0)
    (h : recordColorId (ids.map fun id => toString id.toNat) eventId = .ok value)
    (h' : recordColorId (ids.map fun id => toString id.toNat) eventId' = .ok value) :
    eventId = eventId' := by
  rw [recordColorId_ok_iff hsome] at h h'
  rcases h with ⟨hreset, hvalue⟩ | ⟨hne, id, hid, hvalue⟩ <;>
    rcases h' with ⟨hreset', hvalue'⟩ | ⟨hne', id', hid', hvalue'⟩
  · rw [hreset, hreset']
  · rw [toString_toNat_eq_zero_iff.mp (hvalue'.symm.trans hvalue)] at hid'
    exact absurd hid' (hzero eventId' (by simp) hne')
  · rw [toString_toNat_eq_zero_iff.mp (hvalue.symm.trans hvalue')] at hid
    exact absurd hid (hzero eventId (by simp) hne)
  · have hnat : id.toNat = id'.toNat := Lib.Decimal.toString_injective (hvalue.symm.trans hvalue')
    obtain ⟨hlt, hget⟩ := List.getElem?_eq_some_iff.mp hid
    obtain ⟨hlt', hget'⟩ := List.getElem?_eq_some_iff.mp hid'
    have hindex := hnodup.getElem_inj_iff.mp
      (hget.trans ((UInt16.toNat_inj.mp hnat).trans hget'.symm))
    exact UInt16.toNat_inj.mp hindex

/-- Under distinct colours the values tell the events apart unless an event has
colour 0. -/
theorem distinguishes_iff_nonzero {written : List (Payload × PrvRecord)} (hsome : ids ≠ [])
    (hnodup : ids.Nodup)
    (hvalue : ∀ x ∈ written,
      recordColorId (ids.map fun id => toString id.toNat) x.1.eventId = .ok x.2.colorId) :
    Distinguishes written ↔ ∀ x ∈ written, x.1.eventId ≠ eventIdReset →
      ids[x.1.eventId.toNat]? ≠ some 0 := by
  constructor
  · intro hdistinct x hx hne hzero
    -- the event has the value of a reset
    rcases (recordColorId_ok_iff hsome).mp (hvalue x hx) with ⟨hreset, -⟩ | ⟨-, id, hid, hcolor⟩
    · exact hne hreset
    · obtain rfl := Option.some.inj (hid.symm.trans hzero)
      exact hne ((hdistinct x hx).1.mp hcolor)
  · intro hnonzero x hx
    constructor
    · rcases (recordColorId_ok_iff hsome).mp (hvalue x hx) with
        ⟨hreset, hcolor⟩ | ⟨hne, id, hid, hcolor⟩
      · exact iff_of_true hcolor hreset
      · refine iff_of_false ?_ hne
        rw [hcolor, toString_toNat_eq_zero_iff]
        rintro rfl
        exact hnonzero x hx hne hid
    · intro y hy
      constructor
      · intro heq
        refine eventId_eq_of_value hsome hnodup ?_ (hvalue x hx) (heq ▸ hvalue y hy)
        intro e he
        rcases List.mem_cons.mp he with rfl | he
        · exact hnonzero x hx
        · obtain rfl := List.mem_singleton.mp he
          exact hnonzero y hy
      · intro heq
        have hsame := hvalue y hy
        rw [← heq] at hsame
        exact Except.ok.inj ((hvalue x hx).symm.trans hsame)

end Values

/-- A proc whose document shows a registry with markers: the values tell its events
apart if and only if no event it records has colour 0. -/
theorem distinguishes_iff {ch : ParaverChoices} {out : OutputFolder} {procs : List ProcData}
    {prv : PrvFile} {channels : List Nat} {reg : TraCRProc} (hreach : Reachable reg)
    (hsome : reg.markerLabels ≠ []) (hprv : createTracrPrv ch out procs channels = .ok prv)
    {i : Nat} (hi : i < procs.length) (hdoc : Published reg procs[i].metadata) :
    (∃ written, TaskRecords ch procs prv (i + 1) procs[i] written) ∧
      ∀ written, TaskRecords ch procs prv (i + 1) procs[i] written →
        (Distinguishes written ↔ ∀ traces ∈ procs[i].btsFiles, ∀ p ∈ traces,
          p.isSet = true → reg.markerColorIds[p.eventId.toNat]? ≠ some 0) := by
  obtain ⟨written, colours, htask, hcolours, hvalue⟩ := exists_taskRecords hprv hi
  refine ⟨⟨written, htask⟩, ?_⟩
  intro written' htask'
  obtain rfl := htask.unique htask'
  obtain ⟨fields, hfields, hreflects⟩ := hdoc.reflects hreach
  have hregistered := hreach.registered
  rw [hfields, hreflects.extractMarkerColorIds] at hcolours
  obtain rfl := Except.ok.inj hcolours
  have hids : reg.markerColorIds ≠ [] := by
    intro hnil
    have hlength := hregistered.colours
    rw [hnil] at hlength
    exact hsome (List.length_eq_zero_iff.mp hlength.symm)
  have hmem : ∀ p, (∃ x ∈ written, x.1 = p) ↔
      p.isFlow = false ∧ ∃ traces ∈ procs[i].btsFiles, p ∈ traces := by
    intro p
    rw [← List.mem_map, htask.payloads, List.mem_filter, mem_mergedPayloads, and_comm]
    simp
  rw [distinguishes_iff_nonzero hids hregistered.nodup hvalue]
  constructor
  · intro hnonzero traces htraces p hp hset
    obtain ⟨hflow, hne⟩ := Payload.isSet_iff.mp hset
    obtain ⟨x, hx, rfl⟩ := (hmem p).mpr ⟨hflow, traces, htraces, hp⟩
    exact hnonzero x hx hne
  · intro hnonzero x hx hne
    obtain ⟨hflow, traces, htraces, hp⟩ := (hmem x.1).mp ⟨x, hx, rfl⟩
    exact hnonzero traces htraces x.1 hp (Payload.isSet_iff.mpr ⟨hflow, hne⟩)

def oneMarker (colorId : UInt16) : ProcData where
  pid := 3
  metadata := .object [("markerColorIds", .array [.number colorId.toNat]),
    ("markerLabels", .array [.string "wait"]),
    ("markerTypes", .object [(toString colorId.toNat, .string "wait")])]
  btsFiles := [[⟨0, 0, uint32Max, 10⟩, ⟨0, eventIdReset, uint32Max, 20⟩]]
  btsTids := [7]
  syncStart := 10
  syncEnd := 20

def markerRun (colorId : UInt16) : List Action :=
  callsBy 0 [.start, .markWColorAdd "wait" colorId]

theorem distinguishes_teal :
    ∃ reg prv written, Reachable reg ∧ Published reg (oneMarker 12).metadata ∧
      createTracrPrv .first ⟨true, fun _ => true⟩ [oneMarker 12] [1] = .ok prv ∧
      TaskRecords .first [oneMarker 12] prv 1 (oneMarker 12) written ∧
        Distinguishes written := by
  obtain ⟨obs, w, reg, hrun, hproc, hlabels, hcolours, hdoc⟩ : ∃ obs w reg,
      run tickingPlatform (World.initial eightPayloads) (markerRun 12) = .ok (obs, w) ∧
      w.tracrProc = some reg ∧ reg.markerLabels = ["wait"] ∧ reg.markerColorIds = [12] ∧
      Published reg (oneMarker 12).metadata :=
    ⟨_, _, _, rfl, rfl, rfl, rfl, published_of_lookup 0 rfl rfl rfl⟩
  have hreach : Reachable reg := ⟨_, _, _, _, _, _, rfl, hrun, hproc⟩
  obtain ⟨prv, hprv⟩ : ∃ prv,
      createTracrPrv .first ⟨true, fun _ => true⟩ [oneMarker 12] [1] = .ok prv := ⟨_, rfl⟩
  have hsome : reg.markerLabels ≠ [] := by
    rw [hlabels]
    decide
  obtain ⟨⟨written, htask⟩, hiff⟩ :=
    distinguishes_iff hreach hsome hprv (i := 0) (by decide) hdoc
  refine ⟨reg, prv, written, hreach, hdoc, hprv, htask, (hiff written htask).mpr ?_⟩
  rw [hcolours]
  decide

theorem not_distinguishes_none :
    ∃ reg prv written, Reachable reg ∧ reg.markerLabels ≠ [] ∧
      Published reg (oneMarker 0).metadata ∧
      createTracrPrv .first ⟨true, fun _ => true⟩ [oneMarker 0] [1] = .ok prv ∧
      TaskRecords .first [oneMarker 0] prv 1 (oneMarker 0) written ∧
      (∀ x ∈ written, x.1.eventId = eventIdReset ∨
        x.1.eventId.toNat < reg.markerLabels.length) ∧
      ¬ Distinguishes written := by
  obtain ⟨obs, w, reg, hrun, hproc, hlabels, hdoc⟩ : ∃ obs w reg,
      run tickingPlatform (World.initial eightPayloads) (markerRun 0) = .ok (obs, w) ∧
      w.tracrProc = some reg ∧ reg.markerLabels = ["wait"] ∧
      Published reg (oneMarker 0).metadata :=
    ⟨_, _, _, rfl, rfl, rfl, published_of_lookup 0 rfl rfl rfl⟩
  refine ⟨reg, _, [(⟨0, 0, uint32Max, 10⟩, ⟨0, 1, 1, "0"⟩),
    (⟨0, eventIdReset, uint32Max, 20⟩, ⟨10, 1, 1, "0"⟩)], ⟨_, _, _, _, _, _, rfl, hrun, hproc⟩,
    ?_, hdoc, rfl, ⟨by decide, by decide, by decide⟩, ?_, ?_⟩
  · rw [hlabels]
    decide
  · rw [hlabels]
    decide
  · intro hdistinct
    have hset := (hdistinct (⟨0, 0, uint32Max, 10⟩, ⟨0, 1, 1, "0"⟩) List.mem_cons_self).1
    exact absurd (hset.mp rfl) (by decide)

end TraCR
