import TraCR.Proofs.EndToEnd
import TraCR.Proofs.EventValues
import TraCR.Proofs.Processes

/-!
# What a finished process leaves

A process that ran from START to END leaves its log in the files of its threads and its
registry in the metadata.  This is read back when the folder is loaded.
-/

namespace TraCR

open TraCR.Lib TraCR.Lib.Run TraCR.Lib.Traversal TraCR.Lib.SortedList

variable {b : Build} {pf : Platform}

def OneSession (actions : List Action) : Prop :=
  ∃ first body last, actions = first :: body ++ [last] ∧ first.call = .start ∧
    last.call = .stop ∧ ∀ a ∈ body, a.call.inRun

/-! ## Colours -/

/-- The ids handed out have colours, those that were chosen for them. -/
def Painted (reg : TraCRProc) (h : List (Action × Obs)) : Prop :=
  ∀ x ∈ h, ∀ id, x.2 = .eventId id → ∃ colorId, reg.markerColorIds[id.toNat]? = some colorId ∧
    ∀ chosen, x.1.call.chosen? = some chosen → chosen = colorId

theorem Painted.keep {reg reg' : TraCRProc} {h : List (Action × Obs)} (hpainted : Painted reg h)
    (hcolours : reg'.markerColorIds = reg.markerColorIds) {a : Action} {o : Obs}
    (hid : ∀ id, o ≠ .eventId id) : Painted reg' (h ++ [(a, o)]) := by
  intro x hx id hxid
  rw [hcolours]
  rcases List.mem_append.mp hx with hx | hx
  · exact hpainted x hx id hxid
  · obtain rfl := List.mem_singleton.mp hx
    exact absurd hxid (hid id)

theorem Painted.addMarker {reg : TraCRProc} {h : List (Action × Obs)} (hpainted : Painted reg h)
    (hregistered : Registered reg) {a : Action} {label : String} {colorId : UInt16}
    (hroom : reg.markerLabels.length < eventIdReservedMin.toNat)
    (hchosen : ∀ chosen, a.call.chosen? = some chosen → chosen = colorId) :
    Painted (reg.addMarker label colorId)
      (h ++ [(a, .eventId (.ofNat reg.markerLabels.length))]) := by
  intro x hx id hid
  show ∃ c, (reg.markerColorIds ++ [colorId])[id.toNat]? = some c ∧ _
  rcases List.mem_append.mp hx with hx | hx
  · obtain ⟨c, hc, hsame⟩ := hpainted x hx id hid
    have hlt := (List.getElem?_eq_some_iff.mp hc).1
    exact ⟨c, by rw [List.getElem?_append_left hlt, hc], hsame⟩
  · obtain rfl := List.mem_singleton.mp hx
    obtain rfl := Obs.eventId.inj hid
    have hid' : (UInt16.ofNat reg.markerLabels.length).toNat = reg.markerColorIds.length := by
      rw [hregistered.colours]
      exact UInt16.toNat_ofNat_of_lt' (hroom.trans (by decide))
    exact ⟨colorId, by rw [hid', List.getElem?_concat_length], hchosen⟩

theorem painted_of_step {w w' : World b} {h : List (Action × Obs)} {a : Action} {o : Obs}
    {reg : TraCRProc} (hproc : w.tracrProc = some reg) (hregistered : Registered reg)
    (hpainted : Painted reg h) (hstop : a.call ≠ .stop) (hstep : step pf w a = .ok (o, w')) :
    ∃ reg', w'.tracrProc = some reg' ∧ Registered reg' ∧ Painted reg' (h ++ [(a, o)]) := by
  cases effect_of_step hstep with
  | start _ hnone =>
      rw [hproc] at hnone
      cases hnone
  | stop hcall => exact absurd hcall hstop
  | @register reg' label colorId _ hcall hproc' hroom hcolor =>
      obtain rfl := Option.some.inj (hproc.symm.trans hproc')
      refine ⟨_, rfl, hregistered.addMarker label hroom hcolor, ?_⟩
      refine hpainted.addMarker hregistered hroom fun chosen hchosen => ?_
      generalize a.call = call at hcall hchosen
      cases hcall with
      | wColor => exact (Option.some.inj hchosen).symm
      | add => cases hchosen
  | update hcall hproc' =>
      obtain rfl := Option.some.inj (hproc.symm.trans hproc')
      obtain ⟨hlabels, hcolours, htypes, -⟩ := update_keeps hcall reg
      exact ⟨_, rfl, hregistered.congr hlabels hcolours htypes,
        hpainted.keep hcolours fun id hid => by cases hid⟩
  | snapshot _ hproc' =>
      obtain rfl := Option.some.inj (hproc.symm.trans hproc')
      exact ⟨_, rfl, hregistered.congr (TraCRProc.markerLabels_writeJSON _)
          (TraCRProc.markerColorIds_writeJSON _) (TraCRProc.markerTypes_writeJSON _),
        hpainted.keep (TraCRProc.markerColorIds_writeJSON _) fun id hid => by cases hid⟩
  | threadInit | threadFinalize | untraced | store | on | off | tracePath =>
      exact ⟨reg, hproc, hregistered, hpainted.keep rfl fun id hid => by cases hid⟩

/-- The registry of a process that has started. -/
theorem painted_of_run (hflush : b.disableFlush = false) {w₀ w : World b} {first : Action}
    {body : List Action} {obs : List Obs} (hstart : first.call = .start)
    (hbody : ∀ a ∈ body, a.call.inRun) (hrun : run pf w₀ (first :: body) = .ok (obs, w)) :
    ∃ reg, w.tracrProc = some reg ∧ Registered reg ∧ Painted reg ((first :: body).zip obs) := by
  obtain ⟨o, w₁, obs', hfirst, hrest, rfl⟩ := exec_cons_ok_iff.mp hrun
  obtain ⟨rfl, -, -, reg, disk, hfolders, rfl⟩ := start_of_step hstart hfirst
  obtain ⟨hmade, -⟩ := createFolders_ok hflush hfolders
  have hbegin : ∃ reg', some reg = some reg' ∧ Registered reg' ∧
      Painted reg' [(first, .nothing)] := by
    refine ⟨reg, rfl, ?_, fun x hx id hid => ?_⟩
    · rw [hmade]
      exact registered_of_empty rfl rfl rfl
    · obtain rfl := List.mem_singleton.mp hx
      cases hid
  have hhistory := exec_history
    (I := fun (w : World b) h => ∃ reg, w.tracrProc = some reg ∧ Registered reg ∧ Painted reg h)
    (P := fun _ a => a.call.inRun)
    (fun w h a o w' hI hcall hstep => by
      obtain ⟨reg, hproc, hregistered, hpainted⟩ := hI
      exact painted_of_step hproc hregistered hpainted hcall.1 hstep)
    hbegin (along_of_forall hbody) hrest
  exact hhistory

/-! ## What is left -/

/-- The markers of a session: its registry, as the metadata has it. -/
structure Markers (trace : List (Action × Obs)) (reg : TraCRProc) (metadata : Json) : Prop where
  reachable : Reachable reg
  published : Published reg metadata
  types : ∃ fields, markerTypesFields metadata = .ok fields
  labels : ∀ x ∈ trace, ∀ id, x.2 = .eventId id →
    ∃ label, x.1.call.label? = some label ∧ reg.markerLabels[id.toNat]? = some label
  painted : Painted reg trace

/-- What a run from START to END leaves in the folder of the proc. -/
structure Session (pf : Platform) (start : UInt64) (trace : List (Action × Obs))
    (path : ProcPath) (disk : Disk) : Prop where
  recorded : ∀ x ∈ trace, x.1.call.record? = x.2.payload?.map Payload.ids
  sorted : SortedBy Payload.time ((storedLog trace).map Prod.snd)
  begun : ∀ x ∈ storedLog trace, start ≤ x.2.timestamp
  written : ∃ dir reg metadata, disk.lookup path = some dir ∧
    WrittenFolder pf start trace reg.markerLabels dir ∧ dir.metadata = some metadata ∧
      Markers trace reg metadata

theorem exists_markerTypesFields_dumped {reg : TraCRProc} (hready : reg.jsonIsReady = false)
    (hblank : reg.jsonFile.lookup "markerTypes" = none) (clock : Nat → UInt64) (reads : Nat) :
    ∃ fields, markerTypesFields (.object (reg.dumped clock reads).jsonFile) = .ok fields := by
  have hwrite : ∀ (types : List (Sigma fun _ : UInt16 => String)) (fields : List (String × Json)),
      (fields.lookup "markerTypes" = none ∨
        ∃ types, fields.lookup "markerTypes" = some (.object types)) →
      (TraCRProc.writeMarkerTypes types fields).lookup "markerTypes" = none ∨
        ∃ types', (TraCRProc.writeMarkerTypes types fields).lookup "markerTypes" =
          some (.object types') := by
    intro types
    unfold TraCRProc.writeMarkerTypes
    induction types with
    | nil => exact fun fields h => h
    | cons entry types ih =>
        intro fields _
        exact ih _ (.inr ⟨_, lookup_insertField_self _ _ _⟩)
  have hdumped : (reg.dumped clock reads).jsonFile.lookup "markerTypes" =
      (TraCRProc.writeMarkerTypes reg.markerTypes.entries
        (reg.baseFields (clock reads))).lookup "markerTypes" := by
    unfold TraCRProc.dumped
    rw [hready, if_neg Bool.false_ne_true, TraCRProc.lookup_setField_ne (by decide),
      TraCRProc.jsonFile_writeJSON]
  have hbase : (reg.baseFields (clock reads)).lookup "markerTypes" = none := by
    rw [TraCRProc.lookup_baseFields_ne (by decide), hblank]
  rcases hwrite reg.markerTypes.entries _ (.inl hbase) with hnone | ⟨types, hobject⟩
  · refine ⟨[], ?_⟩
    rw [markerTypesFields, Json.field?_of_lookup_none (hdumped.trans hnone)]
  · refine ⟨types, ?_⟩
    rw [markerTypesFields, Json.field?_of_lookup (hdumped.trans hobject) (by simp)]

theorem published_of_stop (hflush : b.disableFlush = false) {w w' : World b} {a : Action} {o : Obs}
    (hstop : a.call = .stop) (hstep : step pf w a = .ok (o, w')) {reg : TraCRProc}
    (hproc : w.tracrProc = some reg) (hready : reg.jsonIsReady = false)
    (hblank : reg.jsonFile.lookup "markerTypes" = none) :
    ∃ dir metadata, w'.disk.lookup reg.getFolderPath = some dir ∧
      dir.metadata = some metadata ∧ Published reg metadata ∧
        ∃ fields, markerTypesFields metadata = .ok fields := by
  obtain ⟨-, reg', th, w₁, hproc', -, hwrite, rfl⟩ := stop_of_step hstop hstep
  obtain rfl := Option.some.inj (hproc.symm.trans hproc')
  obtain ⟨-, disk, dir, reads, -, -, rfl⟩ := flushProc_ok hflush hwrite
  exact ⟨_, _, AList.lookup_insert _, rfl, published_dumped hready pf.clock w.reads,
    exists_markerTypesFields_dumped hready hblank pf.clock w.reads⟩

theorem session_of_run (hflush : b.disableFlush = false) (hpolicy : b.policy = .abortIfFull)
    {w₀ w : World b} (hfresh : Fresh w₀) (hidle : w₀.tracrProc = none)
    (henabled : w₀.enableTracr = true) {actions : List Action} (hsession : OneSession actions)
    {obs : List Obs} (huse : ProperUse pf (actions.zip obs))
    (hrun : run pf w₀ actions = .ok (obs, w)) :
    Session pf (pf.clock w₀.reads) (actions.zip obs) (outputPath pf w₀) w.disk := by
  obtain ⟨first, body, last, rfl, hstart, hstop, hbody⟩ := hsession
  obtain ⟨obs₀, before, obs₁, hmost, hlast, rfl⟩ := exec_append_ok_iff.mp hrun
  obtain ⟨reg, hproc, -, hpainted⟩ := painted_of_run hflush hstart hbody hmost
  have hreachable : Reachable reg := ⟨b, pf, w₀, before, _, _, hidle, hmost, hproc⟩
  obtain ⟨o, w₁, obs₂, hfirst, hrest, rfl⟩ := exec_cons_ok_iff.mp hmost
  obtain ⟨o', hend, rfl⟩ := exec_singleton_ok_iff.mp hlast
  have htrace : (first :: body ++ [last]).zip (o :: obs₂ ++ [o']) =
      [(first, o)] ++ body.zip obs₂ ++ [(last, o')] := by
    rw [List.cons_append, List.cons_append, List.zip_cons_cons,
      List.zip_append (exec_length hrest).symm]
    rfl
  rw [htrace] at huse ⊢
  have htids : ((openedBy (([(first, o)] ++ body.zip obs₂).map Prod.fst)).map pf.gettid).Nodup := by
    have hall := huse.tids
    rw [List.map_append, List.map_cons, List.map_nil, openedBy_concat, hstop] at hall
    simpa [Call.opensSession] using hall
  have hj : Journal pf (outputPath pf w₀) (pf.clock w₀.reads) before
      ([(first, o)] ++ body.zip obs₂) :=
    (journal_start hflush hfresh henabled hstart hfirst).run hflush hpolicy huse.clock hbody
      htids hrest
  obtain ⟨rfl, -, reg', dir, hrec, hdir, hwritten⟩ := hj.stop hflush hpolicy hstop htids hend
  obtain rfl := Option.some.inj (hproc.symm.trans hrec.running)
  have hlog : storedLog ([(first, o)] ++ body.zip obs₂ ++ [(last, Obs.nothing)]) =
      storedLog ([(first, o)] ++ body.zip obs₂) := by
    rw [storedLog_concat]
    exact List.append_nil _
  constructor
  case recorded =>
    intro x hx
    rcases List.mem_append.mp hx with hx | hx
    · exact hj.recorded x hx
    · obtain rfl := List.mem_singleton.mp hx
      rw [hstop]
      rfl
  case sorted =>
    rw [hlog]
    exact hj.timed.sorted
  case begun =>
    rw [hlog]
    exact fun x hx => (hj.timed.read x hx).1
  case written =>
    obtain ⟨⟨reg', hproc', hpath⟩, -⟩ := hj.running
    obtain rfl := Option.some.inj (hproc.symm.trans hproc')
    obtain ⟨reg', hrec', hdrafted⟩ := hj.proc
    obtain rfl := Option.some.inj (hproc.symm.trans hrec'.running)
    obtain ⟨dir', metadata, hdir', hmetadata, hpublished, htypes⟩ :=
      published_of_stop hflush hstop hend hproc hdrafted.ready
        (hdrafted.blank _ (by decide) (by decide))
    rw [hpath] at hdir'
    obtain rfl := Option.some.inj (hdir.symm.trans hdir')
    refine ⟨dir, reg, metadata, hdir, hwritten, hmetadata, hreachable, hpublished, htypes, ?_,
      hpainted.keep rfl fun id hid => by cases hid⟩
    intro x hx id hid
    rcases List.mem_append.mp hx with hx | hx
    · exact hrec.labels x hx id hid
    · obtain rfl := List.mem_singleton.mp hx
      cases hid

theorem Session.congr {start : UInt64} {trace : List (Action × Obs)} {path : ProcPath}
    {disk disk' : Disk} (h : Session pf start trace path disk)
    (hdisk : disk'.lookup path = disk.lookup path) : Session pf start trace path disk' where
  recorded := h.recorded
  sorted := h.sorted
  begun := h.begun
  written := by
    rw [hdisk]
    exact h.written

/-! ## Loading -/

structure LoadedSession (pf : Platform) (start : UInt64) (trace : List (Action × Obs))
    (proc : ProcData) : Prop where
  recorded : ∀ x ∈ trace, x.1.call.record? = x.2.payload?.map Payload.ids
  sorted : SortedBy Payload.time ((storedLog trace).map Prod.snd)
  begun : ∀ x ∈ storedLog trace, start ≤ x.2.timestamp
  anchored : Anchored proc
  folder : ∃ dir reg, WrittenFolder pf start trace reg.markerLabels dir ∧
    LoadedFolder start trace reg.markerLabels dir pf.getpid proc ∧
      Markers trace reg proc.metadata

theorem metadata_of_loadsAs {folder : String} {dir : ProcDir} {entry : ProcEntry}
    {metadata : Json} {proc : ProcData} (hlists : Lists folder dir entry)
    (hmetadata : dir.metadata = some metadata) (hload : LoadsAs entry proc) :
    proc.metadata = metadata := by
  obtain ⟨-, pid, json, files, tids, -, hjson, -, hanchors⟩ := loadsAs_iff.mp hload
  rw [hlists.metadata, ProcDir.metadataFile, hmetadata] at hjson
  obtain ⟨first, last, -, -, rfl⟩ := extractSyncAnchors_ok hanchors
  exact (Except.ok.inj hjson).symm

/-- The anchors of a loaded proc bound what its sorted files hold. -/
theorem anchored_of_loadsAs {entry : ProcEntry} {proc : ProcData} (hload : LoadsAs entry proc)
    (hsorted : ∀ traces ∈ proc.btsFiles, TimeSorted traces) : Anchored proc := by
  obtain ⟨-, pid, json, files, tids, -, -, -, hanchors⟩ := loadsAs_iff.mp hload
  refine anchored_of_extract hanchors ?_
  obtain ⟨first, last, -, -, rfl⟩ := extractSyncAnchors_ok hanchors
  exact hsorted

theorem Session.exists_loadsAs {start : UInt64} {trace : List (Action × Obs)} {path : ProcPath}
    {disk : Disk} (h : Session pf start trace path disk) {dir : ProcDir}
    (hdir : disk.lookup path = some dir) {entry : ProcEntry}
    (hlists : Lists (procFolder pf) dir entry) :
    ∃ proc, LoadsAs entry proc ∧ LoadedSession pf start trace proc := by
  obtain ⟨dir', reg, metadata, hdir', hwritten, hmetadata, hmarkers⟩ := h.written
  obtain rfl := Option.some.inj (hdir.symm.trans hdir')
  obtain ⟨proc, hload, hloaded⟩ := hwritten.exists_loadsAs h.begun hlists
  have hproc := metadata_of_loadsAs hlists hmetadata hload
  have hsorted : ∀ traces ∈ proc.btsFiles, TimeSorted traces := by
    intro traces htraces
    obtain ⟨e, he, rfl⟩ := List.mem_map.mp (hloaded.files.mem_iff.mp htraces)
    obtain ⟨t, -, hthread⟩ := hwritten.exists_thread he
    rw [hthread]
    exact h.sorted.sublist (sublist_storedBy t _)
  exact ⟨proc, hload, h.recorded, h.sorted, h.begun, anchored_of_loadsAs hload hsorted, dir, reg,
    hwritten, hloaded, hproc ▸ hmarkers⟩

end TraCR
