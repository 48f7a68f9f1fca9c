import TraCR.Core.World

/-!
# What a call does

One constructor for each way a call returns, with the tests it has passed and the
globals it leaves.  Later proofs go by cases on it and never unfold `step`.
-/

namespace TraCR

def TraCRProc.addMarker (proc : TraCRProc) (label : String) (colorId : UInt16) : TraCRProc :=
  { proc with
    markerTypes := proc.markerTypes.insert colorId label
    markerLabels := proc.markerLabels ++ [label]
    markerColorIds := proc.markerColorIds ++ [colorId] }

/-- Channel, event and extra id of the payload a recording call builds. -/
def Call.record? : Call → Option (UInt16 × UInt16 × UInt32)
  | .markSet channelId eventId extraId => some (channelId, eventId, extraId)
  | .markReset channelId => some (channelId, eventIdReset, uint32Max)
  | .flowStart channelId flowId => some (channelId, eventIdFlowStart, flowId)
  | .flowEnd channelId flowId => some (channelId, eventIdFlowEnd, flowId)
  | _ => none

def Call.update? : Call → Option (TraCRProc → TraCRProc)
  | .addCustomChannelNames names => some fun proc => proc.addCustomChannelNames names
  | .addNumberOfChannels n => some fun proc => proc.addNumberOfChannels n
  | _ => none

def Call.label? : Call → Option String
  | .markWColorAdd label _ => some label
  | .markAdd label => some label
  | _ => none

def Call.isSnapshot : Call → Bool
  | .getJsonStr => true
  | _ => false

def Call.isStart : Call → Bool
  | .start => true
  | _ => false

def Call.isStop : Call → Bool
  | .stop => true
  | _ => false

def Call.opensSession : Call → Bool
  | .start => true
  | .threadInit => true
  | _ => false

def Call.flushes : Call → Bool
  | .threadFinalize => true
  | .stop => true
  | _ => false

/-- The call registers `label` under `colorId` and leaves `lazy` as the next colour
to hand out. -/
inductive Call.Registers (lazyColorId : UInt16) :
    Call → String → UInt16 → UInt16 → Prop where
  | wColor (label : String) (colorId : UInt16) :
      Registers lazyColorId (.markWColorAdd label colorId) label colorId lazyColorId
  | add (label : String) :
      Registers lazyColorId (.markAdd label) label lazyColorId (lazyColorId + 1)

/-! A call is of one kind. -/

theorem others_of_record? {c : Call} {r : UInt16 × UInt16 × UInt32}
    (h : c.record? = some r) : c.update? = none ∧ c.label? = none ∧ c.isSnapshot = false ∧
      c.flushes = false ∧ c.opensSession = false := by
  cases c <;> first | exact ⟨rfl, rfl, rfl, rfl, rfl⟩ | cases h

theorem others_of_update? {c : Call} {f : TraCRProc → TraCRProc} (h : c.update? = some f) :
    c.record? = none ∧ c.label? = none ∧ c.isSnapshot = false ∧
      c.flushes = false ∧ c.opensSession = false := by
  cases c <;> first | exact ⟨rfl, rfl, rfl, rfl, rfl⟩ | cases h

theorem isStart_eq_false_of_opensSession {c : Call} (h : c.opensSession = false) :
    c.isStart = false := by
  cases c <;> first | rfl | cases h

theorem Call.Registers.others {c : Call} {label : String}
    {colorId lazyColorId lazyColorId' : UInt16}
    (h : c.Registers lazyColorId label colorId lazyColorId') :
    c.label? = some label ∧ c.record? = none ∧ c.update? = none ∧ c.isSnapshot = false ∧
      c.flushes = false ∧ c.opensSession = false := by
  cases h <;> exact ⟨rfl, rfl, rfl, rfl, rfl, rfl⟩

variable {b : Build}

/-- The call returns `o` and leaves the globals in the state given. -/
inductive Effect (pf : Platform) (w : World b) (a : Action) : Obs → World b → Prop where
  | start {proc : TraCRProc} {disk : Disk} (hcall : a.call = .start)
      (hproc : w.tracrProc = none) (hthread : w.tracrThread.lookup a.thread = none)
      (hfolders : w.createFolders
        (.create (pf.clock w.reads) (pf.gettid a.thread) pf.getpid) a.fault = .ok (proc, disk)) :
      Effect pf w a .nothing { w with
        tracrProc := some proc
        tracrThread := w.tracrThread.insert a.thread
          (.create b pf.memory (pf.gettid a.thread))
        tracrProcInit := true
        numTracrThreads := w.numTracrThreads + 1
        disk := disk
        reads := w.reads + 1 }
  | threadInit (hcall : a.call = .threadInit)
      (hthread : w.tracrThread.lookup a.thread = none) :
      Effect pf w a .nothing { w with
        tracrThread := w.tracrThread.insert a.thread
          (.create b pf.memory (pf.gettid a.thread))
        numTracrThreads := w.numTracrThreads + 1 }
  | threadFinalize {th : TraCRThread b} {disk : Disk} (hcall : a.call = .threadFinalize)
      (hthread : w.tracrThread.lookup a.thread = some th)
      (hflush : w.flushThread th a.fault = .ok disk) :
      Effect pf w a .nothing { w with
        tracrThread := w.tracrThread.erase a.thread
        numTracrThreads := w.numTracrThreads - 1
        disk := disk }
  | stop {proc : TraCRProc} {th : TraCRThread b} {w' : World b} (hcall : a.call = .stop)
      (hproc : w.tracrProc = some proc) (hthread : w.tracrThread.lookup a.thread = some th)
      (hflush : w.flushProc pf proc th a.fault = .ok w') :
      Effect pf w a .nothing { w' with
        tracrThread := w'.tracrThread.erase a.thread
        numTracrThreads := w'.numTracrThreads - 1
        tracrProc := none
        tracrProcInit := false }
  | register {proc : TraCRProc} {label : String} {colorId lazyColorId : UInt16}
      (hcall : a.call.Registers w.lazyColorId label colorId lazyColorId)
      (hproc : w.tracrProc = some proc)
      (hroom : proc.markerLabels.length < eventIdReservedMin.toNat)
      (hcolor : proc.markerTypes.lookup colorId = none) :
      Effect pf w a (.eventId (.ofNat proc.markerLabels.length)) { w with
        tracrProc := some (proc.addMarker label colorId)
        lazyColorId := lazyColorId }
  | untraced {channelId eventId : UInt16} {extraId : UInt32}
      (hcall : a.call.record? = some (channelId, eventId, extraId))
      (henabled : w.enableTracr = false) : Effect pf w a .nothing w
  | store {channelId eventId : UInt16} {extraId : UInt32} {th th' : TraCRThread b}
      (hcall : a.call.record? = some (channelId, eventId, extraId))
      (henabled : w.enableTracr = true)
      (hthread : w.tracrThread.lookup a.thread = some th)
      (hstore : th.storeTrace ⟨channelId, eventId, extraId, pf.clock w.reads⟩ = .ok th') :
      Effect pf w a (.stored ⟨channelId, eventId, extraId, pf.clock w.reads⟩) { w with
        tracrThread := w.tracrThread.insert a.thread th'
        reads := w.reads + 1 }
  | update {proc : TraCRProc} {f : TraCRProc → TraCRProc} (hcall : a.call.update? = some f)
      (hproc : w.tracrProc = some proc) :
      Effect pf w a .nothing { w with tracrProc := some (f proc) }
  | snapshot {proc : TraCRProc} (hcall : a.call = .getJsonStr) (hproc : w.tracrProc = some proc) :
      Effect pf w a (.document (.object (proc.writeJSON (pf.clock w.reads)).jsonFile)) { w with
        tracrProc := some (proc.writeJSON (pf.clock w.reads))
        reads := w.reads + 1 }
  | on (hcall : a.call = .on) : Effect pf w a .nothing { w with enableTracr := true }
  | off (hcall : a.call = .off) : Effect pf w a .nothing { w with enableTracr := false }
  | tracePath {path : String} (hcall : a.call = .tracePath path) :
      Effect pf w a .nothing { w with traceFolderPath := path }

section Calls

variable {pf : Platform} {w w' : World b} {a : Action} {o : Obs}

theorem silent_ok {x : Except Stop (World b)}
    (h : x.map (Prod.mk Obs.nothing) = .ok (o, w')) : o = .nothing ∧ x = .ok w' := by
  cases x with
  | error e => cases h
  | ok w =>
      obtain ⟨rfl, rfl⟩ := Prod.mk.inj (Except.ok.inj h)
      exact ⟨rfl, rfl⟩

theorem map_ok {α : Type} {f : α → Obs} {x : Except Stop (α × World b)}
    (h : x.map (Prod.map f id) = .ok (o, w')) : ∃ r, o = f r ∧ x = .ok (r, w') := by
  cases x with
  | error e => cases h
  | ok r =>
      obtain ⟨rfl, rfl⟩ := Prod.mk.inj (Except.ok.inj h)
      exact ⟨r.1, rfl, rfl⟩

theorem effect_start (hcall : a.call = .start)
    (h : w.instrumentationStart pf a.thread a.fault = .ok w') :
    Effect pf w a .nothing w' := by
  unfold World.instrumentationStart at h
  split at h
  · cases h
  next hproc =>
    simp only at h
    split at h
    · cases h
    next proc disk hfolders =>
      simp only [World.instrumentationThreadInit] at h
      split at h
      · cases h
      next hinit =>
        split at hinit
        · cases hinit
        next hthread =>
          obtain rfl := Except.ok.inj hinit
          obtain rfl := Except.ok.inj h
          exact .start hcall hproc hthread hfolders

theorem effect_threadInit (hcall : a.call = .threadInit)
    (h : w.instrumentationThreadInit pf a.thread = .ok w') : Effect pf w a .nothing w' := by
  unfold World.instrumentationThreadInit at h
  split at h
  · cases h
  next hthread =>
    obtain rfl := Except.ok.inj h
    exact .threadInit hcall hthread

theorem effect_threadFinalize (hcall : a.call = .threadFinalize)
    (h : w.instrumentationThreadFinalize a.thread a.fault = .ok w') :
    Effect pf w a .nothing w' := by
  unfold World.instrumentationThreadFinalize at h
  split at h
  · cases h
  next th hthread =>
    split at h
    · cases h
    next disk hflush =>
      obtain rfl := Except.ok.inj h
      exact .threadFinalize hcall hthread hflush

theorem effect_stop (hcall : a.call = .stop)
    (h : w.instrumentationEnd pf a.thread a.fault = .ok w') : Effect pf w a .nothing w' := by
  unfold World.instrumentationEnd at h
  split at h
  · cases h
  next proc hproc =>
    split at h
    · cases h
    next th hthread =>
      split at h
      · cases h
      next w₁ hflush =>
        obtain rfl := Except.ok.inj h
        exact .stop hcall hproc hthread hflush

theorem effect_markWColorAdd {label : String} {colorId id : UInt16}
    (hcall : a.call = .markWColorAdd label colorId)
    (h : w.instrumentationMarkWColorAdd label colorId = .ok (id, w')) :
    Effect pf w a (.eventId id) w' := by
  unfold World.instrumentationMarkWColorAdd at h
  split at h
  · cases h
  next proc hproc =>
    split at h
    · cases h
    next hroom =>
      split at h
      · cases h
      next hcolor =>
        simp only [List.length_append, List.length_singleton, Nat.add_sub_cancel] at h
        obtain ⟨rfl, rfl⟩ := Prod.mk.inj (Except.ok.inj h)
        exact .register (hcall ▸ .wColor label colorId) hproc (Nat.lt_of_not_le hroom)
          (Option.not_isSome_iff_eq_none.mp hcolor)

theorem effect_markAdd {label : String} {id : UInt16} (hcall : a.call = .markAdd label)
    (h : w.instrumentationMarkAdd label = .ok (id, w')) : Effect pf w a (.eventId id) w' := by
  unfold World.instrumentationMarkAdd at h
  split at h
  · cases h
  next proc hproc =>
    split at h
    · cases h
    next hroom =>
      simp only at h
      split at h
      · cases h
      next hcolor =>
        simp only [List.length_append, List.length_singleton, Nat.add_sub_cancel] at h
        obtain ⟨rfl, rfl⟩ := Prod.mk.inj (Except.ok.inj h)
        exact .register (hcall ▸ .add label) hproc (Nat.lt_of_not_le hroom)
          (Option.not_isSome_iff_eq_none.mp hcolor)

theorem effect_record {channelId eventId : UInt16} {extraId : UInt32}
    (hcall : a.call.record? = some (channelId, eventId, extraId)) {r : Option Payload}
    (h : w.record pf a.thread channelId eventId extraId = .ok (r, w')) :
    Effect pf w a (.ofRecord r) w' := by
  unfold World.record at h
  split at h
  next hdisabled =>
    obtain ⟨rfl, rfl⟩ := Prod.mk.inj (Except.ok.inj h)
    exact .untraced hcall (by simpa using hdisabled)
  next henabled =>
    simp only at h
    split at h
    · cases h
    next th hthread =>
      split at h
      · cases h
      next th' hstore =>
        obtain ⟨rfl, rfl⟩ := Prod.mk.inj (Except.ok.inj h)
        exact .store hcall (by simpa using henabled) hthread hstore

theorem effect_updateProc {f : TraCRProc → TraCRProc} (hcall : a.call.update? = some f)
    (h : w.updateProc f = .ok w') : Effect pf w a .nothing w' := by
  unfold World.updateProc at h
  split at h
  · cases h
  next proc hproc =>
    obtain rfl := Except.ok.inj h
    exact .update hcall hproc

theorem effect_getJsonStr (hcall : a.call = .getJsonStr) {j : Json}
    (h : w.instrumentationGetJsonStr pf = .ok (j, w')) : Effect pf w a (.document j) w' := by
  unfold World.instrumentationGetJsonStr at h
  split at h
  · cases h
  next proc hproc =>
    obtain ⟨rfl, rfl⟩ := Prod.mk.inj (Except.ok.inj h)
    exact .snapshot hcall hproc

/-- A call that returns has one of these effects. -/
theorem effect_of_step (h : step pf w a = .ok (o, w')) : Effect pf w a o w' := by
  unfold step at h
  simp only at h
  split at h
  case h_1 hcall =>
    obtain ⟨rfl, hw⟩ := silent_ok h
    exact effect_start hcall hw
  case h_2 hcall =>
    obtain ⟨rfl, hw⟩ := silent_ok h
    exact effect_stop hcall hw
  case h_3 hcall =>
    obtain ⟨rfl, hw⟩ := silent_ok h
    exact effect_threadInit hcall hw
  case h_4 hcall =>
    obtain ⟨rfl, hw⟩ := silent_ok h
    exact effect_threadFinalize hcall hw
  case h_5 label colorId hcall =>
    obtain ⟨id, rfl, hw⟩ := map_ok h
    exact effect_markWColorAdd hcall hw
  case h_6 label hcall =>
    obtain ⟨id, rfl, hw⟩ := map_ok h
    exact effect_markAdd hcall hw
  case h_7 channelId eventId extraId hcall =>
    obtain ⟨r, rfl, hw⟩ := map_ok h
    exact effect_record (hcall ▸ rfl) hw
  case h_8 channelId hcall =>
    obtain ⟨r, rfl, hw⟩ := map_ok h
    exact effect_record (hcall ▸ rfl) hw
  case h_9 channelId flowId hcall =>
    obtain ⟨r, rfl, hw⟩ := map_ok h
    exact effect_record (hcall ▸ rfl) hw
  case h_10 channelId flowId hcall =>
    obtain ⟨r, rfl, hw⟩ := map_ok h
    exact effect_record (hcall ▸ rfl) hw
  case h_11 names hcall =>
    obtain ⟨rfl, hw⟩ := silent_ok h
    exact effect_updateProc (hcall ▸ rfl) hw
  case h_12 n hcall =>
    obtain ⟨rfl, hw⟩ := silent_ok h
    exact effect_updateProc (hcall ▸ rfl) hw
  case h_13 hcall =>
    obtain ⟨j, rfl, hw⟩ := map_ok h
    exact effect_getJsonStr hcall hw
  case h_14 hcall =>
    obtain ⟨rfl, rfl⟩ := Prod.mk.inj (Except.ok.inj h)
    exact .on hcall
  case h_15 hcall =>
    obtain ⟨rfl, rfl⟩ := Prod.mk.inj (Except.ok.inj h)
    exact .off hcall
  case h_16 path hcall =>
    obtain ⟨rfl, rfl⟩ := Prod.mk.inj (Except.ok.inj h)
    exact .tracePath hcall

theorem start_of_step (hcall : a.call = .start) (h : step pf w a = .ok (o, w')) :
    o = .nothing ∧ w.tracrProc = none ∧ w.tracrThread.lookup a.thread = none ∧
      ∃ proc disk, w.createFolders
          (.create (pf.clock w.reads) (pf.gettid a.thread) pf.getpid) a.fault =
            .ok (proc, disk) ∧
        w' = { w with
          tracrProc := some proc
          tracrThread := w.tracrThread.insert a.thread
            (.create b pf.memory (pf.gettid a.thread))
          tracrProcInit := true
          numTracrThreads := w.numTracrThreads + 1
          disk := disk
          reads := w.reads + 1 } := by
  cases effect_of_step h with
  | start _ hproc hthread hfolders => exact ⟨rfl, hproc, hthread, _, _, hfolders, rfl⟩
  | stop hother | threadInit hother | threadFinalize hother | on hother | off hother
  | tracePath hother | untraced hother | store hother | update hother | snapshot hother
  | register hother => rw [hcall] at hother; cases hother

theorem stop_of_step (hcall : a.call = .stop) (h : step pf w a = .ok (o, w')) :
    o = .nothing ∧ ∃ proc th w₁, w.tracrProc = some proc ∧
      w.tracrThread.lookup a.thread = some th ∧
        w.flushProc pf proc th a.fault = .ok w₁ ∧
          w' = { w₁ with
            tracrThread := w₁.tracrThread.erase a.thread
            numTracrThreads := w₁.numTracrThreads - 1
            tracrProc := none
            tracrProcInit := false } := by
  cases effect_of_step h with
  | stop _ hproc hthread hflush => exact ⟨rfl, _, _, _, hproc, hthread, hflush, rfl⟩
  | start hother | threadInit hother | threadFinalize hother | on hother | off hother
  | tracePath hother | untraced hother | store hother | update hother | snapshot hother
  | register hother => rw [hcall] at hother; cases hother

theorem getFolderPath_of_update? {c : Call} {f : TraCRProc → TraCRProc}
    (h : c.update? = some f) (proc : TraCRProc) :
    (f proc).getFolderPath = proc.getFolderPath := by
  cases c <;> cases h <;> rfl

end Calls

/-! ## The file operations -/

section Files

variable {pf : Platform} {w w' : World b} {proc : TraCRProc} {th : TraCRThread b}
  {fault : Fault}

theorem flushThread_ok (hflush : b.disableFlush = false) {disk : Disk}
    (h : w.flushThread th fault = .ok disk) :
    ∃ proc, w.tracrProc = some proc ∧
      th.flushTraces w.disk proc.getFolderPath fault = .ok disk := by
  unfold World.flushThread at h
  rw [hflush, if_neg Bool.false_ne_true] at h
  split at h
  · cases h
  next proc hproc =>
    exact ⟨proc, hproc, h⟩

theorem flushProc_ok (hflush : b.disableFlush = false)
    (h : w.flushProc pf proc th fault = .ok w') :
    w.numTracrThreads = 1 ∧ ∃ disk dir reads,
      th.flushTraces w.disk proc.getFolderPath fault = .ok disk ∧
        disk.lookup proc.getFolderPath = some dir ∧
          w' = { w with
            disk := disk.insert proc.getFolderPath
              { dir with metadata := some (.object (proc.dumped pf.clock w.reads).jsonFile) }
            reads := reads } := by
  unfold World.flushProc at h
  rw [hflush, if_neg Bool.false_ne_true] at h
  split at h
  · cases h
  next hone =>
    split at h
    · cases h
    next disk hdisk =>
      split at h
      · cases h
      next proc' reads disk' hdump =>
        obtain ⟨dir, hdir, rfl⟩ := TraCRProc.dumpJSON_ok hdump
        exact ⟨not_not.mp hone, disk, dir, reads, hdisk, hdir, (Except.ok.inj h).symm⟩

/-- Where flushing is compiled in, a new proc gets a folder below the shared one,
and keeps what is already in it. -/
theorem createFolders_ok (hflush : b.disableFlush = false) {made : TraCRProc} {disk : Disk}
    (h : w.createFolders proc fault = .ok (made, disk)) :
    made = { proc with
        procFolderName := { proc.procFolderName with base := w.traceFolderPath ++ "tracr/" } } ∧
      disk = w.disk.insert made.getFolderPath
        ((w.disk.lookup made.getFolderPath).getD { metadata := none, threads := ∅ }) := by
  unfold World.createFolders at h
  rw [hflush, if_neg Bool.false_ne_true] at h
  split at h
  · cases h
  next made' hmade =>
    unfold TraCRProc.createFolderRecursive at hmade
    simp only at hmade
    split at hmade
    · cases hmade
    · obtain rfl := Option.some.inj hmade
      obtain ⟨rfl, rfl⟩ := Prod.mk.inj (Except.ok.inj h)
      exact ⟨rfl, rfl⟩

theorem exists_of_flushProc (h : w.flushProc pf proc th fault = .ok w') :
    ∃ disk reads, w' = { w with disk := disk, reads := reads } := by
  by_cases hflush : b.disableFlush = true
  · unfold World.flushProc at h
    rw [if_pos hflush] at h
    obtain rfl := Except.ok.inj h
    exact ⟨w.disk, w.reads, rfl⟩
  · obtain ⟨-, disk, dir, reads, -, -, rfl⟩ := flushProc_ok (Bool.eq_false_of_not_eq_true hflush) h
    exact ⟨_, reads, rfl⟩

theorem exists_of_createFolders {made : TraCRProc} {disk : Disk}
    (h : w.createFolders proc fault = .ok (made, disk)) :
    ∃ name, made = { proc with procFolderName := name } := by
  by_cases hflush : b.disableFlush = true
  · unfold World.createFolders at h
    rw [if_pos hflush] at h
    obtain ⟨rfl, -⟩ := Prod.mk.inj (Except.ok.inj h)
    exact ⟨proc.procFolderName, rfl⟩
  · obtain ⟨rfl, -⟩ := createFolders_ok (Bool.eq_false_of_not_eq_true hflush) h
    exact ⟨_, rfl⟩

/-- A flush that returns changes the file of the thread alone. -/
theorem lookup_of_flushTraces {disk disk' : Disk} {path : ProcPath} {dir : ProcDir}
    (hdir : disk.lookup path = some dir) (h : th.flushTraces disk path fault = .ok disk') :
    disk'.lookup path = some { dir with
      threads := if th.traceIdx = 0 then dir.threads
        else dir.threads.insert (TraCRThread.folderName th.tid) (payloadBytes th.written) } := by
  rcases TraCRThread.flushTraces_ok h with ⟨hzero, rfl⟩ | ⟨hpos, dir', hdir', rfl⟩
  · rw [hdir, if_pos hzero]
  · obtain rfl := Option.some.inj (hdir.symm.trans hdir')
    rw [AList.lookup_insert, if_neg hpos]

theorem lookup_of_flushTraces_ne {disk disk' : Disk} {path path' : ProcPath}
    (hne : path' ≠ path) (h : th.flushTraces disk path fault = .ok disk') :
    disk'.lookup path' = disk.lookup path' := by
  rcases TraCRThread.flushTraces_ok h with ⟨-, rfl⟩ | ⟨-, dir, -, rfl⟩
  · rfl
  · exact AList.lookup_insert_ne hne

end Files

end TraCR
