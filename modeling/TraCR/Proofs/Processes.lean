import TraCR.Core.Processes
import TraCR.Proofs.Folder

/-!
# Processes do not disturb each other

`getpid()` keeps the folders of concurrent processes apart, and a call reads and writes the
folder of its own process only.  So every process of a job records what it would record
alone.
-/

namespace TraCR

open TraCR.Lib TraCR.Lib.Run TraCR.Lib.Sharing TraCR.Lib.Interleaving

variable {b : Build} {pf : Platform}

/-! ## Files -/

def SameFiles (folder : String) (disk disk' : Disk) : Prop :=
  ∀ path : ProcPath, path.folder = folder → disk'.lookup path = disk.lookup path

section Files

variable {folder : String} {disk disk' : Disk} {path : ProcPath}

theorem SameFiles.insert (h : SameFiles folder disk disk') (path : ProcPath) (dir : ProcDir) :
    SameFiles folder (disk.insert path dir) (disk'.insert path dir) := by
  intro path' hpath'
  by_cases heq : path' = path
  · rw [heq, AList.lookup_insert, AList.lookup_insert]
  · rw [AList.lookup_insert_ne heq, AList.lookup_insert_ne heq]
    exact h path' hpath'

/-- A flush fails alike or changes the folder alike. -/
theorem flushTraces_cases (h : SameFiles folder disk disk') (hpath : path.folder = folder)
    (th : TraCRThread b) (fault : Fault) :
    (∃ e, th.flushTraces disk path fault = .error e ∧ th.flushTraces disk' path fault = .error e) ∨
      ∃ made made', th.flushTraces disk path fault = .ok made ∧
        th.flushTraces disk' path fault = .ok made' ∧ SameFiles folder made made' := by
  unfold TraCRThread.flushTraces
  rw [h path hpath]
  by_cases hzero : th.traceIdx = 0
  · rw [if_pos hzero, if_pos hzero]
    exact .inr ⟨_, _, rfl, rfl, h⟩
  · rw [if_neg hzero, if_neg hzero]
    simp only
    cases disk.lookup path with
    | none => exact .inl ⟨_, rfl, rfl⟩
    | some dir =>
        cases fault with
        | mkdir | openTraces | writeTraces _ | closeTraces _ => exact .inl ⟨_, rfl, rfl⟩
        | none | openMetadata => exact .inr ⟨_, _, rfl, rfl, h.insert path _⟩

theorem dumpJSON_cases (h : SameFiles folder disk disk') {proc : TraCRProc}
    (hproc : proc.getFolderPath.folder = folder) (clock : Nat → UInt64) (reads : Nat)
    (fault : Fault) :
    (∃ e, proc.dumpJSON clock reads disk fault = .error e ∧
      proc.dumpJSON clock reads disk' fault = .error e) ∨
    ∃ proc' reads' made made', proc.dumpJSON clock reads disk fault = .ok (proc', reads', made) ∧
      proc.dumpJSON clock reads disk' fault = .ok (proc', reads', made') ∧
      SameFiles folder made made' := by
  rw [TraCRProc.dumpJSON_eq, TraCRProc.dumpJSON_eq, h _ hproc]
  simp only
  by_cases hfault : fault = .openMetadata
  · rw [if_pos hfault, if_pos hfault]
    exact .inl ⟨_, rfl, rfl⟩
  · rw [if_neg hfault, if_neg hfault]
    cases disk.lookup proc.getFolderPath with
    | none => exact .inl ⟨_, rfl, rfl⟩
    | some dir => exact .inr ⟨_, _, _, _, rfl, rfl, h.insert _ _⟩

end Files

/-! ## What a call leaves -/

/-- Two leftovers with the same contents under `folder`, and no thread folder elsewhere. -/
structure SameLeftover (folder : String) (left left' : Leftover) : Prop where
  files : SameFiles folder left.disk left'.disk
  bare : left'.bare = left.bare
  own : ∀ path name, left.bare = some (path, name) → path.folder = folder

section Leftovers

variable {folder : String} {disk disk' : Disk} {path other : ProcPath} {w : World b} {a : Action}

theorem SameFiles.leftover (h : SameFiles folder disk disk') :
    SameLeftover folder ⟨disk, none⟩ ⟨disk', none⟩ :=
  ⟨h, rfl, nofun⟩

theorem sameLeftover_flushLeaves (h : SameFiles folder disk disk') (hpath : path.folder = folder)
    (th : TraCRThread b) (fault : Fault) :
    SameLeftover folder (th.flushLeaves disk path fault) (th.flushLeaves disk' path fault) := by
  unfold TraCRThread.flushLeaves
  rw [h path hpath]
  by_cases hzero : th.traceIdx = 0
  · rw [if_pos hzero, if_pos hzero]
    exact h.leftover
  · rw [if_neg hzero, if_neg hzero]
    cases disk.lookup path with
    | none => exact h.leftover
    | some dir =>
        cases fault with
        | mkdir => exact h.leftover
        | openTraces =>
            refine ⟨h, rfl, fun path' name hbare => ?_⟩
            dsimp only at hbare
            split at hbare
            · cases hbare
            · obtain ⟨rfl, -⟩ := Prod.mk.inj (Option.some.inj hbare)
              exact hpath
        | none | openMetadata | writeTraces _ | closeTraces _ => exact (h.insert path _).leftover

theorem sameLeftover_leaves (hfiles : SameFiles (procFolder pf) w.disk disk)
    (hown : ∀ proc, w.tracrProc = some proc → proc.getFolderPath.folder = procFolder pf) :
    SameLeftover (procFolder pf) (w.leaves pf a) (World.leaves pf { w with disk := disk } a) := by
  unfold World.leaves
  cases a.call with
  | start =>
      dsimp only
      unfold World.startLeaves World.createFolders TraCRProc.createFolderRecursive
      cases w.tracrProc with
      | some proc => exact hfiles.leftover
      | none =>
          by_cases hdisabled : b.disableFlush = true
          · simp only [if_pos hdisabled]
            exact hfiles.leftover
          · simp only [if_neg hdisabled]
            by_cases hfault : a.fault = .mkdir
            · simp only [if_pos hfault]
              exact hfiles.leftover
            · simp only [if_neg hfault]
              rw [hfiles _ rfl]
              exact (hfiles.insert _ _).leftover
  | threadFinalize =>
      dsimp only
      cases w.tracrThread.lookup a.thread with
      | none => exact hfiles.leftover
      | some th =>
          dsimp only
          unfold World.flushThreadLeaves
          by_cases hdisabled : b.disableFlush = true
          · rw [if_pos hdisabled, if_pos hdisabled]
            exact hfiles.leftover
          · rw [if_neg hdisabled, if_neg hdisabled]
            cases hproc : w.tracrProc with
            | none => exact hfiles.leftover
            | some proc => exact sameLeftover_flushLeaves hfiles (hown proc hproc) th a.fault
  | stop =>
      dsimp only
      cases hproc : w.tracrProc with
      | none => exact hfiles.leftover
      | some proc =>
          cases w.tracrThread.lookup a.thread with
          | none => exact hfiles.leftover
          | some th =>
              dsimp only
              unfold World.flushProcLeaves
              by_cases hdisabled : b.disableFlush = true
              · rw [if_pos hdisabled, if_pos hdisabled]
                exact hfiles.leftover
              · rw [if_neg hdisabled, if_neg hdisabled]
                by_cases hone : w.numTracrThreads ≠ 1
                · rw [if_pos hone, if_pos hone]
                  exact hfiles.leftover
                · rw [if_neg hone, if_neg hone]
                  rcases flushTraces_cases hfiles (hown proc hproc) th a.fault with
                    ⟨e, hw, hv⟩ | ⟨made, made', hw, hv, hmade⟩
                  · rw [hw, hv]
                    exact sameLeftover_flushLeaves hfiles (hown proc hproc) th a.fault
                  · rw [hw, hv]
                    dsimp only
                    rcases dumpJSON_cases hmade (hown proc hproc) pf.clock w.reads a.fault with
                      ⟨e, hw', hv'⟩ | ⟨_, _, _, _, hw', hv', hlast⟩
                    · rw [hw', hv']
                      exact hmade.leftover
                    · rw [hw', hv']
                      exact hlast.leftover
  | _ => exact hfiles.leftover

theorem lookup_of_flushLeaves (hne : other ≠ path) (th : TraCRThread b) (fault : Fault) :
    (th.flushLeaves disk path fault).disk.lookup other = disk.lookup other := by
  unfold TraCRThread.flushLeaves
  split
  case isTrue => rfl
  case isFalse =>
    split
    case h_1 => rfl
    case h_2 dir hdir =>
      cases fault with
      | mkdir | openTraces => rfl
      | none | openMetadata | writeTraces _ | closeTraces _ => exact AList.lookup_insert_ne hne

/-- A call leaves the other folders as they are. -/
theorem lookup_of_leaves
    (hown : ∀ proc, w.tracrProc = some proc → proc.getFolderPath.folder = procFolder pf)
    (hother : other.folder ≠ procFolder pf) :
    (w.leaves pf a).disk.lookup other = w.disk.lookup other := by
  have hne : ∀ {path : ProcPath}, path.folder = procFolder pf → other ≠ path := by
    rintro path hfolder rfl
    exact hother hfolder
  unfold World.leaves
  cases a.call with
  | start =>
      dsimp only
      unfold World.startLeaves
      split
      case h_1 => rfl
      case h_2 =>
        split
        case h_1 => rfl
        case h_2 made disk hmade =>
          by_cases hdisabled : b.disableFlush = true
          · unfold World.createFolders at hmade
            rw [if_pos hdisabled] at hmade
            obtain ⟨-, rfl⟩ := Prod.mk.inj (Except.ok.inj hmade)
            rfl
          · obtain ⟨rfl, rfl⟩ := createFolders_ok (Bool.eq_false_of_not_eq_true hdisabled) hmade
            exact AList.lookup_insert_ne (hne rfl)
  | threadFinalize =>
      dsimp only
      split
      case h_1 => rfl
      case h_2 th hthread =>
        unfold World.flushThreadLeaves
        split
        case isTrue => rfl
        case isFalse =>
          split
          case h_1 => rfl
          case h_2 proc hproc => exact lookup_of_flushLeaves (hne (hown proc hproc)) th a.fault
  | stop =>
      dsimp only
      split
      case h_2 => rfl
      case h_1 proc th hproc hthread =>
        have hpath := hne (hown proc hproc)
        unfold World.flushProcLeaves
        split_ifs
        · rfl
        · rfl
        · cases hflush : th.flushTraces w.disk proc.getFolderPath a.fault with
          | error e => exact lookup_of_flushLeaves hpath th a.fault
          | ok disk =>
              dsimp only
              cases hdump : proc.dumpJSON pf.clock w.reads disk a.fault with
              | error e => exact lookup_of_flushTraces_ne hpath hflush
              | ok out =>
                  obtain ⟨dir, -, hlast⟩ := TraCRProc.dumpJSON_ok hdump
                  show out.2.2.lookup other = _
                  rw [hlast, AList.lookup_insert_ne hpath]
                  exact lookup_of_flushTraces_ne hpath hflush
  | _ => rfl

theorem leaves_of_other (hflush : a.call.flushes = false) (hstart : a.call.isStart = false) :
    w.leaves pf a = ⟨w.disk, none⟩ := by
  unfold World.leaves
  generalize a.call = c at hflush hstart
  cases c with
  | start => cases hstart
  | stop | threadFinalize => cases hflush
  | _ => rfl

theorem flushLeaves_of_ok {th : TraCRThread b} {fault : Fault}
    (h : th.flushTraces disk path fault = .ok disk') :
    th.flushLeaves disk path fault = ⟨disk', none⟩ := by
  unfold TraCRThread.flushTraces at h
  unfold TraCRThread.flushLeaves
  by_cases hzero : th.traceIdx = 0
  · rw [if_pos hzero] at h ⊢
    rw [Except.ok.inj h]
  · rw [if_neg hzero] at h ⊢
    cases hdir : disk.lookup path with
    | none =>
        simp only [hdir] at h
        cases h
    | some dir =>
        simp only [hdir] at h
        cases fault with
        | mkdir | openTraces | writeTraces _ | closeTraces _ => cases h
        | none | openMetadata => rw [← Except.ok.inj h]

theorem flushProcLeaves_of_ok {w w' : World b} {proc : TraCRProc} {th : TraCRThread b}
    {fault : Fault} (h : w.flushProc pf proc th fault = .ok w') :
    w.flushProcLeaves pf proc th fault = ⟨w'.disk, none⟩ := by
  unfold World.flushProc at h
  unfold World.flushProcLeaves
  by_cases hdisabled : b.disableFlush = true
  · rw [if_pos hdisabled] at h ⊢
    rw [Except.ok.inj h]
  rw [if_neg hdisabled] at h ⊢
  by_cases hothers : w.numTracrThreads ≠ 1
  · rw [if_pos hothers] at h
    cases h
  rw [if_neg hothers] at h ⊢
  cases hflushed : th.flushTraces w.disk proc.getFolderPath fault with
  | error e =>
      rw [hflushed] at h
      cases h
  | ok disk =>
      rw [hflushed] at h
      dsimp only at h ⊢
      cases hdump : proc.dumpJSON pf.clock w.reads disk fault with
      | error e =>
          rw [hdump] at h
          cases h
      | ok dumped =>
          rw [hdump] at h
          rw [← Except.ok.inj h]

theorem leaves_of_step {w' : World b} {o : Obs} (h : step pf w a = .ok (o, w')) :
    w.leaves pf a = ⟨w'.disk, none⟩ := by
  cases effect_of_step h with
  | start hcall hproc hthread hfolders =>
      unfold World.leaves World.startLeaves
      simp only [hcall, hproc, hfolders]
  | threadFinalize hcall hthread hflush =>
      unfold World.leaves World.flushThreadLeaves
      simp only [hcall, hthread]
      by_cases hdisabled : b.disableFlush = true
      · unfold World.flushThread at hflush
        rw [if_pos hdisabled] at hflush ⊢
        rw [Except.ok.inj hflush]
      · obtain ⟨proc, hproc, hflushed⟩ :=
          flushThread_ok (Bool.eq_false_of_not_eq_true hdisabled) hflush
        rw [if_neg hdisabled, hproc]
        exact flushLeaves_of_ok hflushed
  | stop hcall hproc hthread hflush =>
      unfold World.leaves
      simp only [hcall, hproc, hthread]
      exact flushProcLeaves_of_ok hflush
  | register hcall =>
      obtain ⟨-, -, -, -, hflushes, hopens⟩ := hcall.others
      exact leaves_of_other hflushes (isStart_eq_false_of_opensSession hopens)
  | untraced hcall =>
      obtain ⟨-, -, -, hflushes, hopens⟩ := others_of_record? hcall
      exact leaves_of_other hflushes (isStart_eq_false_of_opensSession hopens)
  | store hcall =>
      obtain ⟨-, -, -, hflushes, hopens⟩ := others_of_record? hcall
      exact leaves_of_other hflushes (isStart_eq_false_of_opensSession hopens)
  | update hcall =>
      obtain ⟨-, -, -, hflushes, hopens⟩ := others_of_update? hcall
      exact leaves_of_other hflushes (isStart_eq_false_of_opensSession hopens)
  | threadInit hcall => exact leaves_of_other (by rw [hcall]; rfl) (by rw [hcall]; rfl)
  | snapshot hcall => exact leaves_of_other (by rw [hcall]; rfl) (by rw [hcall]; rfl)
  | on hcall => exact leaves_of_other (by rw [hcall]; rfl) (by rw [hcall]; rfl)
  | off hcall => exact leaves_of_other (by rw [hcall]; rfl) (by rw [hcall]; rfl)
  | tracePath hcall => exact leaves_of_other (by rw [hcall]; rfl) (by rw [hcall]; rfl)

end Leftovers

/-! ## One call -/

/-- Two worlds that differ at most in the files outside the folder of the proc. -/
structure SameFolder (folder : String) (w v : World b) : Prop where
  globals : v = { w with disk := v.disk }
  files : SameFiles folder w.disk v.disk
  own : ∀ proc, w.tracrProc = some proc → proc.getFolderPath.folder = folder

section Calls

variable {folder : String} {w : World b} {disk : Disk}

abbrev AlikeResult (folder : String) (x y : Except Stop (World b)) : Prop :=
  Outcomes (SameFolder folder) (x.map (Prod.mk Obs.nothing)) (y.map (Prod.mk Obs.nothing))

variable (hfiles : SameFiles folder w.disk disk)
  (hown : ∀ proc, w.tracrProc = some proc → proc.getFolderPath.folder = folder)

include hfiles hown

theorem alikeResult_threadInit (t : OsThread) :
    AlikeResult folder (w.instrumentationThreadInit pf t)
      (World.instrumentationThreadInit pf { w with disk := disk } t) := by
  unfold World.instrumentationThreadInit
  simp only
  cases w.tracrThread.lookup t with
  | some th => exact .error
  | none => exact .ok ⟨rfl, hfiles, hown⟩

theorem alikeResult_threadFinalize (t : OsThread) (fault : Fault) :
    AlikeResult folder (w.instrumentationThreadFinalize t fault)
      (World.instrumentationThreadFinalize { w with disk := disk } t fault) := by
  unfold World.instrumentationThreadFinalize World.flushThread
  simp only
  cases w.tracrThread.lookup t with
  | none => exact .error
  | some th =>
      simp only
      by_cases hdisabled : b.disableFlush = true
      · rw [if_pos hdisabled, if_pos hdisabled]
        exact .ok ⟨rfl, hfiles, hown⟩
      · rw [if_neg hdisabled, if_neg hdisabled]
        cases hproc : w.tracrProc with
        | none => exact .error
        | some proc =>
            simp only
            rcases flushTraces_cases hfiles (hown proc hproc) th fault with
              ⟨e, hw, hv⟩ | ⟨made, made', hw, hv, hmade⟩
            · rw [hw, hv]
              exact .error
            · rw [hw, hv]
              exact .ok ⟨rfl, hmade, fun proc' hproc' => hown proc' (hproc ▸ hproc')⟩

theorem alikeResult_stop (t : OsThread) (fault : Fault) :
    AlikeResult folder (w.instrumentationEnd pf t fault)
      (World.instrumentationEnd pf { w with disk := disk } t fault) := by
  unfold World.instrumentationEnd World.flushProc
  simp only
  cases hproc : w.tracrProc with
  | none => exact .error
  | some proc =>
      simp only
      cases w.tracrThread.lookup t with
      | none => exact .error
      | some th =>
          simp only
          by_cases hdisabled : b.disableFlush = true
          · rw [if_pos hdisabled, if_pos hdisabled]
            exact .ok ⟨rfl, hfiles, fun proc' hproc' => nomatch hproc'⟩
          · rw [if_neg hdisabled, if_neg hdisabled]
            by_cases hone : w.numTracrThreads ≠ 1
            · rw [if_pos hone, if_pos hone]
              exact .error
            · rw [if_neg hone, if_neg hone]
              rcases flushTraces_cases hfiles (hown proc hproc) th fault with
                ⟨e, hw, hv⟩ | ⟨made, made', hw, hv, hmade⟩
              · rw [hw, hv]
                exact .error
              · rw [hw, hv]
                simp only
                rcases dumpJSON_cases hmade (hown proc hproc) pf.clock w.reads fault with
                  ⟨e, hw', hv'⟩ | ⟨_, _, _, _, hw', hv', hlast⟩
                · rw [hw', hv']
                  exact .error
                · rw [hw', hv']
                  exact .ok ⟨rfl, hlast, fun proc' hproc' => nomatch hproc'⟩

omit hown in
theorem alikeResult_start (t : OsThread) (fault : Fault) (hfolder : folder = procFolder pf) :
    AlikeResult folder (w.instrumentationStart pf t fault)
      (World.instrumentationStart pf { w with disk := disk } t fault) := by
  unfold World.instrumentationStart World.createFolders World.instrumentationThreadInit
  simp only
  cases w.tracrProc with
  | some proc => exact .error
  | none =>
      simp only
      by_cases hdisabled : b.disableFlush = true
      · rw [if_pos hdisabled, if_pos hdisabled]
        simp only
        cases w.tracrThread.lookup t with
        | some th => exact .error
        | none =>
            exact .ok ⟨rfl, hfiles, fun proc hproc => Option.some.inj hproc ▸ hfolder.symm⟩
      · rw [if_neg hdisabled, if_neg hdisabled]
        unfold TraCRProc.createFolderRecursive
        by_cases hfault : fault = .mkdir
        · rw [if_pos hfault, if_pos hfault]
          exact .error
        · rw [if_neg hfault, if_neg hfault]
          simp only
          rw [hfiles _ hfolder.symm]
          cases w.tracrThread.lookup t with
          | some th => exact .error
          | none =>
              exact .ok ⟨rfl, hfiles.insert _ _,
                fun proc hproc => Option.some.inj hproc ▸ hfolder.symm⟩

theorem alike_markWColorAdd (label : String) (colorId : UInt16) :
    Outcomes (SameFolder folder) (w.instrumentationMarkWColorAdd label colorId)
      (World.instrumentationMarkWColorAdd { w with disk := disk } label colorId) := by
  unfold World.instrumentationMarkWColorAdd
  simp only
  cases hproc : w.tracrProc with
  | none => exact .error
  | some proc =>
      simp only
      split
      · exact .error
      · split
        · exact .error
        · exact .ok ⟨rfl, hfiles, fun proc' hproc' => Option.some.inj hproc' ▸ hown proc hproc⟩

theorem alike_markAdd (label : String) :
    Outcomes (SameFolder folder) (w.instrumentationMarkAdd label)
      (World.instrumentationMarkAdd { w with disk := disk } label) := by
  unfold World.instrumentationMarkAdd
  simp only
  cases hproc : w.tracrProc with
  | none => exact .error
  | some proc =>
      simp only
      split
      · exact .error
      · split
        · exact .error
        · exact .ok ⟨rfl, hfiles, fun proc' hproc' => Option.some.inj hproc' ▸ hown proc hproc⟩

theorem alike_record (t : OsThread) (channelId eventId : UInt16) (extraId : UInt32) :
    Outcomes (SameFolder folder) (w.record pf t channelId eventId extraId)
      (World.record pf { w with disk := disk } t channelId eventId extraId) := by
  unfold World.record
  simp only
  by_cases henabled : (!w.enableTracr) = true
  · rw [if_pos henabled, if_pos henabled]
    exact .ok ⟨rfl, hfiles, hown⟩
  · rw [if_neg henabled, if_neg henabled]
    cases w.tracrThread.lookup t with
    | none => exact .error
    | some th =>
        simp only
        cases th.storeTrace ⟨channelId, eventId, extraId, pf.clock w.reads⟩ with
        | error e => exact .error
        | ok th' => exact .ok ⟨rfl, hfiles, hown⟩

theorem alikeResult_updateProc {c : Call} {f : TraCRProc → TraCRProc} (hcall : c.update? = some f) :
    AlikeResult folder (w.updateProc f) (World.updateProc { w with disk := disk } f) := by
  unfold World.updateProc
  simp only
  cases hproc : w.tracrProc with
  | none => exact .error
  | some proc =>
      refine .ok ⟨rfl, hfiles, fun proc' hproc' => ?_⟩
      rw [← Option.some.inj hproc', getFolderPath_of_update? hcall]
      exact hown proc hproc

theorem alike_getJsonStr :
    Outcomes (SameFolder folder) (w.instrumentationGetJsonStr pf)
      (World.instrumentationGetJsonStr pf { w with disk := disk }) := by
  unfold World.instrumentationGetJsonStr
  simp only
  cases hproc : w.tracrProc with
  | none => exact .error
  | some proc =>
      refine .ok ⟨rfl, hfiles, fun proc' hproc' => ?_⟩
      rw [← Option.some.inj hproc', TraCRProc.getFolderPath_writeJSON]
      exact hown proc hproc

end Calls

/-- A call reads and writes the folder of its process alone. -/
theorem step_sameFolder {w v : World b} (h : SameFolder (procFolder pf) w v) (a : Action) :
    Outcomes (SameFolder (procFolder pf)) (step pf w a) (step pf v a) := by
  obtain ⟨hglobals, hfiles, hown⟩ := h
  rw [hglobals]
  have hrecord : ∀ channelId eventId extraId, Outcomes (SameFolder (procFolder pf))
      ((w.record pf a.thread channelId eventId extraId).map (Prod.map Obs.ofRecord id))
      ((World.record pf { w with disk := v.disk } a.thread channelId eventId extraId).map
        (Prod.map Obs.ofRecord id)) :=
    fun channelId eventId extraId => (alike_record hfiles hown a.thread _ _ _).map _
  unfold step
  cases a.call with
  | start => exact alikeResult_start hfiles a.thread a.fault rfl
  | stop => exact alikeResult_stop hfiles hown a.thread a.fault
  | threadInit => exact alikeResult_threadInit hfiles hown a.thread
  | threadFinalize => exact alikeResult_threadFinalize hfiles hown a.thread a.fault
  | markWColorAdd label colorId => exact (alike_markWColorAdd hfiles hown label colorId).map _
  | markAdd label => exact (alike_markAdd hfiles hown label).map _
  | markSet channelId eventId extraId => exact hrecord channelId eventId extraId
  | markReset channelId => exact hrecord channelId eventIdReset uint32Max
  | flowStart channelId flowId => exact hrecord channelId eventIdFlowStart flowId
  | flowEnd channelId flowId => exact hrecord channelId eventIdFlowEnd flowId
  | addCustomChannelNames names =>
      exact @alikeResult_updateProc _ _ _ _ hfiles hown (.addCustomChannelNames names) _ rfl
  | addNumberOfChannels n =>
      exact @alikeResult_updateProc _ _ _ _ hfiles hown (.addNumberOfChannels n) _ rfl
  | getJsonStr => exact (alike_getJsonStr hfiles hown).map _
  | on => exact .ok ⟨rfl, hfiles, hown⟩
  | off => exact .ok ⟨rfl, hfiles, hown⟩
  | tracePath path => exact .ok ⟨rfl, hfiles, hown⟩

/-! ## All calls -/

theorem getpid_eq_of_procFolder {pf' : Platform} (h : procFolder pf = procFolder pf') :
    pf.getpid = pf'.getpid := by
  have htext := congrArg String.toList h
  unfold procFolder at htext
  rw [toList_procFolder, toList_procFolder] at htext
  exact Subtype.ext (Decimal.toString_injective
    (String.toList_injective (List.append_cancel_left htext)))

def folderView (pf : Platform) (disk : Disk) (path : ProcPath) : Option ProcDir :=
  if path.folder = procFolder pf then disk.lookup path else none

theorem folderView_eq_iff {disk disk' : Disk} :
    folderView pf disk' = folderView pf disk ↔ SameFiles (procFolder pf) disk disk' := by
  constructor
  · intro h path hpath
    have hview := congrFun h path
    rwa [folderView, folderView, if_pos hpath, if_pos hpath] at hview
  · intro h
    funext path
    unfold folderView
    by_cases hpath : path.folder = procFolder pf
    · rw [if_pos hpath, if_pos hpath, h path hpath]
    · rw [if_neg hpath, if_neg hpath]

/-- The proc of a process writes to the folder of the process, where it has also left a
thread folder if it has stopped in the middle of a flush. -/
structure OwnFolder (pf : Platform) (process : Process b) : Prop where
  proc : ∀ w, process = .ok w → ∀ proc, w.tracrProc = some proc →
    proc.getFolderPath.folder = procFolder pf
  bare : ∀ stopped, process = .error stopped → ∀ path name, stopped.bare = some (path, name) →
    path.folder = procFolder pf

section Call

variable {process : Process b} (hown : OwnFolder pf process)

include hown

/-- A call shows the same and leaves the same, whatever there is in the other folders. -/
theorem call_sameFolder {disk disk' : Disk} (h : SameFiles (procFolder pf) disk disk')
    (a : Action) :
    (process.call pf disk' a).1 = (process.call pf disk a).1 ∧
      (process.call pf disk' a).2.1 = (process.call pf disk a).2.1 ∧
      SameFiles (procFolder pf) (process.call pf disk a).2.2 (process.call pf disk' a).2.2 ∧
      OwnFolder pf (process.call pf disk a).2.1 := by
  cases process with
  | error e => exact ⟨rfl, rfl, h, hown⟩
  | ok w =>
      have hsame : SameFolder (procFolder pf) { w with disk := disk } { w with disk := disk' } :=
        ⟨rfl, h, hown.proc w rfl⟩
      have hstep := step_sameFolder hsame a
      have hleft := @sameLeftover_leaves _ pf disk' { w with disk := disk } a h (hown.proc w rfl)
      unfold Process.call
      simp only at hleft ⊢
      generalize step pf { w with disk := disk } a = x at hstep ⊢
      generalize step pf { w with disk := disk' } a = y at hstep ⊢
      cases hstep with
      | error =>
          refine ⟨rfl, by rw [hleft.bare], hleft.files, nofun, fun stopped hstopped => ?_⟩
          obtain rfl := Except.error.inj hstopped
          exact hleft.own
      | ok hnext =>
          obtain ⟨hglobals, hfiles, hproc⟩ := hnext
          refine ⟨rfl, ?_, hfiles, ?_, nofun⟩
          · simp only [World.globals]
            rw [hglobals]
          · intro w' hw'
            obtain rfl := Except.ok.inj hw'
            exact hproc

theorem lookup_of_call (disk : Disk) (a : Action) {path : ProcPath}
    (hother : path.folder ≠ procFolder pf) :
    (process.call pf disk a).2.2.lookup path = disk.lookup path := by
  cases process with
  | error e => rfl
  | ok w =>
      have hleft := @lookup_of_leaves _ pf path { w with disk := disk } a (hown.proc w rfl) hother
      unfold Process.call
      simp only
      cases hstep : step pf { w with disk := disk } a with
      | error e => exact hleft
      | ok out =>
          have hreturned := @leaves_of_step _ pf { w with disk := disk } a out.2 out.1 hstep
          rw [hreturned] at hleft
          exact hleft

end Call

section Job

variable {ι : Type} {builds : ι → Build} {platforms : ι → Platform}

def jobCall (builds : ι → Build) (platforms : ι → Platform) (i : ι)
    (process : Process (builds i)) : Disk → Action → Option Obs × Process (builds i) × Disk :=
  process.call (platforms i)

theorem separate_processes
    (hpids : ∀ i j, (platforms i).getpid = (platforms j).getpid → i = j) :
    Separate (jobCall builds platforms)
      (fun i => OwnFolder (platforms i)) (fun i => folderView (platforms i)) where
  keeps i process disk a hown :=
    (call_sameFolder hown (fun _ _ => rfl : SameFiles _ disk disk) a).2.2.2
  reads i process disk disk' a hown hview := by
    obtain ⟨hshown, hstate, hfiles, -⟩ := call_sameFolder hown (folderView_eq_iff.mp hview) a
    exact ⟨hshown, hstate, folderView_eq_iff.mpr hfiles⟩
  leaves i j process disk a hown hne := by
    refine folderView_eq_iff.mpr fun path hpath => lookup_of_call hown disk a ?_
    rw [hpath]
    exact fun heq => hne (hpids i j (getpid_eq_of_procFolder heq.symm))

theorem ownFolder_of_idle {w : World b} (hidle : w.tracrProc = none) :
    OwnFolder pf (.ok w : Process b) where
  proc w' hw' proc hproc := by
    rw [← Except.ok.inj hw', hidle] at hproc
    cases hproc
  bare := nofun

/-- The processes keep to their folders, and what is in none of them stays as it is. -/
theorem kept_of_together [DecidableEq ι] {processes : ∀ i, Process (builds i)}
    (hown : ∀ i, OwnFolder (platforms i) (processes i)) (disk : Disk)
    (turns : List (Action × ι)) :
    let out := together (jobCall builds platforms) processes disk turns
    (∀ i, OwnFolder (platforms i) (out.2.1 i)) ∧
      ∀ path : ProcPath, (∀ i, path.folder ≠ procFolder (platforms i)) →
        out.2.2.lookup path = disk.lookup path := by
  have hstep : ∀ i (process : Process (builds i)) (disk' : Disk) (a : Action),
      OwnFolder (platforms i) process →
        (∀ path : ProcPath, (∀ i, path.folder ≠ procFolder (platforms i)) →
          disk'.lookup path = disk.lookup path) →
        OwnFolder (platforms i) (jobCall builds platforms i process disk' a).2.1 ∧
          ∀ path : ProcPath, (∀ i, path.folder ≠ procFolder (platforms i)) →
            (jobCall builds platforms i process disk' a).2.2.lookup path = disk.lookup path := by
    intro i process disk' a hprocess hlookup
    refine ⟨(call_sameFolder hprocess (fun _ _ => rfl : SameFiles _ disk' disk') a).2.2.2, ?_⟩
    intro path hpath
    exact (lookup_of_call hprocess disk' a (hpath i)).trans (hlookup path hpath)
  exact together_invariant (P := fun disk' : Disk => ∀ path : ProcPath,
    (∀ i, path.folder ≠ procFolder (platforms i)) → disk'.lookup path = disk.lookup path)
    hstep hown (fun _ _ => rfl) turns

/-- In a job whose processes have different ids, in whatever order they make whatever calls
and whichever of them stops, at whichever fault: every process shows and ends with what it
would alone, and its folder holds what it would hold then, complete or cut short.  Nothing is
written anywhere else. -/
theorem processes_as_alone [DecidableEq ι]
    (hpids : ∀ i j, (platforms i).getpid = (platforms j).getpid → i = j)
    {worlds : ∀ i, World (builds i)} (hidle : ∀ i, (worlds i).tracrProc = none) (disk : Disk)
    (turns : List (Action × ι)) :
    let out := together (jobCall builds platforms) (fun i => .ok (worlds i)) disk turns
    (∀ i, ∃ own, alone (jobCall builds platforms) i (.ok (worlds i)) disk (source i turns) =
        (source i out.1, out.2.1 i, own) ∧
      ∀ path : ProcPath, path.folder = procFolder (platforms i) →
        out.2.2.lookup path = own.lookup path) ∧
      (∀ path : ProcPath, (∀ i, path.folder ≠ procFolder (platforms i)) →
        out.2.2.lookup path = disk.lookup path) ∧
      ∀ i stopped path name, out.2.1 i = .error stopped → stopped.bare = some (path, name) →
        path.folder = procFolder (platforms i) := by
  have hown : ∀ i, OwnFolder (platforms i) (.ok (worlds i) : Process (builds i)) :=
    fun i => ownFolder_of_idle (hidle i)
  obtain ⟨hlast, hothers⟩ := kept_of_together hown disk turns
  refine ⟨fun i => ?_, hothers, fun i stopped path name hstopped hbare =>
    (hlast i).bare stopped hstopped path name hbare⟩
  obtain ⟨own, halone, hview⟩ := (separate_processes hpids).together hown disk turns i
  exact ⟨own, halone, fun path hpath => (folderView_eq_iff.mp hview path hpath).symm⟩

end Job

def twoProcs (second : Bool) : Platform :=
  { tickingPlatform with getpid := cond second ⟨42, by decide⟩ ⟨41, by decide⟩ }

/-- Two processes start one after the other; the first ends, and the second runs into a full
disk. -/
def twoProcTurns : List (Action × Bool) :=
  [(⟨0, .start, .none⟩, false), (⟨0, .start, .none⟩, true), (⟨0, .markAdd "run", .none⟩, true),
    (⟨0, .markAdd "run", .none⟩, false), (⟨0, .markSet 0 0 5, .none⟩, false),
    (⟨0, .markSet 0 0 6, .none⟩, true), (⟨0, .stop, .writeTraces 4⟩, true),
    (⟨0, .markReset 0, .none⟩, false), (⟨0, .stop, .none⟩, false)]

/-- What the second leaves is a quarter of its payload. -/
theorem processes_as_alone_two_procs :
    let out := together (jobCall (fun _ => eightPayloads) twoProcs)
      (fun _ => .ok (World.initial eightPayloads)) ∅ twoProcTurns
    ((∀ i, ∃ own, alone (jobCall (fun _ => eightPayloads) twoProcs) i
          (.ok (World.initial eightPayloads)) ∅ (source i twoProcTurns) =
        (source i out.1, out.2.1 i, own) ∧
      ∀ path : ProcPath, path.folder = procFolder (twoProcs i) →
        out.2.2.lookup path = own.lookup path) ∧
      (∀ path : ProcPath, (∀ i, path.folder ≠ procFolder (twoProcs i)) →
        out.2.2.lookup path = (∅ : Disk).lookup path) ∧
      ∀ i stopped path name, out.2.1 i = .error stopped → stopped.bare = some (path, name) →
        path.folder = procFolder (twoProcs i)) ∧
      ((out.2.2.lookup ⟨"tracr/", "proc.41"⟩).bind ProcDir.metadata).isSome = true ∧
        TraCRThread.tracesFile out.2.2 ⟨"tracr/", "proc.42"⟩ (tickingPlatform.gettid 0) =
          some [0, 0, 0, 0] := by
  intro out
  refine ⟨?_, by decide +kernel, by decide +kernel⟩
  refine @processes_as_alone Bool (fun _ => eightPayloads) twoProcs _ ?_
    (fun _ => World.initial eightPayloads) (fun _ => rfl) ∅ twoProcTurns
  decide

end TraCR
