import TraCR.Core.Effects

/-!
# The metadata file and the registry

`dump_JSON` writes the document of an earlier `write_JSON` if there was one, so
`metadata.json` shows the registry as it was at the last snapshot.  It shows the
final registry exactly when nothing was registered after that snapshot.
-/

namespace TraCR

open TraCR.Lib.Run TraCR.TraCRProc

def Call.registers (c : Call) : Bool := c.label?.isSome

/-- After the last snapshot, if there is one, nothing is registered. -/
def snapshotCurrent : List Action → Bool
  | [] => true
  | a :: as =>
      if a.call.isSnapshot && !(as.any fun a => a.call.isSnapshot) then
        !(as.any fun a => a.call.registers)
      else snapshotCurrent as

/-- The document shows the registry: its labels, its colours, and the map from
colours to labels. -/
structure Reflects (proc : TraCRProc) (fields : List (String × Json)) : Prop where
  labels : fields.lookup "markerLabels" = some (.array (proc.markerLabels.map .string))
  colours : fields.lookup "markerColorIds" =
    some (.array (proc.markerColorIds.map fun id => .number id.toNat))
  types : ∀ key value, (jsonMarkerTypes fields).lookup key = some value ↔
    ∃ colorId label, proc.markerTypes.lookup colorId = some label ∧
      key = toString colorId.toNat ∧ value = .string label

/-! ## The proc between START and END -/

inductive ProcEffect (c : Call) (proc : TraCRProc) : Obs → TraCRProc → Prop where
  | same {o : Obs} (hlabel : c.label? = none) (hsnapshot : c.isSnapshot = false)
      (hupdate : c.update? = none) (hid : ∀ id, o ≠ .eventId id) : ProcEffect c proc o proc
  | update {f : TraCRProc → TraCRProc} (hcall : c.update? = some f) :
      ProcEffect c proc .nothing (f proc)
  | register {label : String} {colorId : UInt16} (hlabel : c.label? = some label)
      (hsnapshot : c.isSnapshot = false) (hupdate : c.update? = none)
      (hroom : proc.markerLabels.length < eventIdReservedMin.toNat)
      (hcolor : proc.markerTypes.lookup colorId = none) :
      ProcEffect c proc (.eventId (.ofNat proc.markerLabels.length))
        (proc.addMarker label colorId)
  | snapshot {now : UInt64} (hlabel : c.label? = none) (hsnapshot : c.isSnapshot = true) :
      ProcEffect c proc (.document (.object (proc.writeJSON now).jsonFile)) (proc.writeJSON now)

variable {b : Build} {pf : Platform}

theorem procEffect_of_step {w w' : World b} {a : Action} {o : Obs} {proc : TraCRProc}
    (hproc : w.tracrProc = some proc) (hstop : a.call ≠ .stop)
    (h : step pf w a = .ok (o, w')) :
    ∃ proc', w'.tracrProc = some proc' ∧ ProcEffect a.call proc o proc' := by
  have hsame : ∀ {call : Call}, a.call = call → call.label? = none →
      call.isSnapshot = false → call.update? = none → ProcEffect a.call proc .nothing proc :=
    fun hcall hl hs hu => .same (hcall ▸ hl) (hcall ▸ hs) (hcall ▸ hu) (by simp)
  cases effect_of_step h with
  | start _ hnone => simp [hproc] at hnone
  | stop hcall => exact absurd hcall hstop
  | threadInit hcall => exact ⟨proc, hproc, hsame hcall rfl rfl rfl⟩
  | threadFinalize hcall => exact ⟨proc, hproc, hsame hcall rfl rfl rfl⟩
  | on hcall => exact ⟨proc, hproc, hsame hcall rfl rfl rfl⟩
  | off hcall => exact ⟨proc, hproc, hsame hcall rfl rfl rfl⟩
  | tracePath hcall => exact ⟨proc, hproc, hsame hcall rfl rfl rfl⟩
  | untraced hcall =>
      obtain ⟨hupdate, hlabel, hsnapshot, -⟩ := others_of_record? hcall
      exact ⟨proc, hproc, .same hlabel hsnapshot hupdate (by simp)⟩
  | store hcall =>
      obtain ⟨hupdate, hlabel, hsnapshot, -⟩ := others_of_record? hcall
      exact ⟨proc, hproc, .same hlabel hsnapshot hupdate (by simp)⟩
  | update hcall hsome =>
      obtain rfl := Option.some.inj (hsome.symm.trans hproc)
      exact ⟨_, rfl, .update hcall⟩
  | snapshot hcall hsome =>
      obtain rfl := Option.some.inj (hsome.symm.trans hproc)
      exact ⟨_, rfl, .snapshot (hcall ▸ rfl) (hcall ▸ rfl)⟩
  | register hcall hsome hroom hcolor =>
      obtain rfl := Option.some.inj (hsome.symm.trans hproc)
      obtain ⟨hlabel, -, hupdate, hsnapshot, -⟩ := hcall.others
      exact ⟨_, rfl, .register hlabel hsnapshot hupdate hroom hcolor⟩

theorem update_keeps {c : Call} {f : TraCRProc → TraCRProc} (h : c.update? = some f)
    (proc : TraCRProc) :
    (f proc).markerLabels = proc.markerLabels ∧
      (f proc).markerColorIds = proc.markerColorIds ∧
      (f proc).markerTypes = proc.markerTypes ∧
      (f proc).jsonIsReady = proc.jsonIsReady ∧
      ∀ key, key ≠ "channel_names" → key ≠ "num_channels" →
        (f proc).jsonFile.lookup key = proc.jsonFile.lookup key := by
  cases c <;> try cases h
  case addCustomChannelNames names =>
    refine ⟨rfl, rfl, rfl, rfl, ?_⟩
    intro key hnames hnum
    unfold addCustomChannelNames
    rw [lookup_setField_ne hnum, lookup_setField_ne hnames]
  case addNumberOfChannels n =>
    refine ⟨rfl, rfl, rfl, rfl, ?_⟩
    intro key _ hnum
    exact lookup_setField_ne hnum _

/-! ## What `write_JSON` writes -/

theorem jsonMarkerTypes_congr {fields fields' : List (String × Json)}
    (h : fields.lookup "markerTypes" = fields'.lookup "markerTypes") :
    jsonMarkerTypes fields = jsonMarkerTypes fields' := by
  unfold jsonMarkerTypes
  rw [h]

/-- The document does not know more than the registry. -/
structure Consistent (proc : TraCRProc) : Prop where
  lengths : proc.markerColorIds.length = proc.markerLabels.length
  types : ∀ key value, (jsonMarkerTypes proc.jsonFile).lookup key = some value →
    ∃ colorId label, proc.markerTypes.lookup colorId = some label ∧
      key = toString colorId.toNat ∧ value = .string label

section Write

variable {proc : TraCRProc} (now : UInt64)

theorem Consistent.reflects_writeJSON (h : Consistent proc) :
    Reflects proc (proc.writeJSON now).jsonFile := by
  rw [jsonFile_writeJSON]
  constructor
  case labels =>
    rw [lookup_writeMarkerTypes_ne (by decide)]
    unfold baseFields
    rw [lookup_setField_ne (by decide), lookup_setField_self]
  case colours =>
    rw [lookup_writeMarkerTypes_ne (by decide)]
    unfold baseFields
    rw [lookup_setField_self]
  case types =>
    intro key value
    have hold : jsonMarkerTypes (proc.baseFields now) = jsonMarkerTypes proc.jsonFile :=
      jsonMarkerTypes_congr (lookup_baseFields_ne (by decide) now)
    rw [lookup_writeMarkerTypes proc.markerTypes.nodupKeys, hold]
    constructor
    · rintro (⟨entry, hentry, hkey, hvalue⟩ | ⟨-, hlookup⟩)
      · exact ⟨entry.1, entry.2, AList.mem_lookup_iff.mpr hentry, hkey, hvalue⟩
      · exact h.types key value hlookup
    · rintro ⟨colorId, label, hlabel, hkey, hvalue⟩
      exact .inl ⟨⟨colorId, label⟩, AList.mem_lookup_iff.mp hlabel, hkey, hvalue⟩

end Write

theorem reflects_congr {proc : TraCRProc} {fields fields' : List (String × Json)}
    (hlabels : fields.lookup "markerLabels" = fields'.lookup "markerLabels")
    (hcolours : fields.lookup "markerColorIds" = fields'.lookup "markerColorIds")
    (htypes : fields.lookup "markerTypes" = fields'.lookup "markerTypes") :
    Reflects proc fields ↔ Reflects proc fields' := by
  have hmap := jsonMarkerTypes_congr htypes
  constructor
  · intro h
    exact ⟨hlabels ▸ h.labels, hcolours ▸ h.colours, hmap ▸ h.types⟩
  · intro h
    exact ⟨hlabels ▸ h.labels, hcolours ▸ h.colours, hmap ▸ h.types⟩

/-! ## From call to call -/

theorem Consistent.step {c : Call} {proc proc' : TraCRProc} {o : Obs} (h : Consistent proc)
    (heffect : ProcEffect c proc o proc') : Consistent proc' := by
  cases heffect with
  | same => exact h
  | update hcall =>
      obtain ⟨hlabels, hcolours, htypes, -, hfields⟩ := update_keeps hcall proc
      constructor
      · rw [hcolours, hlabels]
        exact h.lengths
      · rw [htypes, jsonMarkerTypes_congr (hfields "markerTypes" (by decide) (by decide))]
        exact h.types
  | @register label colorId _ _ _ _ hcolor =>
      constructor
      · simp [addMarker, h.lengths]
      · intro key value hvalue
        obtain ⟨colorId', label', hlookup, hkey, hlabel⟩ := h.types key value hvalue
        have hne : colorId' ≠ colorId := by
          rintro rfl
          simp [hcolor] at hlookup
        exact ⟨colorId', label', (AList.lookup_insert_ne hne).trans hlookup, hkey, hlabel⟩
  | @snapshot now =>
      constructor
      · rw [markerColorIds_writeJSON, markerLabels_writeJSON]
        exact h.lengths
      · intro key value hvalue
        rw [markerTypes_writeJSON]
        exact ((h.reflects_writeJSON now).types key value).mp hvalue

theorem Consistent.reflects_of_snapshot {c : Call} {proc proc' : TraCRProc} {o : Obs}
    (h : Consistent proc) (hsnapshot : c.isSnapshot = true)
    (heffect : ProcEffect c proc o proc') :
    Reflects proc' proc'.jsonFile ∧ proc'.jsonIsReady = true := by
  cases heffect with
  | same _ hno => simp [hsnapshot] at hno
  | update hcall => simp [(others_of_update? hcall).2.2.1] at hsnapshot
  | register _ hno => simp [hsnapshot] at hno
  | @snapshot now =>
      have hshown := h.reflects_writeJSON now
      refine ⟨⟨?_, ?_, ?_⟩, rfl⟩
      · rw [markerLabels_writeJSON]
        exact hshown.labels
      · rw [markerColorIds_writeJSON]
        exact hshown.colours
      · rw [markerTypes_writeJSON]
        exact hshown.types

structure Since (p₀ : TraCRProc) (n : Nat) (proc : TraCRProc) : Prop where
  ready : proc.jsonIsReady = p₀.jsonIsReady
  labels : proc.jsonFile.lookup "markerLabels" = p₀.jsonFile.lookup "markerLabels"
  colours : proc.jsonFile.lookup "markerColorIds" = p₀.jsonFile.lookup "markerColorIds"
  types : proc.jsonFile.lookup "markerTypes" = p₀.jsonFile.lookup "markerTypes"
  length : proc.markerLabels.length = p₀.markerLabels.length + n
  same : n = 0 → proc.markerLabels = p₀.markerLabels ∧
    proc.markerColorIds = p₀.markerColorIds ∧ proc.markerTypes = p₀.markerTypes

theorem Since.refl (p₀ : TraCRProc) : Since p₀ 0 p₀ :=
  ⟨rfl, rfl, rfl, rfl, rfl, fun _ => ⟨rfl, rfl, rfl⟩⟩

theorem Since.step {p₀ proc proc' : TraCRProc} {n : Nat} {c : Call} {o : Obs}
    (h : Since p₀ n proc) (hsnapshot : c.isSnapshot = false)
    (heffect : ProcEffect c proc o proc') :
    Since p₀ (n + if c.registers then 1 else 0) proc' := by
  cases heffect with
  | same hlabel =>
      have hno : c.registers = false := by
        rw [Call.registers, hlabel]
        rfl
      rw [hno]
      exact h
  | update hcall =>
      obtain ⟨hlabels, hcolours, htypes, hready, hfields⟩ := update_keeps hcall proc
      have hno : c.registers = false := by
        rw [Call.registers, (others_of_update? hcall).2.1]
        rfl
      rw [hno]
      constructor
      case ready => rw [hready, h.ready]
      case labels => rw [hfields _ (by decide) (by decide), h.labels]
      case colours => rw [hfields _ (by decide) (by decide), h.colours]
      case types => rw [hfields _ (by decide) (by decide), h.types]
      case length => rw [hlabels, h.length]; rfl
      case same =>
        rw [hlabels, hcolours, htypes]
        exact h.same
  | register hlabel =>
      have hyes : c.registers = true := by
        rw [Call.registers, hlabel]
        rfl
      rw [hyes]
      constructor
      case ready => exact h.ready
      case labels => exact h.labels
      case colours => exact h.colours
      case types => exact h.types
      case length =>
        simp only [addMarker, List.length_append, List.length_singleton, h.length, if_true]
        omega
      case same => simp
  | snapshot _ hcall => simp [hcall] at hsnapshot

/-- A document that showed the registry still does unless something was registered
since. -/
theorem Since.reflects_iff {p₀ proc : TraCRProc} {n : Nat} (h : Since p₀ n proc)
    (hreflects : Reflects p₀ p₀.jsonFile) : Reflects proc proc.jsonFile ↔ n = 0 := by
  rw [reflects_congr h.labels h.colours h.types]
  constructor
  · intro hproc
    have hsame := hreflects.labels.symm.trans hproc.labels
    have hlen : p₀.markerLabels.length = proc.markerLabels.length := by
      simpa using congrArg List.length (Json.array.inj (Option.some.inj hsame))
    have := h.length
    omega
  · intro hzero
    obtain ⟨hlabels, hcolours, htypes⟩ := h.same hzero
    exact ⟨hlabels ▸ hreflects.labels, hcolours ▸ hreflects.colours,
      htypes ▸ hreflects.types⟩

/-! ## The last snapshot -/

theorem snapshotCurrent_of_none {body : List Action}
    (h : (body.any fun a => a.call.isSnapshot) = false) : snapshotCurrent body = true := by
  induction body with
  | nil => rfl
  | cons a body ih =>
      obtain ⟨ha, hbody⟩ := Bool.or_eq_false_iff.mp h
      have hcall : a.call.isSnapshot = false := ha
      simp only [snapshotCurrent, hcall, Bool.false_and, Bool.false_eq_true, if_false]
      exact ih hbody

theorem snapshotCurrent_append (pre : List Action) {a : Action} {post : List Action}
    (ha : a.call.isSnapshot = true) (hpost : (post.any fun a => a.call.isSnapshot) = false) :
    snapshotCurrent (pre ++ a :: post) = !(post.any fun a => a.call.registers) := by
  induction pre with
  | nil => simp [snapshotCurrent, ha, hpost]
  | cons c pre ih =>
      have hlater : ((pre ++ a :: post).any fun a => a.call.isSnapshot) = true := by
        simp [ha]
      rw [List.cons_append, snapshotCurrent, hlater]
      simpa using ih

theorem exists_last_snapshot {body : List Action}
    (h : (body.any fun a => a.call.isSnapshot) = true) :
    ∃ pre a post, body = pre ++ a :: post ∧ a.call.isSnapshot = true ∧
      (post.any fun a => a.call.isSnapshot) = false := by
  induction body with
  | nil => cases h
  | cons a body ih =>
      cases hbody : body.any fun a => a.call.isSnapshot with
      | true =>
          obtain ⟨pre, a', post, rfl, ha', hpost⟩ := ih hbody
          exact ⟨a :: pre, a', post, rfl, ha', hpost⟩
      | false =>
          have ha : a.call.isSnapshot = true := by simpa [hbody] using h
          exact ⟨[], a, body, rfl, ha, hbody⟩

/-! ## Runs from START to END -/

/-- The proc while the library is on, after the steps `h`: every id handed out has the
label it was registered with. -/
structure Recording (w : World b) (h : List (Action × Obs)) (proc : TraCRProc) : Prop where
  running : w.tracrProc = some proc
  consistent : Consistent proc
  labels : ∀ x ∈ h, ∀ id, x.2 = .eventId id →
    ∃ label, x.1.call.label? = some label ∧ proc.markerLabels[id.toNat]? = some label

theorem ProcEffect.getElem?_markerLabels {c : Call} {proc proc' : TraCRProc} {o : Obs}
    (h : ProcEffect c proc o proc') {i : Nat} {label : String}
    (hi : proc.markerLabels[i]? = some label) : proc'.markerLabels[i]? = some label := by
  cases h with
  | same => exact hi
  | update hcall =>
      rw [(update_keeps hcall proc).1]
      exact hi
  | snapshot => exact hi
  | register =>
      have hlt := (List.getElem?_eq_some_iff.mp hi).1
      unfold addMarker
      rw [List.getElem?_append_left hlt]
      exact hi

theorem ProcEffect.label_of_eventId {c : Call} {proc proc' : TraCRProc} {id : UInt16}
    (h : ProcEffect c proc (.eventId id) proc') :
    ∃ label, c.label? = some label ∧ proc'.markerLabels[id.toNat]? = some label := by
  cases h with
  | same _ _ _ hid => exact absurd rfl (hid id)
  | register hlabel _ _ hroom =>
      have hlt : proc.markerLabels.length < 65533 := hroom
      refine ⟨_, hlabel, ?_⟩
      rw [UInt16.toNat_ofNat_of_lt' (by show _ < 65536; omega)]
      simp [addMarker]

theorem Recording.step {w w' : World b} {h : List (Action × Obs)} {proc : TraCRProc}
    {a : Action} {o : Obs} (hrec : Recording w h proc) (hstop : a.call ≠ .stop)
    (hstep : TraCR.step pf w a = .ok (o, w')) :
    ∃ proc', ProcEffect a.call proc o proc' ∧ Recording w' (h ++ [(a, o)]) proc' := by
  obtain ⟨proc', hproc, heffect⟩ := procEffect_of_step hrec.running hstop hstep
  refine ⟨proc', heffect, hproc, hrec.consistent.step heffect, ?_⟩
  intro x hx id hid
  rcases List.mem_append.mp hx with hold | hnew
  · obtain ⟨label, hcall, hlabel⟩ := hrec.labels x hold id hid
    exact ⟨label, hcall, heffect.getElem?_markerLabels hlabel⟩
  · obtain rfl := List.mem_singleton.mp hnew
    have hid : o = .eventId id := hid
    exact (hid ▸ heffect).label_of_eventId

theorem Recording.run {w w' : World b} {h : List (Action × Obs)} {proc : TraCRProc}
    {body : List Action} {obs : List Obs} (hrec : Recording w h proc)
    (hstop : ∀ a ∈ body, a.call ≠ .stop) (hrun : TraCR.run pf w body = .ok (obs, w')) :
    ∃ proc', Recording w' (h ++ body.zip obs) proc' :=
  exec_history (I := fun w h => ∃ proc, Recording w h proc)
    (fun _ _ _ _ _ ⟨_, hI⟩ hP hstep =>
      let ⟨proc', _, hnext⟩ := hI.step hP hstep
      ⟨proc', hnext⟩)
    ⟨proc, hrec⟩ (along_of_forall hstop) hrun

theorem recording_start (hflush : b.disableFlush = false) {w w' : World b} {a : Action}
    {o : Obs} (hstart : a.call = .start) (hstep : TraCR.step pf w a = .ok (o, w')) :
    ∃ proc, Recording w' [(a, o)] proc ∧ proc.jsonIsReady = false := by
  obtain ⟨-, -, -, proc, disk, hfolders, rfl⟩ := start_of_step hstart hstep
  obtain ⟨hmade, -⟩ := createFolders_ok hflush hfolders
  subst hmade
  refine ⟨_, ⟨rfl, ⟨rfl, ?_⟩, ?_⟩, rfl⟩
  · intro key value h
    cases h
  · intro x hx id hid
    obtain rfl := List.mem_singleton.mp hx
    obtain rfl : o = .nothing := (start_of_step hstart hstep).1
    cases hid

theorem since_of_run {w w' : World b} {p₀ : TraCRProc} {body : List Action} {obs : List Obs}
    (hproc : w.tracrProc = some p₀) (hstop : ∀ a ∈ body, a.call ≠ .stop)
    (hsnapshot : ∀ a ∈ body, a.call.isSnapshot = false)
    (hrun : TraCR.run pf w body = .ok (obs, w')) :
    ∃ proc, w'.tracrProc = some proc ∧
      Since p₀ (body.countP fun a => a.call.registers) proc := by
  have hstep : ∀ (w : World b) (h : List Action) a o w',
      (∃ proc, w.tracrProc = some proc ∧ Since p₀ (h.countP fun a => a.call.registers) proc) →
        a.call ≠ .stop ∧ a.call.isSnapshot = false → TraCR.step pf w a = .ok (o, w') →
          ∃ proc, w'.tracrProc = some proc ∧
            Since p₀ ((h ++ [a]).countP fun a => a.call.registers) proc := by
    rintro w h a o w' ⟨proc, hw, hsince⟩ hcall hnext
    obtain ⟨proc', hw', heffect⟩ := procEffect_of_step hw hcall.1 hnext
    refine ⟨proc', hw', ?_⟩
    simpa [List.countP_append, List.countP_cons] using hsince.step hcall.2 heffect
  exact exec_inputs (h := []) hstep ⟨p₀, hproc, .refl p₀⟩
    (along_of_forall fun a ha => ⟨hstop a ha, hsnapshot a ha⟩) hrun

section Dump

variable {proc : TraCRProc} (clock : Nat → UInt64) (reads : Nat)

theorem Consistent.reflects_dumped (h : Consistent proc) (hready : proc.jsonIsReady = false) :
    Reflects proc (proc.dumped clock reads).jsonFile := by
  unfold dumped
  rw [hready, if_neg Bool.false_ne_true]
  have hkept : ∀ key, key ≠ "end_time" →
      ((proc.writeJSON (clock reads)).setField "end_time"
        (.number (clock (reads + 1)).toNat)).jsonFile.lookup key =
      (proc.writeJSON (clock reads)).jsonFile.lookup key :=
    fun key hne => lookup_setField_ne hne _
  rw [reflects_congr (hkept _ (by decide)) (hkept _ (by decide)) (hkept _ (by decide))]
  exact h.reflects_writeJSON (clock reads)

theorem reflects_dumped_iff (hready : proc.jsonIsReady = true) :
    Reflects proc (proc.dumped clock reads).jsonFile ↔ Reflects proc proc.jsonFile := by
  unfold dumped
  rw [if_pos hready]
  exact reflects_congr (lookup_setField_ne (by decide) _) (lookup_setField_ne (by decide) _)
    (lookup_setField_ne (by decide) _)

end Dump

/-- What END writes shows the registry if and only if the last snapshot is
current. -/
theorem reflects_dumped_of_run (hflush : b.disableFlush = false) {w₀ w₁ w : World b}
    {first : Action} {body : List Action} {o : Obs} {obs : List Obs}
    (hstart : first.call = .start) (hfirst : step pf w₀ first = .ok (o, w₁))
    (hstop : ∀ a ∈ body, a.call ≠ .stop) (hrun : run pf w₁ body = .ok (obs, w))
    (clock : Nat → UInt64) (reads : Nat) :
    ∃ proc, Recording w ((first :: body).zip (o :: obs)) proc ∧
      (Reflects proc (proc.dumped clock reads).jsonFile ↔ snapshotCurrent body = true) := by
  obtain ⟨proc₁, hrec₁, hready₁⟩ := recording_start hflush hstart hfirst
  obtain ⟨proc, hrec⟩ := hrec₁.run hstop hrun
  refine ⟨proc, hrec, ?_⟩
  cases hany : body.any fun a => a.call.isSnapshot with
  | false =>
      have hnone : ∀ a ∈ body, a.call.isSnapshot = false := by
        simpa using hany
      obtain ⟨proc', hproc', hsince⟩ := since_of_run hrec₁.running hstop hnone hrun
      obtain rfl := Option.some.inj (hrec.running.symm.trans hproc')
      have hready : proc.jsonIsReady = false := hsince.ready.trans hready₁
      exact iff_of_true (hrec.consistent.reflects_dumped clock reads hready)
        (snapshotCurrent_of_none hany)
  | true =>
      obtain ⟨pre, g, post, rfl, hg, hpost⟩ := exists_last_snapshot hany
      obtain ⟨obs₁, w₂, obs₂, hpre, hrest, -⟩ := exec_append_ok_iff.mp hrun
      obtain ⟨o₂, w₃, obs₃, hsnap, hlate, -⟩ := exec_cons_ok_iff.mp hrest
      obtain ⟨proc₂, hrec₂⟩ := hrec₁.run (fun a ha => hstop a (by simp [ha])) hpre
      obtain ⟨proc₃, hproc₃, heffect⟩ :=
        procEffect_of_step hrec₂.running (hstop g (by simp)) hsnap
      have hnone : ∀ a ∈ post, a.call.isSnapshot = false := by
        simpa using hpost
      obtain ⟨proc', hproc', hsince⟩ :=
        since_of_run hproc₃ (fun a ha => hstop a (by simp [ha])) hnone hlate
      obtain rfl := Option.some.inj (hrec.running.symm.trans hproc')
      obtain ⟨hshown, hready⟩ := hrec₂.consistent.reflects_of_snapshot hg heffect
      rw [reflects_dumped_iff clock reads (hsince.ready.trans hready),
        hsince.reflects_iff hshown, snapshotCurrent_append pre hg hpost]
      simp [List.countP_eq_zero]

def ListsMarker (fields : List (String × Json)) (id : UInt16) : Prop :=
  ∃ labels colours, fields.lookup "markerLabels" = some (.array labels) ∧
    fields.lookup "markerColorIds" = some (.array colours) ∧
      id.toNat < labels.length ∧ id.toNat < colours.length

/-- The metadata file of a proc folder shows the registry, and lists every event id
handed out. -/
def ShowsRegistry (proc : TraCRProc) (obs : List Obs) (dir : ProcDir) : Prop :=
  ∃ fields, dir.metadata = some (.object fields) ∧ Reflects proc fields ∧
    ∀ id, .eventId id ∈ obs → ListsMarker fields id

theorem Reflects.listsMarker {proc : TraCRProc} {fields : List (String × Json)}
    (h : Reflects proc fields) (hconsistent : Consistent proc) {id : UInt16}
    (hid : id.toNat < proc.markerLabels.length) : ListsMarker fields id := by
  refine ⟨_, _, h.labels, h.colours, ?_, ?_⟩
  · rw [List.length_map]
    exact hid
  · rw [List.length_map, hconsistent.lengths]
    exact hid

/-- From START to END, with calls of any kind and by any threads in between, the
metadata file shows the final registry if and only if nothing was registered after
the last snapshot. -/
theorem showsRegistry_iff (hflush : b.disableFlush = false) {w₀ w : World b}
    {first last : Action} {body : List Action} {obs : List Obs}
    (hstart : first.call = .start) (hstop : last.call = .stop)
    (hbody : ∀ a ∈ body, a.call ≠ .stop)
    (hrun : run pf w₀ (first :: body ++ [last]) = .ok (obs, w)) :
    ∃ obs' before proc dir, run pf w₀ (first :: body) = .ok (obs', before) ∧
      before.tracrProc = some proc ∧ w.disk.lookup proc.getFolderPath = some dir ∧
        (ShowsRegistry proc obs' dir ↔ snapshotCurrent body = true) := by
  obtain ⟨obs', before, obs₁, hmost, hlast, -⟩ := exec_append_ok_iff.mp hrun
  obtain ⟨o, w₁, obs₂, hfirst, hrest, rfl⟩ := exec_cons_ok_iff.mp hmost
  obtain ⟨o', hend, -⟩ := exec_singleton_ok_iff.mp hlast
  obtain ⟨-, proc, th, w', hproc, -, hwrite, rfl⟩ := stop_of_step hstop hend
  obtain ⟨-, disk, dir, reads, -, -, rfl⟩ := flushProc_ok hflush hwrite
  obtain ⟨proc', hrec, hiff⟩ :=
    reflects_dumped_of_run hflush hstart hfirst hbody hrest pf.clock before.reads
  obtain rfl := Option.some.inj (hrec.running.symm.trans hproc)
  refine ⟨o :: obs₂, before, proc', _, hmost, hproc, AList.lookup_insert _, ?_⟩
  rw [← hiff]
  constructor
  · rintro ⟨fields, hfields, hreflects, -⟩
    obtain rfl := Json.object.inj (Option.some.inj hfields)
    exact hreflects
  · intro hreflects
    refine ⟨_, rfl, hreflects, ?_⟩
    intro id hid
    have hlength := exec_length hmost
    have hsnd : ((first :: body).zip (o :: obs₂)).map Prod.snd = o :: obs₂ :=
      List.map_snd_zip (by omega)
    rw [← hsnd] at hid
    obtain ⟨x, hx, hid⟩ := List.mem_map.mp hid
    obtain ⟨label, -, hlabel⟩ := hrec.labels x hx id hid
    exact hreflects.listsMarker hrec.consistent (List.getElem?_eq_some_iff.mp hlabel).1

theorem showsRegistry_snapshot_last :
    ∃ obs w obs' before proc dir,
      run tickingPlatform (World.initial eightPayloads)
        (callsBy 0 [.start, .markAdd "compute", .getJsonStr, .stop]) = .ok (obs, w) ∧
      run tickingPlatform (World.initial eightPayloads)
        (callsBy 0 [.start, .markAdd "compute", .getJsonStr]) = .ok (obs', before) ∧
      before.tracrProc = some proc ∧ w.disk.lookup proc.getFolderPath = some dir ∧
        ShowsRegistry proc obs' dir := by
  obtain ⟨obs, w, hrun⟩ : ∃ obs w, run tickingPlatform (World.initial eightPayloads)
      (callsBy 0 [.start, .markAdd "compute", .getJsonStr, .stop]) = .ok (obs, w) :=
    ⟨_, _, rfl⟩
  obtain ⟨obs', before, proc, dir, hmost, hproc, hdir, hiff⟩ :=
    @showsRegistry_iff _ _ rfl _ _ ⟨0, .start, .none⟩ ⟨0, .stop, .none⟩
      (callsBy 0 [.markAdd "compute", .getJsonStr]) _ rfl rfl (by simp [callsBy]) hrun
  exact ⟨obs, w, obs', before, proc, dir, hrun, hmost, hproc, hdir, hiff.mpr rfl⟩

theorem not_showsRegistry_late_mark :
    ∃ obs w obs' before proc dir,
      run tickingPlatform (World.initial eightPayloads)
        (callsBy 0 [.start, .markAdd "a", .getJsonStr, .markAdd "b", .stop]) = .ok (obs, w) ∧
      run tickingPlatform (World.initial eightPayloads)
        (callsBy 0 [.start, .markAdd "a", .getJsonStr, .markAdd "b"]) = .ok (obs', before) ∧
      before.tracrProc = some proc ∧ w.disk.lookup proc.getFolderPath = some dir ∧
        ¬ ShowsRegistry proc obs' dir := by
  obtain ⟨obs, w, obs', before, proc, dir, hrun, hmost, hproc, hdir, hlabels, hfile⟩ :
      ∃ obs w obs' before proc dir,
      run tickingPlatform (World.initial eightPayloads)
        (callsBy 0 [.start, .markAdd "a", .getJsonStr, .markAdd "b", .stop]) = .ok (obs, w) ∧
      run tickingPlatform (World.initial eightPayloads)
        (callsBy 0 [.start, .markAdd "a", .getJsonStr, .markAdd "b"]) = .ok (obs', before) ∧
      before.tracrProc = some proc ∧ w.disk.lookup proc.getFolderPath = some dir ∧
      proc.markerLabels = ["a", "b"] ∧
      (dir.metadata.bind fun file => file.member? "markerLabels") = some (.array [.string "a"]) :=
    ⟨_, _, _, _, _, _, rfl, rfl, rfl, rfl, rfl, rfl⟩
  refine ⟨obs, w, obs', before, proc, dir, hrun, hmost, hproc, hdir, ?_⟩
  rintro ⟨fields, hfields, hreflects, -⟩
  rw [hfields] at hfile
  have hone : fields.lookup "markerLabels" = some (.array [.string "a"]) := hfile
  rw [hreflects.labels, hlabels] at hone
  simp at hone

end TraCR
