import TraCR.Core.Effects
import TraCR.Postprocess.Load
import TraCR.Proofs.Serializer

/-!
# The text of `metadata.json`

The model keeps documents as values where the program writes their texts.  This is no loss:
at any moment of any run the text of each `metadata.json` is read back as its document,
and a text whose end is missing is refused.
-/

namespace TraCR

open TraCR.Lib TraCR.Lib.Run TraCR.TraCRProc

/-! ## What can be stored -/

theorem storableElements_iff {elements : List Json} :
    StorableElements elements ↔ ∀ element ∈ elements, element.Storable := by
  induction elements with
  | nil => simp [StorableElements]
  | cons element elements ih =>
      rw [StorableElements, ih, List.forall_mem_cons]

theorem storableFields_iff {fields : List (String × Json)} :
    StorableFields fields ↔ ∀ field ∈ fields, field.2.Storable := by
  induction fields with
  | nil => simp [StorableFields]
  | cons field fields ih => rw [StorableFields, ih, List.forall_mem_cons]

theorem storable_natCast {n : Nat} (h : n < 2 ^ 64) : (Json.number n).Storable :=
  ⟨by omega, by omega⟩

theorem storable_array_map {α : Type} {f : α → Json} (h : ∀ a, (f a).Storable) (l : List α) :
    (Json.array (l.map f)).Storable := by
  refine storableElements_iff.mpr fun element helement => ?_
  obtain ⟨a, -, rfl⟩ := List.mem_map.mp helement
  exact h a

section Fields

variable {fields : List (String × Json)}

theorem storable_empty : (Json.object []).Storable := ⟨List.Pairwise.nil, trivial⟩

theorem storable_insertField (h : (Json.object fields).Storable) (key : String) {value : Json}
    (hvalue : value.Storable) : (Json.object (insertField key value fields)).Storable := by
  obtain ⟨hascending, hfields⟩ := h
  refine ⟨hascending.insertField key value, storableFields_iff.mpr fun field hfield => ?_⟩
  rcases mem_of_mem_insertField hfield with rfl | hold
  · exact hvalue
  · exact storableFields_iff.mp hfields field hold

theorem storable_insertAll {into : List (String × Json)} (h : ∀ field ∈ fields, field.2.Storable)
    (hinto : (Json.object into).Storable) : (Json.object (insertAll fields into)).Storable := by
  induction fields generalizing into with
  | nil => exact hinto
  | cons field fields ih =>
      obtain ⟨hhead, htail⟩ := List.forall_mem_cons.mp h
      exact ih htail (storable_insertField hinto field.1 hhead)

theorem storable_jsonMarkerTypes (h : (Json.object fields).Storable) :
    (Json.object (jsonMarkerTypes fields)).Storable := by
  unfold jsonMarkerTypes
  split
  next types htypes =>
    have hmem := h.1.lookup_eq_some_iff.mp htypes
    exact storableFields_iff.mp h.2 _ hmem
  · exact storable_empty

theorem storable_writeMarkerTypes (types : List (Sigma fun _ : UInt16 => String))
    (h : (Json.object fields).Storable) :
    (Json.object (writeMarkerTypes types fields)).Storable := by
  unfold writeMarkerTypes
  induction types generalizing fields with
  | nil => exact h
  | cons entry types ih =>
      apply ih
      exact storable_insertField h _
        (storable_insertField (storable_jsonMarkerTypes h) _ trivial)

end Fields

mutual

theorem storable_of_denotes : ∀ (t : JsonText.Tree) {j : Json}, Denotes t j → j.Storable
  | .null, _, .null => trivial
  | .boolean _, _, .boolean _ => trivial
  | .number _, _, .number _ hmin hmax => ⟨hmin, hmax⟩
  | .string _, _, .string _ => trivial
  | .array elements, _, .array h => storable_of_denoteElements elements h
  | .object members, _, .object h =>
      storable_insertAll (storable_of_denoteMembers members h) storable_empty

theorem storable_of_denoteElements : ∀ (elements : List JsonText.Tree) {values : List Json},
    DenoteElements elements values → StorableElements values
  | [], _, .nil => trivial
  | t :: elements, _, .cons h hs =>
      ⟨storable_of_denotes t h, storable_of_denoteElements elements hs⟩

theorem storable_of_denoteMembers : ∀ (members : List (JsonText.Literal × JsonText.Tree))
    {fields : List (String × Json)}, DenoteMembers members fields →
      ∀ field ∈ fields, field.2.Storable
  | [], _, .nil => fun _ hfield => absurd hfield List.not_mem_nil
  | (_, t) :: members, _, .cons _ h hs =>
      List.forall_mem_cons.mpr ⟨storable_of_denotes t h, storable_of_denoteMembers members hs⟩

end

theorem storable_of_parseJson {text rest : List Char} {j : Json}
    (h : parseJson text = .ok (j, rest)) : j.Storable := by
  obtain ⟨_, _, _, t, -, -, -, hj, -⟩ := parseJson_sound h
  exact storable_of_denotes t hj

section Proc

variable {proc : TraCRProc}

theorem storable_writeJSON (h : (Json.object proc.jsonFile).Storable) (now : UInt64) :
    (Json.object (proc.writeJSON now).jsonFile).Storable := by
  have hpid : (Json.number proc.procId.val).Storable :=
    storable_natCast (lt_trans proc.procId.2.2 (by decide))
  have htime : ∀ t : UInt64, (Json.number t.toNat).Storable := fun t => storable_natCast t.toNat_lt
  have hcolour : ∀ id : UInt16, (Json.number id.toNat).Storable :=
    fun id => storable_natCast (lt_trans id.toNat_lt (by decide))
  rw [jsonFile_writeJSON]
  apply storable_writeMarkerTypes
  have hanchors := storable_insertField
    (storable_insertField (storable_insertField h "pid" hpid) "start_time"
      (htime proc.tracrInitTime)) "end_time" (htime now)
  exact storable_insertField
    (storable_insertField hanchors "markerLabels"
      (storable_array_map (f := .string) (fun _ => trivial) proc.markerLabels))
    "markerColorIds" (storable_array_map hcolour proc.markerColorIds)

theorem storable_dumped (h : (Json.object proc.jsonFile).Storable) (clock : Nat → UInt64)
    (reads : Nat) : (Json.object (proc.dumped clock reads).jsonFile).Storable := by
  unfold dumped
  split
  · exact storable_insertField h _ (storable_natCast (clock reads).toNat_lt)
  · exact storable_insertField (storable_writeJSON h _) _
      (storable_natCast (clock (reads + 1)).toNat_lt)

end Proc

/-! ## The documents of a run -/

/-- A document as the library makes it. -/
def Json.IsMetadata (j : Json) : Prop := j.Storable ∧ ∃ fields, j = .object fields

def DiskDocuments (disk : Disk) : Prop :=
  ∀ path dir j, disk.lookup path = some dir → dir.metadata = some j → j.IsMetadata

structure Documents {b : Build} (w : World b) : Prop where
  proc : ∀ proc, w.tracrProc = some proc → (Json.object proc.jsonFile).Storable
  disk : DiskDocuments w.disk

/-- The channel names a program passes are values `nlohmann::json` can hold. -/
def Call.NamesStorable (c : Call) : Prop :=
  ∀ names, c = .addCustomChannelNames names → names.Storable ∧ names.size < 2 ^ 64

def Obs.IsMetadata (o : Obs) : Prop := ∀ j, o = .document j → j.IsMetadata

theorem documents_initial (b : Build) : Documents (World.initial b) where
  proc _ h := nomatch h
  disk _ _ _ h := nomatch h

theorem DiskDocuments.insert {disk : Disk} (h : DiskDocuments disk) {path : ProcPath}
    {dir : ProcDir} (hdir : ∀ j, dir.metadata = some j → j.IsMetadata) :
    DiskDocuments (disk.insert path dir) := by
  intro path' dir' j hlookup hj
  by_cases hpath : path' = path
  · rw [hpath, AList.lookup_insert] at hlookup
    exact hdir j (Option.some.inj hlookup ▸ hj)
  · rw [AList.lookup_insert_ne hpath] at hlookup
    exact h path' dir' j hlookup hj

variable {b : Build} {pf : Platform} {w w' : World b}

theorem DiskDocuments.flushTraces {disk disk' : Disk} (h : DiskDocuments disk)
    {th : TraCRThread b} {path : ProcPath} {fault : Fault}
    (hflush : th.flushTraces disk path fault = .ok disk') : DiskDocuments disk' := by
  rcases TraCRThread.flushTraces_ok hflush with ⟨-, rfl⟩ | ⟨-, dir, hdir, rfl⟩
  · exact h
  · exact h.insert fun j hj => h path dir j hdir hj

theorem DiskDocuments.createFolders {proc made : TraCRProc} {disk : Disk} {fault : Fault}
    (h : DiskDocuments w.disk) (hmade : w.createFolders proc fault = .ok (made, disk)) :
    DiskDocuments disk := by
  cases hflush : b.disableFlush with
  | true =>
      unfold World.createFolders at hmade
      rw [if_pos hflush] at hmade
      obtain ⟨-, rfl⟩ := Prod.mk.inj (Except.ok.inj hmade)
      exact h
  | false =>
      obtain ⟨-, rfl⟩ := createFolders_ok hflush hmade
      refine h.insert fun j hj => ?_
      cases hdir : w.disk.lookup made.getFolderPath with
      | none => simp [hdir] at hj
      | some dir => exact h _ dir j hdir (by simpa [hdir] using hj)

theorem DiskDocuments.flushThread {th : TraCRThread b} {disk : Disk} {fault : Fault}
    (h : DiskDocuments w.disk) (hdisk : w.flushThread th fault = .ok disk) :
    DiskDocuments disk := by
  cases hflush : b.disableFlush with
  | true =>
      unfold World.flushThread at hdisk
      rw [if_pos hflush] at hdisk
      exact Except.ok.inj hdisk ▸ h
  | false =>
      obtain ⟨proc, -, htraces⟩ := flushThread_ok hflush hdisk
      exact h.flushTraces htraces

theorem DiskDocuments.flushProc {proc : TraCRProc} {th : TraCRThread b} {fault : Fault}
    (h : DiskDocuments w.disk) (hproc : (Json.object proc.jsonFile).Storable)
    (hw : w.flushProc pf proc th fault = .ok w') : DiskDocuments w'.disk := by
  cases hflush : b.disableFlush with
  | true =>
      unfold World.flushProc at hw
      rw [if_pos hflush] at hw
      exact Except.ok.inj hw ▸ h
  | false =>
      obtain ⟨-, disk, dir, reads, htraces, -, rfl⟩ := flushProc_ok hflush hw
      refine (h.flushTraces htraces).insert fun j hj => ?_
      obtain rfl := Option.some.inj hj
      exact ⟨storable_dumped hproc pf.clock w.reads, _, rfl⟩

theorem storable_update {c : Call} {f : TraCRProc → TraCRProc} (h : c.update? = some f)
    (hnames : c.NamesStorable) {proc : TraCRProc} (hproc : (Json.object proc.jsonFile).Storable) :
    (Json.object (f proc).jsonFile).Storable := by
  cases c with
  | addCustomChannelNames names =>
      cases h
      obtain ⟨hstorable, hsize⟩ := hnames names rfl
      exact storable_insertField (storable_insertField hproc _ hstorable) _ (storable_natCast hsize)
  | addNumberOfChannels n =>
      cases h
      exact storable_insertField hproc _ (storable_natCast (lt_trans n.toNat_lt (by decide)))
  | _ => cases h

/-- Every call keeps the documents, and returns one if it returns any. -/
theorem Documents.step {a : Action} {o : Obs} (h : Documents w) (hnames : a.call.NamesStorable)
    (hstep : step pf w a = .ok (o, w')) : Documents w' ∧ o.IsMetadata := by
  have hnone : ∀ {o : Obs}, (∀ j, o ≠ .document j) → o.IsMetadata :=
    fun hne j hj => absurd hj (hne j)
  cases effect_of_step hstep with
  | start _ _ _ hfolders =>
      obtain ⟨name, rfl⟩ := exists_of_createFolders hfolders
      refine ⟨⟨fun proc hproc => ?_, h.disk.createFolders hfolders⟩, hnone (by simp)⟩
      obtain rfl := Option.some.inj hproc
      exact storable_empty
  | threadInit => exact ⟨⟨h.proc, h.disk⟩, hnone (by simp)⟩
  | threadFinalize _ _ hflush => exact ⟨⟨h.proc, h.disk.flushThread hflush⟩, hnone (by simp)⟩
  | stop _ hproc _ hflush =>
      have hdisk := h.disk.flushProc (h.proc _ hproc) hflush
      exact ⟨⟨fun _ hsome => (nomatch hsome), hdisk⟩, hnone (by simp)⟩
  | register _ hproc =>
      have hold := h.proc _ hproc
      exact ⟨⟨fun _ hsome => Option.some.inj hsome ▸ hold, h.disk⟩, hnone (by simp)⟩
  | update hcall hproc =>
      exact ⟨⟨fun _ hsome => Option.some.inj hsome ▸ storable_update hcall hnames (h.proc _ hproc),
        h.disk⟩, hnone (by simp)⟩
  | snapshot _ hproc =>
      have hwritten := storable_writeJSON (h.proc _ hproc) (pf.clock w.reads)
      refine ⟨⟨fun _ hsome => Option.some.inj hsome ▸ hwritten, h.disk⟩, fun j hj => ?_⟩
      cases hj
      exact ⟨hwritten, _, rfl⟩
  | untraced => exact ⟨h, hnone (by simp)⟩
  | store => exact ⟨⟨h.proc, h.disk⟩, hnone (by simp)⟩
  | on => exact ⟨⟨h.proc, h.disk⟩, hnone (by simp)⟩
  | off => exact ⟨⟨h.proc, h.disk⟩, hnone (by simp)⟩
  | tracePath => exact ⟨⟨h.proc, h.disk⟩, hnone (by simp)⟩

theorem documents_of_run {w₀ : World b} (h : Documents w₀) {actions : List Action}
    (hnames : ∀ a ∈ actions, a.call.NamesStorable) {obs : List Obs}
    (hrun : run pf w₀ actions = .ok (obs, w)) :
    Documents w ∧ ∀ x ∈ actions.zip obs, x.2.IsMetadata := by
  have hkept := exec_history (P := fun _ a => a.call.NamesStorable)
    (I := fun w history => Documents w ∧ ∀ x ∈ history, x.2.IsMetadata) (h := [])
    (fun w history a o w' hI hP hstep => by
      obtain ⟨hdocuments, ho⟩ := hI.1.step hP hstep
      refine ⟨hdocuments, fun x hx => ?_⟩
      rcases List.mem_append.mp hx with hx | hx
      · exact hI.2 x hx
      · rw [List.mem_singleton.mp hx]
        exact ho)
    ⟨h, fun x hx => nomatch hx⟩ (along_of_forall hnames) hrun
  simpa using hkept

/-! ## The texts -/

/-- What `load_metadata_json` makes of a text: its value, or that it is not JSON.  A text
with a floating-point number has no value in the model. -/
inductive ReadsAs (text : List Char) : Option Json → Prop where
  | value {j : Json} {rest : List Char} : parseJson text = .ok (j, rest) → ReadsAs text (some j)
  | failed {e : ParseError} : parseJson text = .error (.syntaxError e) → ReadsAs text none

theorem readsAs_iff_of_ok {text rest : List Char} {j : Json}
    (h : parseJson text = .ok (j, rest)) (r : Option Json) : ReadsAs text r ↔ r = some j := by
  constructor
  · rintro (hvalue | hfailed)
    · rw [h] at hvalue
      rw [(Prod.mk.inj (Except.ok.inj hvalue)).1]
    · rw [h] at hfailed
      cases hfailed
  · rintro rfl
    exact .value h

theorem readsAs_iff_of_error {text : List Char} {e : ParseError}
    (h : parseJson text = .error (.syntaxError e)) (r : Option Json) :
    ReadsAs text r ↔ r = none := by
  constructor
  · rintro (hvalue | hfailed)
    · rw [h] at hvalue
      cases hvalue
    · rfl
  · rintro rfl
    exact .failed h

theorem Json.IsMetadata.ne_number {j : Json} (h : j.IsMetadata) (n : Int) : j ≠ .number n := by
  obtain ⟨-, fields, rfl⟩ := h
  exact fun hn => nomatch hn

/-- A document is written, and its text is read as the document, but no part of it that
lacks the end is read as anything. -/
theorem Json.IsMetadata.exists_dump {j : Json} (h : j.IsMetadata) {indent : Int}
    (hindent : indent ≤ 1024) : ∃ written, j.dump indent = some written ∧
      ∀ text, text <+: written.toList →
        ∀ r, ReadsAs text r ↔ r = if text = written.toList then some j else none := by
  obtain ⟨prettyPrint, indentStep, hdump⟩ : ∃ prettyPrint indentStep,
      j.dump indent = some (String.ofList (layout prettyPrint indentStep 0 j)) :=
    ⟨_, _, Json.dump_eq (.inl hindent)⟩
  refine ⟨_, hdump, fun text hbegin r => ?_⟩
  rw [String.toList_ofList] at hbegin ⊢
  split
  case isTrue hwhole =>
    rw [hwhole]
    exact readsAs_iff_of_ok (parseJson_layout h.1 _ _ _) r
  case isFalse hne =>
    obtain ⟨e, he⟩ := parseJson_of_isPrefix h.1 _ _ _ h.ne_number hbegin hne
    exact readsAs_iff_of_error he r

/-- Each `metadata.json`, as far as it is written, is read as its document or not at all,
and so is each text the program was given. -/
structure ReadBack (w : World b) (obs : List Obs) : Prop where
  files : ∀ path dir j, w.disk.lookup path = some dir → dir.metadata = some j →
    ∃ written, j.dump 4 = some written ∧ ∀ text, text <+: written.toList →
      ∀ r, ReadsAs text r ↔ r = if text = written.toList then some j else none
  returned : ∀ j, .document j ∈ obs → ∃ written, j.dump (-1) = some written ∧
    ∀ text, text <+: written.toList →
      ∀ r, ReadsAs text r ↔ r = if text = written.toList then some j else none

/-- In every run from a disk with documents of the library, if the channel names are values
that can be stored. -/
theorem readBack_of_run {w₀ : World b} (hstart : Documents w₀) {actions : List Action}
    (hnames : ∀ a ∈ actions, a.call.NamesStorable) {obs : List Obs}
    (hrun : run pf w₀ actions = .ok (obs, w)) : ReadBack w obs := by
  obtain ⟨hdocuments, hobs⟩ := documents_of_run hstart hnames hrun
  constructor
  · intro path dir j hdir hj
    exact (hdocuments.disk path dir j hdir hj).exists_dump (by decide)
  · intro j hj
    have hlength := exec_length hrun
    have hmem : (.document j) ∈ (actions.zip obs).map Prod.snd := by
      rw [List.map_snd_zip (by omega)]
      exact hj
    obtain ⟨x, hx, hdocument⟩ := List.mem_map.mp hmem
    exact (hobs x hx j hdocument).exists_dump (by decide)

def namedSession : List Action :=
  callsBy 0 [.start, .addCustomChannelNames (.array [.string "core \"0\""]), .markAdd "a",
    .getJsonStr, .stop]

theorem readBack_namedSession :
    ∃ obs w, run tickingPlatform (World.initial eightPayloads) namedSession = .ok (obs, w) ∧
      ReadBack w obs := by
  obtain ⟨obs, w, hrun⟩ : ∃ obs w, run tickingPlatform (World.initial eightPayloads)
      namedSession = .ok (obs, w) := ⟨_, _, rfl⟩
  refine ⟨obs, w, hrun, readBack_of_run (documents_initial eightPayloads) ?_ hrun⟩
  intro a ha names hcall
  have hall : ∀ a ∈ namedSession, a.call.update? = none ∨
      a.call = .addCustomChannelNames (.array [.string "core \"0\""]) := by
    simp [namedSession, callsBy, Call.update?]
  rcases hall a ha with hnone | hsome
  · rw [hcall] at hnone
    cases hnone
  · rw [hcall] at hsome
    cases hsome
    exact ⟨⟨trivial, trivial⟩, by decide⟩

end TraCR
