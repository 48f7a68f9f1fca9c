import TraCR.Lib.Decimal
import TraCR.Engine.Payload
import TraCR.Engine.Disk

/-!
# The proc object

`TraCRProc` of `marker_management_engine.hpp`: the marker registry, the channel
metadata and the `metadata.json` document.  `_json_file` is the list of its
fields; it is null, here empty, until the first assignment.
-/

namespace TraCR

structure TraCRProc where
  /-- `colorId -> label`. -/
  markerTypes : Table UInt16 String
  /-- Labels indexed by event id. -/
  markerLabels : List String
  /-- Colour ids indexed by event id. -/
  markerColorIds : List UInt16
  jsonFile : List (String × Json)
  procFolderName : ProcPath
  jsonIsReady : Bool
  tracrInitTime : UInt64
  tid : Pid
  procId : Pid

namespace TraCRProc

/-- The constructor reads the clock for the start anchor. -/
def create (now : UInt64) (tid procId : Pid) : TraCRProc where
  markerTypes := ∅
  markerLabels := []
  markerColorIds := []
  jsonFile := []
  procFolderName := { base := "", folder := s!"proc.{procId}" }
  jsonIsReady := false
  tracrInitTime := now
  tid := tid
  procId := procId

/-- Make the proc folder below `path`; folders that exist are fine.  `none` is
the return value `false`. -/
def createFolderRecursive (proc : TraCRProc) (path : String) (disk : Disk)
    (fault : Fault) : Option (TraCRProc × Disk) :=
  let name := { proc.procFolderName with base := path ++ "tracr/" }
  if fault = .mkdir then none
  else
    let dir := (disk.lookup name).getD { metadata := none, threads := ∅ }
    some ({ proc with procFolderName := name }, disk.insert name dir)

def getFolderPath (proc : TraCRProc) : ProcPath := proc.procFolderName

def setField (proc : TraCRProc) (key : String) (value : Json) : TraCRProc :=
  { proc with jsonFile := insertField key value proc.jsonFile }

def addCustomChannelNames (proc : TraCRProc) (channelNames : Json) : TraCRProc :=
  (proc.setField "channel_names" channelNames).setField "num_channels"
    (.number channelNames.size)

def addNumberOfChannels (proc : TraCRProc) (numChannels : UInt16) : TraCRProc :=
  proc.setField "num_channels" (.number numChannels.toNat)

def jsonMarkerTypes (fields : List (String × Json)) : List (String × Json) :=
  match fields.lookup "markerTypes" with
  | some (.object types) => types
  | _ => []

def setMarkerType (fields : List (String × Json)) (key : UInt16) (label : String) :
    List (String × Json) :=
  insertField "markerTypes"
    (.object (insertField (toString key.toNat) (.string label)
      (jsonMarkerTypes fields))) fields

/-- The loop over `_markerTypes`.  Its order is unspecified and does not matter:
the keys differ and the object keeps itself sorted. -/
def writeMarkerTypes (types : List (Sigma fun _ : UInt16 => String))
    (fields : List (String × Json)) : List (String × Json) :=
  types.foldl (fun fields entry => setMarkerType fields entry.1 entry.2) fields

def writeJSON (proc : TraCRProc) (now : UInt64) : TraCRProc :=
  let proc := proc.setField "pid" (.number proc.procId.val)
  let proc := proc.setField "start_time" (.number proc.tracrInitTime.toNat)
  let proc := proc.setField "end_time" (.number now.toNat)
  let proc := proc.setField "markerLabels"
    (.array (proc.markerLabels.map .string))
  let proc := proc.setField "markerColorIds"
    (.array (proc.markerColorIds.map fun id => .number id.toNat))
  { proc with
    jsonFile := writeMarkerTypes proc.markerTypes.entries proc.jsonFile
    jsonIsReady := true }

/-- Write `metadata.json`, reading the clock from its `reads`-th reading on.
`write_JSON` runs only if it has not run before; the end anchor is refreshed in
any case. -/
def dumpJSON (proc : TraCRProc) (clock : Nat → UInt64) (reads : Nat) (disk : Disk)
    (fault : Fault) : Except Stop (TraCRProc × Nat × Disk) :=
  let (proc, reads) :=
    if proc.jsonIsReady then (proc, reads)
    else (proc.writeJSON (clock reads), reads + 1)
  let proc := proc.setField "end_time" (.number (clock reads).toNat)
  let path := proc.getFolderPath
  let file := path.base ++ path.folder ++ "/metadata.json"
  if fault = .openMetadata then .error (.exit (.openMetadataFailed file))
  else
    match disk.lookup path with
    | none => .error (.exit (.openMetadataFailed file))
    | some dir =>
        .ok (proc, reads + 1,
          disk.insert path { dir with metadata := some (.object proc.jsonFile) })

/-! ## What is written -/

/-- The document `dump_JSON` writes: the one of an earlier `write_JSON`, if there
was one, with a fresh end anchor. -/
def dumped (proc : TraCRProc) (clock : Nat → UInt64) (reads : Nat) : TraCRProc :=
  if proc.jsonIsReady then proc.setField "end_time" (.number (clock reads).toNat)
  else (proc.writeJSON (clock reads)).setField "end_time" (.number (clock (reads + 1)).toNat)

variable {proc proc' : TraCRProc}

theorem lookup_setField_ne {key key' : String} (h : key' ≠ key) (value : Json) :
    (proc.setField key value).jsonFile.lookup key' = proc.jsonFile.lookup key' :=
  lookup_insertField_ne h value proc.jsonFile

@[simp] theorem lookup_setField_self (key : String) (value : Json) :
    (proc.setField key value).jsonFile.lookup key = some value :=
  lookup_insertField_self key value proc.jsonFile

/-- The fields `write_JSON` assigns before the loop over `_markerTypes`. -/
def baseFields (proc : TraCRProc) (now : UInt64) : List (String × Json) :=
  (((((proc.setField "pid" (.number proc.procId.val)).setField
    "start_time" (.number proc.tracrInitTime.toNat)).setField
    "end_time" (.number now.toNat)).setField
    "markerLabels" (.array (proc.markerLabels.map .string))).setField
    "markerColorIds" (.array (proc.markerColorIds.map fun id => .number id.toNat))).jsonFile

theorem jsonFile_writeJSON (now : UInt64) :
    (proc.writeJSON now).jsonFile =
      writeMarkerTypes proc.markerTypes.entries (proc.baseFields now) := rfl

theorem writeJSON_eq (proc : TraCRProc) (now : UInt64) :
    proc.writeJSON now = { proc with
      jsonFile := writeMarkerTypes proc.markerTypes.entries (proc.baseFields now)
      jsonIsReady := true } := by
  simp only [writeJSON, baseFields, setField]

@[simp] theorem markerLabels_writeJSON (now : UInt64) :
    (proc.writeJSON now).markerLabels = proc.markerLabels := by
  rw [writeJSON_eq]

@[simp] theorem markerColorIds_writeJSON (now : UInt64) :
    (proc.writeJSON now).markerColorIds = proc.markerColorIds := by
  rw [writeJSON_eq]

@[simp] theorem markerTypes_writeJSON (now : UInt64) :
    (proc.writeJSON now).markerTypes = proc.markerTypes := by
  rw [writeJSON_eq]

@[simp] theorem getFolderPath_writeJSON (now : UInt64) :
    (proc.writeJSON now).getFolderPath = proc.getFolderPath := by
  rw [writeJSON_eq]
  rfl

theorem dumpJSON_ok {clock : Nat → UInt64} {reads reads' : Nat}
    {disk disk' : Disk} {fault : Fault}
    (h : proc.dumpJSON clock reads disk fault = .ok (proc', reads', disk')) :
    ∃ dir, disk.lookup proc.getFolderPath = some dir ∧
      disk' = disk.insert proc.getFolderPath
        { dir with metadata := some (.object (proc.dumped clock reads).jsonFile) } := by
  have hwrite : ∀ (made : TraCRProc) (n : Nat),
      made.getFolderPath = proc.getFolderPath →
        (let file := made.getFolderPath.base ++ made.getFolderPath.folder ++ "/metadata.json"
          if fault = .openMetadata then .error (.exit (.openMetadataFailed file))
          else
            match disk.lookup made.getFolderPath with
            | none => .error (.exit (.openMetadataFailed file))
            | some dir =>
                .ok (made, n + 1, disk.insert made.getFolderPath
                  { dir with metadata := some (.object made.jsonFile) }) :
            Except Stop (TraCRProc × Nat × Disk)) = .ok (proc', reads', disk') →
          ∃ dir, disk.lookup proc.getFolderPath = some dir ∧
            disk' = disk.insert proc.getFolderPath
              { dir with metadata := some (.object made.jsonFile) } := by
    intro made n hpath hmade
    simp only at hmade
    split at hmade
    · cases hmade
    · split at hmade
      · cases hmade
      next dir hdir =>
        obtain ⟨-, hrest⟩ := Prod.mk.inj (Except.ok.inj hmade)
        rw [hpath] at hdir hrest
        exact ⟨dir, hdir, (Prod.mk.inj hrest).2.symm⟩
  unfold dumpJSON at h
  unfold dumped
  by_cases hready : proc.jsonIsReady = true
  · rw [if_pos hready] at h ⊢
    exact hwrite _ _ rfl h
  · rw [if_neg hready] at h ⊢
    exact hwrite _ _ (@getFolderPath_writeJSON proc (clock reads)) h

theorem dumpJSON_eq (clock : Nat → UInt64) (reads : Nat) (disk : Disk) (fault : Fault) :
    proc.dumpJSON clock reads disk fault =
      let file := proc.getFolderPath.base ++ proc.getFolderPath.folder ++ "/metadata.json"
      if fault = .openMetadata then .error (.exit (.openMetadataFailed file))
      else
        match disk.lookup proc.getFolderPath with
        | none => .error (.exit (.openMetadataFailed file))
        | some dir =>
            .ok (proc.dumped clock reads, if proc.jsonIsReady then reads + 1 else reads + 2,
              disk.insert proc.getFolderPath
                { dir with metadata := some (.object (proc.dumped clock reads).jsonFile) }) := by
  unfold dumpJSON dumped
  cases hready : proc.jsonIsReady with
  | true => rfl
  | false =>
      simp only [Bool.false_eq_true, if_false]
      have hpath : ((proc.writeJSON (clock reads)).setField "end_time"
          (.number (clock (reads + 1)).toNat)).getFolderPath = proc.getFolderPath :=
        getFolderPath_writeJSON (clock reads)
      rw [hpath]
      rfl

theorem lookup_baseFields_ne {key : String}
    (h : key ∉ ["pid", "start_time", "end_time", "markerLabels", "markerColorIds"])
    (now : UInt64) : (proc.baseFields now).lookup key = proc.jsonFile.lookup key := by
  simp only [List.mem_cons, List.not_mem_nil, or_false, not_or] at h
  obtain ⟨hpid, hstart, hend, hlabels, hcolours⟩ := h
  unfold baseFields
  rw [lookup_setField_ne hcolours, lookup_setField_ne hlabels, lookup_setField_ne hend,
    lookup_setField_ne hstart, lookup_setField_ne hpid]

theorem lookup_writeMarkerTypes_ne {key : String} (h : key ≠ "markerTypes")
    (types : List (Sigma fun _ : UInt16 => String)) (fields : List (String × Json)) :
    (writeMarkerTypes types fields).lookup key = fields.lookup key := by
  unfold writeMarkerTypes
  induction types generalizing fields with
  | nil => rfl
  | cons entry types ih =>
      rw [List.foldl_cons, ih]
      exact lookup_insertField_ne h _ fields

theorem jsonMarkerTypes_setMarkerType (fields : List (String × Json)) (key : UInt16)
    (label : String) :
    jsonMarkerTypes (setMarkerType fields key label) =
      insertField (toString key.toNat) (.string label) (jsonMarkerTypes fields) := by
  simp [jsonMarkerTypes, setMarkerType]

theorem ascending_writeMarkerTypes (types : List (Sigma fun _ : UInt16 => String))
    {fields : List (String × Json)} (h : Ascending (jsonMarkerTypes fields)) :
    Ascending (jsonMarkerTypes (writeMarkerTypes types fields)) := by
  unfold writeMarkerTypes
  induction types generalizing fields with
  | nil => exact h
  | cons entry types ih =>
      apply ih
      rw [jsonMarkerTypes_setMarkerType]
      exact h.insertField _ _

/-- The loop writes every entry of `_markerTypes` and keeps the other keys. -/
theorem lookup_writeMarkerTypes {types : List (Sigma fun _ : UInt16 => String)}
    (hnodup : types.NodupKeys) (fields : List (String × Json)) (key : String) (value : Json) :
    (jsonMarkerTypes (writeMarkerTypes types fields)).lookup key = some value ↔
      (∃ entry ∈ types, key = toString entry.1.toNat ∧ value = .string entry.2) ∨
        ((∀ entry ∈ types, key ≠ toString entry.1.toNat) ∧
          (jsonMarkerTypes fields).lookup key = some value) := by
  unfold writeMarkerTypes
  induction types generalizing fields with
  | nil => simp
  | cons entry types ih =>
      obtain ⟨hfresh, hrest⟩ := List.nodupKeys_cons.mp hnodup
      rw [List.foldl_cons, ih hrest, jsonMarkerTypes_setMarkerType]
      by_cases hkey : key = toString entry.1.toNat
      · have hother : ∀ entry' ∈ types, key ≠ toString entry'.1.toNat := by
          intro entry' hentry' heq
          have hnat := Lib.Decimal.toString_injective (hkey.symm.trans heq)
          exact hfresh (List.mem_keys.mpr ⟨entry'.2, by
            rw [UInt16.toNat_inj.mp hnat]
            exact hentry'⟩)
        rw [hkey, lookup_insertField_self]
        constructor
        · rintro (⟨entry', hentry', heq, -⟩ | ⟨-, hvalue⟩)
          · exact absurd (hkey.trans heq) (hother entry' hentry')
          · exact .inl ⟨entry, List.mem_cons_self, rfl, (Option.some.inj hvalue).symm⟩
        · rintro (⟨entry', hentry', heq, rfl⟩ | ⟨hall, -⟩)
          · rcases List.mem_cons.mp hentry' with rfl | hentry'
            · exact .inr ⟨fun e he => hkey ▸ hother e he, rfl⟩
            · exact absurd (hkey.trans heq) (hother entry' hentry')
          · exact absurd rfl (hall entry List.mem_cons_self)
      · rw [lookup_insertField_ne hkey, List.forall_mem_cons, List.exists_mem_cons_iff]
        simp only [hkey, false_and, false_or, ne_eq, not_false_eq_true, true_and]

end TraCRProc

end TraCR
