import TraCR.Proofs.EventValues

/-!
# The labels of event values

`create_tracr_pcf` merges the maps from colours to labels of all procs, the first label
of a colour wins.  Without a conflict every value of `tracr.prv` has one entry there, with
the label Perfetto shows.
-/

namespace TraCR

open TraCR.Lib.Traversal TraCR.TraCRProc

/-! ## Merging maps -/

def PcfFile.Resolves (pcf : PcfFile) (key label : String) : Prop :=
  pcf.values.filter (fun entry => entry.1 = key) = [(key, .string label)]

section Merge

variable (pcf : PcfFile)

theorem PcfFile.lookup_emplace (field : String × Json) (key : String) :
    (pcf.emplace field).values.lookup key =
      (pcf.values.lookup key).or (if key = field.1 then some field.2 else none) := by
  unfold PcfFile.emplace
  split
  next hnone =>
    by_cases hkey : key = field.1
    · simp [hkey, hnone]
    · simp [hkey, lookup_insertField_ne hkey]
  next kept hsome =>
    have hsame : pcf.values.lookup key =
        (pcf.values.lookup key).or (if key = field.1 then some field.2 else none) := by
      by_cases hkey : key = field.1
      · simp [hkey, hsome]
      · simp [hkey]
    split <;> exact hsame

theorem PcfFile.ascending_emplace (h : Ascending pcf.values) (field : String × Json) :
    Ascending (pcf.emplace field).values := by
  unfold PcfFile.emplace
  split
  · exact h.insertField _ _
  · split <;> exact h

variable (fields : List (String × Json))

theorem PcfFile.lookup_foldl_emplace (key : String) :
    (fields.foldl PcfFile.emplace pcf).values.lookup key =
      (pcf.values.lookup key).or (fields.lookup key) := by
  induction fields generalizing pcf with
  | nil => simp
  | cons field fields ih =>
      rw [List.foldl_cons, ih, PcfFile.lookup_emplace, Option.or_assoc, List.lookup_cons]
      by_cases hkey : key = field.1
      · simp [hkey]
      · simp [hkey, beq_eq_false_iff_ne.mpr hkey]

theorem PcfFile.ascending_foldl_emplace (h : Ascending pcf.values) :
    Ascending (fields.foldl PcfFile.emplace pcf).values := by
  induction fields generalizing pcf with
  | nil => exact h
  | cons field fields ih => exact ih _ (pcf.ascending_emplace h field)

/-- Without a conflict, what is kept for a key equals every value given for it. -/
theorem PcfFile.eq_kept_of_no_conflict
    (h : (fields.foldl PcfFile.emplace pcf).conflicts = []) :
    pcf.conflicts = [] ∧ ∀ field ∈ fields, ∃ kept,
      (fields.foldl PcfFile.emplace pcf).values.lookup field.1 = some kept ∧
        (kept = field.2 ∨ (kept == field.2) = true) := by
  induction fields generalizing pcf with
  | nil => exact ⟨h, fun _ hfield => nomatch hfield⟩
  | cons head fields ih =>
      obtain ⟨hconflicts, hrest⟩ := ih (pcf.emplace head) h
      have hlookup := PcfFile.lookup_foldl_emplace pcf (head :: fields) head.1
      cases hhead : pcf.values.lookup head.1 with
      | none =>
          rw [hhead, List.lookup_cons, beq_self_eq_true] at hlookup
          have hsame : pcf.conflicts = [] := by
            simpa [PcfFile.emplace, hhead] using hconflicts
          refine ⟨hsame, List.forall_mem_cons.mpr ⟨⟨head.2, ?_, .inl rfl⟩, hrest⟩⟩
          simpa using hlookup
      | some kept =>
          rw [hhead, Option.some_or] at hlookup
          by_cases hbeq : (kept == head.2) = true
          · have hsame : pcf.emplace head = pcf := by simp [PcfFile.emplace, hhead, hbeq]
            rw [hsame] at hconflicts
            exact ⟨hconflicts, List.forall_mem_cons.mpr ⟨⟨kept, hlookup, .inr hbeq⟩, hrest⟩⟩
          · simp [PcfFile.emplace, hhead, hbeq] at hconflicts

end Merge

theorem eq_string_of_beq {kept : Json} {label : String} (h : (kept == .string label) = true) :
    kept = .string label := by
  have hbeq : Json.beq kept (.string label) = true := h
  cases kept with
  | string s =>
      rw [Json.beq] at hbeq
      rw [of_decide_eq_true hbeq]
  | null | boolean | number | array | object => simp [Json.beq] at hbeq

/-! ## The markers of a proc -/

/-- The markers of the metadata, colour and label, by event id; the map from colours to
labels agrees with them. -/
structure MarkerTable (metadata : Json) (table : List (String × String)) : Prop where
  colours : extractMarkerColorIds metadata = .ok (table.map Prod.fst)
  labels : perfettoMarkerLabels metadata = .ok (table.map Prod.snd)
  ascending : ∀ fields, markerTypesFields metadata = .ok fields → Ascending fields
  types : ∀ fields, markerTypesFields metadata = .ok fields → ∀ key value,
    (key, value) ∈ fields ↔ ∃ label, (key, label) ∈ table ∧ value = .string label

/-- Metadata of an older version of the library, with `markerTypes` alone. -/
def Legacy (metadata : Json) : Prop :=
  ∃ types : List (String × String), Ascending types ∧
    metadata.field? "markerTypes" = some (.object (types.map fun x => (x.1, .string x.2))) ∧
      metadata.field? "markerLabels" = none ∧ metadata.field? "markerColorIds" = none

theorem markerTypesFields_object {fields types : List (String × Json)}
    (h : markerTypesFields (.object fields) = .ok types) : types = jsonMarkerTypes fields := by
  unfold markerTypesFields at h
  unfold jsonMarkerTypes
  cases hlookup : fields.lookup "markerTypes" with
  | none =>
      rw [Json.field?_of_lookup_none hlookup] at h
      exact (Except.ok.inj h).symm
  | some j =>
      by_cases hnull : j = .null
      · subst hnull
        have hfield : (Json.object fields).field? "markerTypes" = none := by
          simp [Json.field?, Json.member?, hlookup]
        rw [hfield] at h
        exact (Except.ok.inj h).symm
      · rw [Json.field?_of_lookup hlookup hnull] at h
        cases j with
        | null => exact absurd rfl hnull
        | object fields' => exact (Except.ok.inj h).symm
        | array elements =>
            cases elements with
            | nil => exact (Except.ok.inj h).symm
            | cons => cases h
        | boolean | number | string => cases h

theorem Registered.lookup_eq_some_iff {reg : TraCRProc} (h : Registered reg)
    {colorId : UInt16} {label : String} :
    reg.markerTypes.lookup colorId = some label ↔
      ∃ i : Nat, reg.markerColorIds[i]? = some colorId ∧ reg.markerLabels[i]? = some label := by
  constructor
  · intro hlookup
    have hmem : colorId ∈ reg.markerColorIds := (h.keys colorId).mp (by rw [hlookup]; rfl)
    obtain ⟨i, hi⟩ := List.mem_iff_getElem?.mp hmem
    exact ⟨i, hi, (h.labels i colorId hi).symm.trans hlookup⟩
  · rintro ⟨i, hi, hlabel⟩
    exact (h.labels i colorId hi).trans hlabel

theorem Published.markerTable {reg : TraCRProc} {metadata : Json} (hreach : Reachable reg)
    (h : Published reg metadata) :
    MarkerTable metadata
      ((reg.markerColorIds.map fun id => toString id.toNat).zip reg.markerLabels) := by
  obtain ⟨fields, now, rfl, hfields⟩ := id h
  obtain ⟨fields', hobject, hreflects⟩ := h.reflects hreach
  obtain rfl := Json.object.inj hobject
  have hregistered := hreach.registered
  have hlength : (reg.markerColorIds.map fun id => toString id.toNat).length =
      reg.markerLabels.length := by
    rw [List.length_map, hregistered.colours]
  have hascending : Ascending (jsonMarkerTypes fields) := by
    rw [jsonMarkerTypes_congr (hfields "markerTypes" (by simp)), jsonFile_writeJSON]
    apply ascending_writeMarkerTypes
    rw [jsonMarkerTypes_congr (lookup_baseFields_ne (by decide) now)]
    exact hreach.ascending
  constructor
  case colours =>
    rw [List.map_fst_zip (le_of_eq hlength)]
    exact hreflects.extractMarkerColorIds
  case labels =>
    rw [List.map_snd_zip (le_of_eq hlength.symm)]
    exact hreflects.perfettoMarkerLabels
  case ascending =>
    intro types htypes
    rw [markerTypesFields_object htypes]
    exact hascending
  case types =>
    intro types htypes key value
    rw [markerTypesFields_object htypes, ← hascending.lookup_eq_some_iff, hreflects.types]
    simp only [List.mem_iff_getElem?, List.getElem?_zip_eq_some, List.getElem?_map,
      Option.map_eq_some_iff]
    constructor
    · rintro ⟨colorId, label, hlookup, rfl, rfl⟩
      obtain ⟨i, hi, hlabel⟩ := hregistered.lookup_eq_some_iff.mp hlookup
      exact ⟨label, ⟨i, ⟨colorId, hi, rfl⟩, hlabel⟩, rfl⟩
    · rintro ⟨label, ⟨i, ⟨colorId, hi, rfl⟩, hlabel⟩, rfl⟩
      exact ⟨colorId, label, hregistered.lookup_eq_some_iff.mpr ⟨i, hi, hlabel⟩, rfl, rfl⟩

theorem Legacy.exists_markerTable {metadata : Json} (h : Legacy metadata) :
    ∃ table, MarkerTable metadata table := by
  obtain ⟨types, hascending, htypes, hlabels, hcolours⟩ := h
  have hfields : ∀ fields, markerTypesFields metadata = .ok fields →
      fields = types.map fun x => (x.1, .string x.2) := by
    intro fields h
    rw [markerTypesFields, htypes] at h
    exact (Except.ok.inj h).symm
  refine ⟨types, ?_, ?_, ?_, ?_⟩
  · rw [extractMarkerColorIds, hcolours, htypes]
    simp [Json.items, Function.comp_def]
  · rw [perfettoMarkerLabels, hlabels, htypes]
    simp only [Json.items, List.map_map]
    exact mapM_getString (types.map Prod.snd) ▸ by simp [Function.comp_def]
  · intro fields h
    rw [hfields fields h]
    exact List.pairwise_map.mpr hascending
  · intro fields h key value
    rw [hfields fields h, List.mem_map]
    constructor
    · rintro ⟨x, hx, heq⟩
      obtain ⟨rfl, rfl⟩ := Prod.mk.inj heq
      exact ⟨x.2, hx, rfl⟩
    · rintro ⟨label, hlabel, rfl⟩
      exact ⟨(key, label), hlabel, rfl⟩

/-- Metadata the library writes, in this version or an older one. -/
def Documented (metadata : Json) : Prop :=
  (∃ reg, Reachable reg ∧ Published reg metadata) ∨ Legacy metadata

theorem Documented.exists_markerTable {metadata : Json} (h : Documented metadata) :
    ∃ table, MarkerTable metadata table := by
  rcases h with ⟨reg, hreach, hdoc⟩ | hlegacy
  · exact ⟨_, hdoc.markerTable hreach⟩
  · exact hlegacy.exists_markerTable

def Defines (metadata : Json) (key label : String) : Prop :=
  ∃ (colours labels : List String) (i : Nat), extractMarkerColorIds metadata = .ok colours ∧
    perfettoMarkerLabels metadata = .ok labels ∧
      colours[i]? = some key ∧ labels[i]? = some label

theorem MarkerTable.defines_iff {metadata : Json} {table : List (String × String)}
    (h : MarkerTable metadata table) {key label : String} :
    Defines metadata key label ↔ (key, label) ∈ table := by
  rw [List.mem_iff_getElem?]
  constructor
  · rintro ⟨colours, labels, i, hcolours, hlabels, hkey, hlabel⟩
    obtain rfl := Except.ok.inj (h.colours.symm.trans hcolours)
    obtain rfl := Except.ok.inj (h.labels.symm.trans hlabels)
    rw [List.getElem?_map] at hkey hlabel
    obtain ⟨x, hx, rfl⟩ := Option.map_eq_some_iff.mp hkey
    rw [hx] at hlabel
    exact ⟨i, by rw [hx, ← Option.some.inj hlabel]⟩
  · rintro ⟨i, hi⟩
    exact ⟨_, _, i, h.colours, h.labels, by simp [hi], by simp [hi]⟩

/-! ## The merged map -/

section Pcf

variable {out : OutputFolder} {procs : List ProcData} {pcf : PcfFile}

theorem createTracrPcf_ok (h : createTracrPcf out procs = .ok pcf) :
    ∃ fields, procs.mapM (fun proc => markerTypesFields proc.metadata) = .ok fields ∧
      pcf = fields.flatten.foldl PcfFile.emplace ⟨[], []⟩ := by
  unfold createTracrPcf at h
  split at h
  · cases h
  · obtain ⟨fields, hfields, hpcf⟩ := bind_ok_iff.mp h
    exact ⟨fields, hfields, (pure_ok_iff.mp hpcf).symm⟩

theorem resolves_of_lookup {fields : List (String × Json)} {key label : String}
    (h : fields.lookup key = some (.string label)) :
    (fields.foldl PcfFile.emplace ⟨[], []⟩).Resolves key label := by
  have hascending := PcfFile.ascending_foldl_emplace ⟨[], []⟩ fields List.Pairwise.nil
  apply hascending.filter_eq_singleton
  rw [← hascending.lookup_eq_some_iff, PcfFile.lookup_foldl_emplace]
  simpa using h

theorem exists_fields_of_mapM {fields : List (List (String × Json))}
    (hfields : procs.mapM (fun proc => markerTypesFields proc.metadata) = .ok fields) {i : Nat}
    (hi : i < procs.length) :
    ∃ hi' : i < fields.length, markerTypesFields procs[i].metadata = .ok fields[i] := by
  have hall := mapM_ok_iff.mp hfields
  have hi' : i < fields.length := hall.length_eq ▸ hi
  exact ⟨hi', hall.get hi hi'⟩

theorem lookup_flatten {fields : List (List (String × Json))} {key : String} {value : Json}
    {j : Nat} (hj : j < fields.length) (hvalue : fields[j].lookup key = some value)
    (hbefore : ∀ k (_ : k < j), fields[k].lookup key = none) :
    fields.flatten.lookup key = some value := by
  induction fields generalizing j with
  | nil => cases hj
  | cons head fields ih =>
      rw [List.flatten_cons, List.lookup_append]
      cases j with
      | zero =>
          have hhead : head.lookup key = some value := hvalue
          rw [hhead, Option.some_or]
      | succ j =>
          have hhead : head.lookup key = none := hbefore 0 (Nat.succ_pos j)
          rw [hhead, Option.none_or]
          exact ih (Nat.lt_of_succ_lt_succ hj) hvalue
            fun k hk => hbefore (k + 1) (Nat.succ_lt_succ hk)

/-- Every colour of every proc has one entry, with the label of the first proc that has
the colour. -/
theorem exists_first_resolves (hdoc : ∀ proc ∈ procs, Documented proc.metadata)
    (hpcf : createTracrPcf out procs = .ok pcf) {i : Nat} (hi : i < procs.length)
    {key label : String} (hlabel : Defines procs[i].metadata key label) :
    ∃ j, ∃ hj : j < procs.length, j ≤ i ∧
      (∀ k (_ : k < j) l, ¬ Defines procs[k].metadata key l) ∧
        ∃ l, Defines procs[j].metadata key l ∧ pcf.Resolves key l := by
  obtain ⟨fields, hfields, rfl⟩ := createTracrPcf_ok hpcf
  -- the first proc with the colour
  have hexists : ∃ j, ∃ hj : j < procs.length, ∃ l, Defines procs[j].metadata key l :=
    ⟨i, hi, label, hlabel⟩
  classical
  obtain ⟨hj, l, hl⟩ := Nat.find_spec hexists
  have hle : Nat.find hexists ≤ i := Nat.find_min' hexists ⟨hi, label, hlabel⟩
  have hfirst : ∀ k (_ : k < Nat.find hexists) l, ¬ Defines procs[k].metadata key l :=
    fun k hk l hdefines => Nat.find_min hexists hk ⟨by omega, l, hdefines⟩
  refine ⟨_, hj, hle, hfirst, l, hl, resolves_of_lookup ?_⟩
  -- what a proc defines is what its map has
  have hmap : ∀ k (hk : k < procs.length), ∃ hk' : k < fields.length, ∀ value,
      fields[k].lookup key = some value ↔
        ∃ l, Defines procs[k].metadata key l ∧ value = .string l := by
    intro k hk
    obtain ⟨hk', htypes⟩ := exists_fields_of_mapM hfields hk
    obtain ⟨table, htable⟩ := (hdoc _ (List.getElem_mem hk)).exists_markerTable
    refine ⟨hk', ?_⟩
    intro value
    rw [(htable.ascending _ htypes).lookup_eq_some_iff, htable.types _ htypes]
    simp only [htable.defines_iff]
  obtain ⟨hj', hvalue⟩ := hmap _ hj
  refine lookup_flatten hj' ((hvalue _).mpr ⟨l, hl, rfl⟩) ?_
  intro k hk
  obtain ⟨hk', hnone⟩ := hmap k (by omega)
  rw [Option.eq_none_iff_forall_ne_some]
  intro value hsome
  obtain ⟨l', hl', -⟩ := (hnone value).mp hsome
  exact hfirst k hk l' hl'

theorem resolves_of_defines (hdoc : ∀ proc ∈ procs, Documented proc.metadata)
    (hpcf : createTracrPcf out procs = .ok pcf) (hconflicts : pcf.conflicts = []) {i : Nat}
    (hi : i < procs.length) {key label : String}
    (hlabel : Defines procs[i].metadata key label) : pcf.Resolves key label := by
  obtain ⟨fields, hfields, rfl⟩ := createTracrPcf_ok hpcf
  obtain ⟨hi', htypes⟩ := exists_fields_of_mapM hfields hi
  obtain ⟨table, htable⟩ := (hdoc _ (List.getElem_mem hi)).exists_markerTable
  have hin : (key, Json.string label) ∈ fields.flatten := by
    refine List.mem_flatten.mpr ⟨fields[i], List.getElem_mem hi', ?_⟩
    exact (htable.types _ htypes key _).mpr ⟨label, htable.defines_iff.mp hlabel, rfl⟩
  obtain ⟨kept, hkept, hequal⟩ :=
    (PcfFile.eq_kept_of_no_conflict ⟨[], []⟩ fields.flatten hconflicts).2 _ hin
  have hstring : kept = .string label := hequal.elim id eq_string_of_beq
  rw [hstring, PcfFile.lookup_foldl_emplace] at hkept
  exact resolves_of_lookup (by simpa using hkept)

end Pcf

def InTable (proc : ProcData) : Prop :=
  ∀ labels, perfettoMarkerLabels proc.metadata = .ok labels →
    ∀ traces ∈ proc.btsFiles, ∀ p ∈ traces, p.isSet = true → p.eventId.toNat < labels.length

/-- Of procs with the metadata the library writes: without a conflict every value that
`tracr.prv` has for a set resolves to the label Perfetto shows for it, and in any case
every colour of every proc resolves to the label of the first proc that has it. -/
theorem resolves_of_documented {out : OutputFolder} {procs : List ProcData} {pcf : PcfFile}
    (hdoc : ∀ proc ∈ procs, Documented proc.metadata) (htable : ∀ proc ∈ procs, InTable proc)
    (hpcf : createTracrPcf out procs = .ok pcf) :
    (pcf.conflicts = [] → ∀ ch channels prv, createTracrPrv ch out procs channels = .ok prv →
      ∀ i (hi : i < procs.length), ∃ written labels,
        TaskRecords ch procs prv (i + 1) procs[i] written ∧
          perfettoMarkerLabels procs[i].metadata = .ok labels ∧
            ∀ x ∈ written, x.1.isSet = true → ∃ label,
              markerName labels x.1.eventId = .ok label ∧ pcf.Resolves x.2.colorId label) ∧
    ∀ i (hi : i < procs.length) key label, Defines procs[i].metadata key label →
      ∃ j, ∃ hj : j < procs.length, j ≤ i ∧
        (∀ k (_ : k < j) l, ¬ Defines procs[k].metadata key l) ∧
          ∃ l, Defines procs[j].metadata key l ∧ pcf.Resolves key l := by
  refine ⟨?_, fun i hi key label => exists_first_resolves hdoc hpcf hi⟩
  intro hconflicts ch channels prv hprv i hi
  obtain ⟨written, colours, htask, hcolours, hvalue⟩ := exists_taskRecords hprv hi
  have hproc : procs[i] ∈ procs := List.getElem_mem hi
  obtain ⟨table, hmarkers⟩ := (hdoc _ hproc).exists_markerTable
  obtain rfl := Except.ok.inj (hmarkers.colours.symm.trans hcolours)
  refine ⟨written, _, htask, hmarkers.labels, ?_⟩
  intro x hx hset
  have hmem : x.1 ∈ mergedPayloads ch.heapTop procs[i].btsFiles :=
    List.mem_of_mem_filter (htask.payloads ▸ List.mem_map_of_mem hx)
  obtain ⟨traces, htraces, hp⟩ := mem_mergedPayloads.mp hmem
  have hlt := htable _ hproc _ hmarkers.labels traces htraces x.1 hp hset
  rw [List.length_map] at hlt
  have hnil : table ≠ [] := List.ne_nil_of_length_pos (by omega)
  have hcolor := hvalue x hx
  rw [recordColorId, if_neg (Payload.isSet_iff.mp hset).2, if_neg (by simpa using hnil),
    List.getElem?_map, List.getElem?_eq_getElem hlt] at hcolor
  refine ⟨table[x.1.eventId.toNat].2, ?_, ?_⟩
  · rw [markerName, if_neg (by simpa using hnil), List.getElem?_map,
      List.getElem?_eq_getElem hlt]
    rfl
  · refine resolves_of_defines hdoc hpcf hconflicts hi (hmarkers.defines_iff.mpr ?_)
    rw [← Except.ok.inj hcolor]
    exact List.getElem_mem hlt

def olderProc : ProcData where
  pid := 4
  metadata := .object [("markerTypes", .object [("12", .string "wait"), ("5", .string "send")])]
  btsFiles := [[⟨0, 1, uint32Max, 30⟩, ⟨0, 0, uint32Max, 40⟩, ⟨0, eventIdReset, uint32Max, 50⟩]]
  btsTids := [8]
  syncStart := 30
  syncEnd := 50

theorem resolves_two_procs :
    ∃ pcf prv written labels,
      createTracrPcf ⟨true, fun _ => true⟩ [oneMarker 12, olderProc] = .ok pcf ∧
      createTracrPrv .first ⟨true, fun _ => true⟩ [oneMarker 12, olderProc] [1, 1] = .ok prv ∧
      pcf.conflicts = [] ∧
      TaskRecords .first [oneMarker 12, olderProc] prv 2 olderProc written ∧
      perfettoMarkerLabels olderProc.metadata = .ok labels ∧
      ∀ x ∈ written, x.1.isSet = true → ∃ label,
        markerName labels x.1.eventId = .ok label ∧ pcf.Resolves x.2.colorId label := by
  obtain ⟨obs, w, reg, hrun, hproc, hdoc⟩ : ∃ obs w reg,
      run tickingPlatform (World.initial eightPayloads) (markerRun 12) = .ok (obs, w) ∧
      w.tracrProc = some reg ∧ Published reg (oneMarker 12).metadata :=
    ⟨_, _, _, rfl, rfl, published_of_lookup 0 rfl rfl rfl⟩
  obtain ⟨pcf, prv, hpcf, hconflicts, hprv⟩ : ∃ pcf prv,
      createTracrPcf ⟨true, fun _ => true⟩ [oneMarker 12, olderProc] = .ok pcf ∧
      pcf.conflicts = [] ∧
      createTracrPrv .first ⟨true, fun _ => true⟩ [oneMarker 12, olderProc] [1, 1] = .ok prv :=
    ⟨_, _, rfl, rfl, rfl⟩
  have hdocs : ∀ proc ∈ [oneMarker 12, olderProc], Documented proc.metadata := by
    refine List.forall_mem_cons.mpr ⟨.inl ⟨reg, ⟨_, _, _, _, _, _, rfl, hrun, hproc⟩, hdoc⟩, ?_⟩
    refine List.forall_mem_singleton.mpr (.inr ⟨[("12", "wait"), ("5", "send")], ?_, rfl, rfl, rfl⟩)
    unfold Ascending
    decide
  have htables : ∀ proc ∈ [oneMarker 12, olderProc], InTable proc := by
    refine List.forall_mem_cons.mpr ⟨?_, List.forall_mem_singleton.mpr ?_⟩
    · intro labels hlabels
      obtain rfl : ["wait"] = labels := Except.ok.inj hlabels
      decide
    · intro labels hlabels
      obtain rfl : ["wait", "send"] = labels := Except.ok.inj hlabels
      decide
  obtain ⟨written, labels, htask, hlabels, hresolves⟩ :=
    (resolves_of_documented hdocs htables hpcf).1 hconflicts .first [1, 1] prv hprv 1 (by decide)
  exact ⟨pcf, prv, written, labels, hpcf, hprv, hconflicts, htask, hlabels, hresolves⟩

end TraCR
