import Mathlib.Data.List.Perm.Basic
import Mathlib.Data.List.ReduceOption
import TraCR.Lib.Traversal
import TraCR.Postprocess.Perfetto

/-!
# The order of the procs

`extract_bts_metadata` sorts the proc folders by the number in their name with an
unstable sort.  The number is read by `std::stoi`, so folders with different names
may share it.  The order of the tasks and the process of a folder are determined
exactly when the numbers tell the folders apart.
-/

namespace TraCR

open TraCR.Lib TraCR.Lib.Traversal TraCR.Lib.SortedList

def isProcFolder (entry : ProcEntry) : Bool :=
  entry.isDirectory && startsWith entry.name "proc."

def LoadsAs (entry : ProcEntry) (proc : ProcData) : Prop :=
  loadProcFolder entry = .ok (some proc)

/-! ## Loading -/

theorem loadProcFolder_skip {entry : ProcEntry} (h : isProcFolder entry = false) :
    loadProcFolder entry = .ok none := by
  unfold loadProcFolder
  apply if_pos
  cases hdir : entry.isDirectory with
  | false => rfl
  | true => simpa [isProcFolder, hdir] using h

/-- Loading a proc folder: the number in its name, its metadata, its thread files
and the anchors. -/
theorem loadsAs_iff {entry : ProcEntry} {proc : ProcData} :
    LoadsAs entry proc ↔
      isProcFolder entry = true ∧
        ∃ pid metadata files tids, Decimal.stoi (afterDot entry.name) = some pid ∧
          loadMetadataJson entry.metadata = .ok metadata ∧
          loadThreadTraces entry.threads = .ok (files, tids) ∧
          extractSyncAnchors
            { pid, metadata, btsFiles := files, btsTids := tids, syncStart := 0, syncEnd := 0 } =
              .ok proc := by
  cases hfolder : isProcFolder entry with
  | false =>
      have hskip := loadProcFolder_skip hfolder
      simp [LoadsAs, hskip]
  | true =>
      unfold LoadsAs loadProcFolder
      rw [if_neg (by simpa [isProcFolder] using hfolder)]
      cases Decimal.stoi (afterDot entry.name) with
      | none => simp
      | some pid =>
          simp only [bind_ok_iff, pure_ok_iff, Prod.exists, Option.some.injEq, true_and,
            exists_and_left, exists_eq_left', exists_eq_right]

theorem loadProcFolder_ok {entry : ProcEntry} {r : Option ProcData}
    (hfolder : isProcFolder entry = true) (h : loadProcFolder entry = .ok r) :
    ∃ proc, r = some proc ∧ Decimal.stoi (afterDot entry.name) = some proc.pid := by
  cases r with
  | none =>
      unfold loadProcFolder at h
      rw [if_neg (by simpa [isProcFolder] using hfolder)] at h
      cases hpid : Decimal.stoi (afterDot entry.name) with
      | none => simp [hpid] at h
      | some pid => simp only [hpid, bind_ok_iff, pure_ok_iff, reduceCtorEq, and_false,
          exists_false] at h
  | some proc =>
      obtain ⟨-, pid, metadata, files, tids, hpid, -, -, hproc⟩ := loadsAs_iff.mp h
      refine ⟨proc, rfl, ?_⟩
      simp only [extractSyncAnchors, bind_ok_iff, pure_ok_iff] at hproc
      obtain ⟨first, -, last, -, rfl⟩ := hproc
      exact hpid

theorem forall₂_loadsAs {listing : List ProcEntry} {loaded : List (Option ProcData)}
    (h : listing.mapM loadProcFolder = .ok loaded) :
    List.Forall₂ LoadsAs (listing.filter isProcFolder) loaded.reduceOption := by
  have hpair := mapM_ok_iff.mp h
  clear h
  induction hpair with
  | nil => exact .nil
  | @cons entry r listing loaded hload _ ih =>
      cases hfolder : isProcFolder entry with
      | false =>
          have hskip := loadProcFolder_skip hfolder
          obtain rfl : none = r := Except.ok.inj (hskip.symm.trans hload)
          simpa [hfolder] using ih
      | true =>
          obtain ⟨proc, rfl, -⟩ := loadProcFolder_ok hfolder hload
          rw [List.filter_cons_of_pos hfolder, List.reduceOption_cons_of_some]
          exact .cons hload ih

theorem extractBtsMetadata_ok {sorter : Sorter ProcData.pid} {listing : List ProcEntry}
    {procs : List ProcData} (h : extractBtsMetadata sorter listing = .ok procs) :
    ∃ loaded, List.Forall₂ LoadsAs (listing.filter isProcFolder) loaded ∧
      procs = sorter.sort loaded := by
  obtain ⟨loaded, hloaded, hsort⟩ := bind_ok_iff.mp h
  refine ⟨loaded.reduceOption, forall₂_loadsAs hloaded, ?_⟩
  simp only at hsort
  split at hsort
  · cases hsort
  · exact (Except.ok.inj hsort).symm

theorem loadsAs_unique {entries : List ProcEntry} {procs procs' : List ProcData}
    (h : List.Forall₂ LoadsAs entries procs) (h' : List.Forall₂ LoadsAs entries procs') :
    procs = procs' := by
  induction h generalizing procs' with
  | nil =>
      cases h'
      rfl
  | cons hload _ ih =>
      cases h' with
      | cons hload' hrest =>
          rw [ih hrest, Option.some.inj (Except.ok.inj (hload.symm.trans hload'))]

/-! ## Numbers -/

def folderNumbers (listing : List ProcEntry) : List Int :=
  (listing.filter isProcFolder).filterMap fun entry => Decimal.stoi (afterDot entry.name)

theorem map_pid_of_loadsAs {entries : List ProcEntry} {procs : List ProcData}
    (hfolder : ∀ entry ∈ entries, isProcFolder entry = true)
    (h : List.Forall₂ LoadsAs entries procs) :
    entries.filterMap (fun entry => Decimal.stoi (afterDot entry.name)) =
      procs.map ProcData.pid := by
  induction h with
  | nil => rfl
  | @cons entry proc entries procs hload _ ih =>
      obtain ⟨proc', heq, hpid⟩ := loadProcFolder_ok (hfolder entry (by simp)) hload
      obtain rfl := Option.some.inj heq
      have hrest := ih fun entry hentry => hfolder entry (by simp [hentry])
      simp only [List.filterMap_cons, hpid, List.map_cons, hrest]

theorem perfettoPid_eq_iff {m n : Int} :
    perfettoPid m = perfettoPid n ↔ m = n ∨ (m = -1 ∧ n = 0) ∨ (m = 0 ∧ n = -1) := by
  unfold perfettoPid
  split <;> split <;> omega

theorem nodup_map_perfettoPid {l : List Int} :
    (l.map perfettoPid).Nodup ↔ l.Nodup ∧ ¬(-1 ∈ l ∧ 0 ∈ l) := by
  constructor
  · intro h
    refine ⟨h.of_map _, ?_⟩
    rintro ⟨hneg, hzero⟩
    have hinj := List.inj_on_of_nodup_map h hneg hzero rfl
    omega
  · rintro ⟨hnodup, hboth⟩
    refine hnodup.map_on ?_
    intro m hm n hn hpids
    rcases perfettoPid_eq_iff.mp hpids with heq | ⟨rfl, rfl⟩ | ⟨rfl, rfl⟩
    · exact heq
    · exact absurd ⟨hm, hn⟩ hboth
    · exact absurd ⟨hn, hm⟩ hboth

/-! ## Determined order -/

/-- Every listing of the same entries, with every sort, gives the folders in one
order, and every folder is a process of its own. -/
structure DeterminedOrder (entries : List ProcEntry) : Prop where
  same_order : ∃ folders, folders.Perm (entries.filter isProcFolder) ∧
    ∀ (sorter : Sorter ProcData.pid) (listing : List ProcEntry) (procs : List ProcData),
      listing.Perm entries → extractBtsMetadata sorter listing = .ok procs →
        List.Forall₂ LoadsAs folders procs
  same_procs : ∀ (sorter sorter' : Sorter ProcData.pid) (listing listing' : List ProcEntry)
    (procs procs' : List ProcData), listing.Perm entries → listing'.Perm entries →
      extractBtsMetadata sorter listing = .ok procs →
        extractBtsMetadata sorter' listing' = .ok procs' → procs = procs'
  own_process : ∀ (sorter : Sorter ProcData.pid) (listing : List ProcEntry)
    (procs : List ProcData), listing.Perm entries →
      extractBtsMetadata sorter listing = .ok procs →
        (procs.map fun proc => perfettoPid proc.pid).Nodup

section Numbers

variable {entries : List ProcEntry} {loaded₀ : List ProcData}
  (hloaded₀ : List.Forall₂ LoadsAs (entries.filter isProcFolder) loaded₀)
include hloaded₀

theorem loaded_perm {listing : List ProcEntry} (hlisting : listing.Perm entries)
    {loaded : List ProcData}
    (hloaded : List.Forall₂ LoadsAs (listing.filter isProcFolder) loaded) :
    loaded.Perm loaded₀ := by
  obtain ⟨loaded', hloaded', hperm⟩ :=
    List.perm_comp_forall₂ (hlisting.filter isProcFolder) hloaded₀
  rw [loadsAs_unique hloaded hloaded']
  exact hperm

theorem folderNumbers_eq : folderNumbers entries = loaded₀.map ProcData.pid :=
  map_pid_of_loadsAs (fun _ hentry => (List.mem_filter.mp hentry).2) hloaded₀

/-- With different numbers every run returns the same procs. -/
theorem procs_unique (hnodup : (folderNumbers entries).Nodup)
    {sorter sorter' : Sorter ProcData.pid} {listing listing' : List ProcEntry}
    {procs procs' : List ProcData} (hlisting : listing.Perm entries)
    (hlisting' : listing'.Perm entries) (h : extractBtsMetadata sorter listing = .ok procs)
    (h' : extractBtsMetadata sorter' listing' = .ok procs') : procs = procs' := by
  obtain ⟨loaded, hloaded, rfl⟩ := extractBtsMetadata_ok h
  obtain ⟨loaded', hloaded', rfl⟩ := extractBtsMetadata_ok h'
  have hperm : loaded.Perm loaded₀ := loaded_perm hloaded₀ hlisting hloaded
  have hperm' : loaded'.Perm loaded₀ := loaded_perm hloaded₀ hlisting' hloaded'
  apply Sorter.sort_unique sorter sorter' (hperm.trans hperm'.symm)
  rw [(hperm.map ProcData.pid).nodup_iff, ← folderNumbers_eq hloaded₀]
  exact hnodup

end Numbers

/-- The order of the procs is determined and every folder is a process of its own
exactly when the numbers of the folders differ and are not both -1 and 0. -/
theorem determinedOrder_iff {entries : List ProcEntry} {sorter₀ : Sorter ProcData.pid}
    {procs₀ : List ProcData} (haccept : extractBtsMetadata sorter₀ entries = .ok procs₀) :
    DeterminedOrder entries ↔
      (folderNumbers entries).Nodup ∧
        ¬(-1 ∈ folderNumbers entries ∧ 0 ∈ folderNumbers entries) := by
  obtain ⟨loaded₀, hloaded₀, hprocs₀⟩ := extractBtsMetadata_ok haccept
  have hsorted₀ : procs₀.Perm loaded₀ := hprocs₀ ▸ sorter₀.perm loaded₀
  rw [← nodup_map_perfettoPid, folderNumbers_eq hloaded₀, List.map_map]
  constructor
  · intro h
    exact ((hsorted₀.map _).nodup_iff).mp
      (h.own_process sorter₀ entries procs₀ (.refl _) haccept)
  · intro hpids
    have hnodup : (folderNumbers entries).Nodup := by
      rw [folderNumbers_eq hloaded₀]
      rw [← List.map_map] at hpids
      exact hpids.of_map _
    constructor
    case same_procs =>
        intro sorter sorter' listing listing' procs procs' hlisting hlisting' h h'
        exact procs_unique hloaded₀ hnodup hlisting hlisting' h h'
    case own_process =>
        intro sorter listing procs hlisting h
        obtain ⟨loaded, hloaded, rfl⟩ := extractBtsMetadata_ok h
        have hperm : (sorter.sort loaded).Perm loaded₀ :=
          (sorter.perm loaded).trans (loaded_perm hloaded₀ hlisting hloaded)
        exact ((hperm.map _).nodup_iff).mpr hpids
    case same_order =>
        -- the order of the folders is the one in which this run returns them
        obtain ⟨folders, hfolders, hperm⟩ := List.perm_comp_forall₂ hsorted₀ hloaded₀.flip
        refine ⟨folders, hperm, ?_⟩
        intro sorter listing procs hlisting h
        rw [procs_unique hloaded₀ hnodup hlisting (.refl _) h haccept]
        exact hfolders.flip

theorem determinedOrder_two_folders :
    DeterminedOrder [⟨"proc.12", true, .contents (some .null), []⟩,
      ⟨"proc.7", true, .contents (some .null), []⟩] :=
  (@determinedOrder_iff _ (.stable _) _ rfl).mpr (by decide)

/-- Two folders whose names differ and whose numbers agree. -/
theorem not_determinedOrder_leading_zero :
    ¬∀ (entries : List ProcEntry) (sorter : Sorter ProcData.pid) (procs : List ProcData),
      (entries.map ProcEntry.name).Nodup → extractBtsMetadata sorter entries = .ok procs →
        DeterminedOrder entries := by
  intro h
  have horder := h [⟨"proc.1", true, .contents (some .null), []⟩,
    ⟨"proc.01", true, .contents (some (.object [])), []⟩] (.stable _) _ (by decide) rfl
  exact absurd (horder.own_process (.stable _) _ _ (.refl _) rfl) (by decide)

end TraCR
