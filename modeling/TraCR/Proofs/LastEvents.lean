import TraCR.Proofs.Perfetto
import TraCR.Proofs.ProcOrder
import TraCR.Proofs.Timeline

/-!
# The lost-event warning

`validate_last_events_for_perfetto` looks at the last state change of every thread
file.  What gets no slice is the last state change of a channel.  The two differ as soon
as a thread leaves a channel open and records on another one, or a thread changes a
channel after another thread's last event.
-/

namespace TraCR

open TraCR.Lib TraCR.Lib.Interleaving TraCR.Lib.Run TraCR.Lib.Traversal

def changesState (x : Payload × Nat) : Bool := !x.1.isFlow

def ExistsSet (stream : List (Payload × Nat))
    (P : Payload × Nat → List (Payload × Nat) → Prop) : Prop :=
  ∃ pre x post, stream = pre ++ x :: post ∧ x.1.isSet = true ∧ P x post

def LastOfThread : Payload × Nat → List (Payload × Nat) → Prop :=
  LastOf Prod.snd changesState

def LastOfChannel : Payload × Nat → List (Payload × Nat) → Prop :=
  LastOf (fun x => x.1.channelId.toNat) changesState

/-- A set that ends both its thread and its channel. -/
def EndsBoth (stream : List (Payload × Nat)) : Prop :=
  ExistsSet stream fun x post => LastOfThread x post ∧ LastOfChannel x post

/-- A set that ends its thread, on a channel another thread goes on to change. -/
def Superseded (stream : List (Payload × Nat)) : Prop :=
  ExistsSet stream fun x post => LastOfThread x post ∧ ¬LastOfChannel x post

/-- A set that ends its channel, by a thread that goes on on another channel. -/
def Abandoned (stream : List (Payload × Nat)) : Prop :=
  ExistsSet stream fun x post => ¬LastOfThread x post ∧ LastOfChannel x post

def recordedSets (c : Nat) (files : List (List Payload)) : List Payload :=
  files.flatten.filter fun p => p.channelId.toNat = c && p.isSet

/-- Some recorded event gets no slice: its channel shows fewer slices than it has sets. -/
def EventLost (proc : ProcData) (file : PerfettoFile) : Prop :=
  ∃ c, (slicesOf (perfettoPid proc.pid) (c + 1) file.traceEvents).length <
    (recordedSets c proc.btsFiles).length

def LeftOpen {tables : PerfettoTables} (prevs : PrevPayloads tables) : Prop :=
  ∃ c, ∃ _ : c < tables.numChannels.toNat, prevs[c].isReset = false

/-- A warning is printed exactly when an event gets no slice, which is when the loop
leaves a channel open. -/
structure WarnsExactly (q : HeapTop) (proc : ProcData) (file : PerfettoFile) : Prop where
  lost : file.warnings ≠ [] ↔ EventLost proc file
  leftOpen : ∀ tables obs prevs, perfettoTables proc = .ok tables →
    emitPayloads tables (mergedPayloads q proc.btsFiles) = .ok (obs, prevs) →
      (EventLost proc file ↔ LeftOpen prevs)

/-! ## What the warning looks at -/

theorem existsSet_or {stream : List (Payload × Nat)}
    {P Q : Payload × Nat → List (Payload × Nat) → Prop} :
    ExistsSet stream P ↔
      ExistsSet stream (fun x post => P x post ∧ Q x post) ∨
        ExistsSet stream fun x post => P x post ∧ ¬Q x post := by
  constructor
  · rintro ⟨pre, x, post, hsplit, hset, hP⟩
    by_cases hQ : Q x post
    · exact .inl ⟨pre, x, post, hsplit, hset, hP, hQ⟩
    · exact .inr ⟨pre, x, post, hsplit, hset, hP, hQ⟩
  · rintro (⟨pre, x, post, hsplit, hset, hP, -⟩ | ⟨pre, x, post, hsplit, hset, hP, -⟩)
    · exact ⟨pre, x, post, hsplit, hset, hP⟩
    · exact ⟨pre, x, post, hsplit, hset, hP⟩

theorem exists_last_iff {κ : Type} [DecidableEq κ] {stream : List (Payload × Nat)}
    {key : Payload × Nat → κ} :
    (∃ k x, stream.reverse.find? (fun x => key x = k && changesState x) = some x ∧
        x.1.isReset = false) ↔ ExistsSet stream (LastOf key changesState) := by
  have h := @exists_find?_reverse_iff (Payload × Nat) κ changesState stream _ key
    fun x => !x.1.isReset
  simp only [Bool.not_eq_true'] at h
  rw [h]
  simp [ExistsSet, Payload.isSet, changesState, and_assoc]

theorem validateLastEvents_ne_nil_iff {files : List (List Payload)} {tids : List Int}
    (htids : tids.length = files.length) :
    validateLastEvents files tids ≠ [] ↔
      ∃ i p, (nthSource files i).reverse.find? (fun p => !p.isFlow) = some p ∧
        p.isReset = false := by
  simp only [validateLastEvents, ← List.find?_not_eq_head?_dropWhile, ne_eq,
    List.filterMap_eq_nil_iff, not_forall]
  constructor
  · rintro ⟨⟨traces, tid⟩, hmem, hwarns⟩
    obtain ⟨i, hi, rfl⟩ := List.getElem_of_mem (List.of_mem_zip hmem).1
    refine ⟨i, ?_⟩
    rw [nthSource_of_lt hi]
    cases hlast : files[i].reverse.find? fun p => !p.isFlow with
    | none => simp [hlast] at hwarns
    | some p =>
        refine ⟨p, rfl, ?_⟩
        cases hreset : p.isReset with
        | false => rfl
        | true => simp [hlast, hreset] at hwarns
  · rintro ⟨i, p, hlast, hopen⟩
    by_cases hi : i < files.length
    · rw [nthSource_of_lt hi] at hlast
      have hi' : i < (files.zip tids).length := by
        rw [List.length_zip]
        omega
      have hzip : (files.zip tids)[i] = (files[i], tids[i]) := List.getElem_zip
      refine ⟨(files[i], tids[i]), hzip ▸ List.getElem_mem hi', ?_⟩
      simp [hlast, hopen]
    · rw [nthSource_of_le (by omega)] at hlast
      cases hlast

variable {q : HeapTop} {files : List (List Payload)}

theorem validateLastEvents_iff {tids : List Int} (htids : tids.length = files.length) :
    validateLastEvents files tids ≠ [] ↔ ExistsSet (mergedStream q files) LastOfThread := by
  rw [validateLastEvents_ne_nil_iff htids, LastOfThread, ← exists_last_iff]
  apply exists_congr
  intro i
  have hsource : (nthSource files i).reverse.find? (fun p => !p.isFlow) =
      ((mergedStream q files).reverse.find?
        fun x => x.2 = i && changesState x).map Prod.fst := by
    rw [← mergedStream_interleaves q files i, source, ← List.map_reverse, List.find?_map,
      ← List.filter_reverse, List.find?_filter]
    congr 2
    ext x
    simp [changesState]
  simp [hsource]

/-! ## What gets no slice -/

theorem getLast?_channelEvents (c : Nat) :
    (channelEvents c (mergedPayloads q files)).getLast? =
      ((mergedStream q files).reverse.find?
        fun x => x.1.channelId.toNat = c && changesState x).map Prod.fst := by
  rw [channelEvents, List.getLast?_filter, mergedPayloads, ← List.map_reverse, List.find?_map]
  rfl

theorem exists_last_channel_iff :
    (∃ c p, (channelEvents c (mergedPayloads q files)).getLast? = some p ∧
        p.isReset = false) ↔ ExistsSet (mergedStream q files) LastOfChannel := by
  rw [LastOfChannel, ← exists_last_iff]
  apply exists_congr
  intro c
  simp [getLast?_channelEvents]

theorem length_recordedSets (q : HeapTop) (c : Nat) (files : List (List Payload)) :
    (recordedSets c files).length =
      ((channelEvents c (mergedPayloads q files)).filter fun p => !p.isReset).length := by
  have hperm := (mergedPayloads_perm q files).filter
    fun p => p.channelId.toNat = c && p.isSet
  rw [recordedSets, ← hperm.length_eq, channelEvents, List.filter_filter]
  congr 1
  apply List.filter_congr
  intro p _
  simp [onChannel, Payload.isSet, Bool.and_comm, Bool.and_assoc]

/-- An event of a processed proc is lost when some channel ends in a set. -/
theorem eventLost_iff {proc : ProcData} {p : Nat} {file : PerfettoFile}
    (hfile : perfettoProc q proc p = .ok file) :
    EventLost proc file ↔ ExistsSet (mergedStream q proc.btsFiles) LastOfChannel := by
  obtain ⟨tables, -, hslices⟩ := perfettoProc_slices hfile
  rw [← exists_last_channel_iff]
  apply exists_congr
  intro c
  rw [length_mapM (hslices c), length_recordedSets q, intervals]
  exact length_openPairs_lt_iff

/-- The loop leaves a channel open when some channel ends in a set. -/
theorem leftOpen_iff {tables : PerfettoTables} {obs : List (List TraceEvent)}
    {prevs : PrevPayloads tables}
    (hrun : emitPayloads tables (mergedPayloads q files) = .ok (obs, prevs)) :
    LeftOpen prevs ↔ ExistsSet (mergedStream q files) LastOfChannel := by
  rw [← exists_last_channel_iff]
  apply exists_congr
  intro c
  constructor
  · rintro ⟨hc, hopen⟩
    rw [emit_prevPayloads hrun hc] at hopen
    cases hevents : channelEvents c (mergedPayloads q files) with
    | nil => simp [hevents, initialPrevPayloads, Payload.isReset] at hopen
    | cons a l =>
        simp only [hevents, List.getLast_cons_cons] at hopen
        exact ⟨_, List.getLast?_eq_some_getLast (List.cons_ne_nil a l), hopen⟩
  · rintro ⟨p, hlast, hopen⟩
    have hmem := mem_channelEvents.mp (List.mem_of_getLast? hlast)
    have hc : c < tables.numChannels.toNat := hmem.2.1 ▸ emit_channel_lt hrun p hmem.1
    refine ⟨hc, ?_⟩
    have hprev : prevs[c] = p := by
      rw [emit_prevPayloads hrun hc, ← Option.some.injEq, ← List.getLast?_eq_some_getLast,
        List.getLast?_cons, hlast]
      rfl
    rw [hprev]
    exact hopen

/-! ## The condition -/

theorem existsSet_lastOfThread_iff {stream : List (Payload × Nat)} :
    ExistsSet stream LastOfThread ↔ EndsBoth stream ∨ Superseded stream :=
  existsSet_or

theorem existsSet_lastOfChannel_iff {stream : List (Payload × Nat)} :
    ExistsSet stream LastOfChannel ↔ EndsBoth stream ∨ Abandoned stream := by
  rw [@existsSet_or stream LastOfChannel LastOfThread]
  simp only [EndsBoth, Abandoned, and_comm]

/-- The warning is printed when some thread ends in a set. -/
theorem warnings_ne_nil_iff {proc : ProcData} {p : Nat} {file : PerfettoFile}
    (hfile : perfettoProc q proc p = .ok file)
    (htids : proc.btsTids.length = proc.btsFiles.length) :
    file.warnings ≠ [] ↔ ExistsSet (mergedStream q proc.btsFiles) LastOfThread := by
  obtain ⟨-, -, -, -, -, -, rfl⟩ := perfettoProc_ok_iff.mp hfile
  exact validateLastEvents_iff htids

theorem warnsExactly_iff_ends {proc : ProcData} {p : Nat} {file : PerfettoFile}
    (hfile : perfettoProc q proc p = .ok file)
    (htids : proc.btsTids.length = proc.btsFiles.length) :
    WarnsExactly q proc file ↔
      (ExistsSet (mergedStream q proc.btsFiles) LastOfThread ↔
        ExistsSet (mergedStream q proc.btsFiles) LastOfChannel) := by
  rw [← warnings_ne_nil_iff hfile htids, ← eventLost_iff hfile]
  constructor
  · exact fun h => h.lost
  · intro hlost
    refine ⟨hlost, ?_⟩
    intro tables obs prevs _ hrun
    rw [eventLost_iff hfile, leftOpen_iff hrun]

/-- The warning is exact when some set ends both its thread and its channel, or when
superseded and abandoned sets occur together or not at all. -/
theorem warnsExactly_iff {proc : ProcData} {p : Nat} {file : PerfettoFile}
    (hfile : perfettoProc q proc p = .ok file)
    (htids : proc.btsTids.length = proc.btsFiles.length) :
    WarnsExactly q proc file ↔
      EndsBoth (mergedStream q proc.btsFiles) ∨
        (Superseded (mergedStream q proc.btsFiles) ↔
          Abandoned (mergedStream q proc.btsFiles)) := by
  rw [warnsExactly_iff_ends hfile htids, existsSet_lastOfThread_iff,
    existsSet_lastOfChannel_iff]
  by_cases hboth : EndsBoth (mergedStream q proc.btsFiles)
  · simp [hboth]
  · simp [hboth]

def leavesChannel : ProcData where
  pid := 7
  metadata := .object [("num_channels", .number 2)]
  btsFiles := [[⟨0, 0, uint32Max, 10⟩, ⟨1, 0, uint32Max, 20⟩,
    ⟨1, eventIdReset, uint32Max, 30⟩]]
  btsTids := [7]
  syncStart := 10
  syncEnd := 30

def sharesChannel : ProcData where
  pid := 7
  metadata := .object [("num_channels", .number 1)]
  btsFiles := [[⟨0, 0, uint32Max, 10⟩], [⟨0, eventIdReset, uint32Max, 20⟩]]
  btsTids := [7, 8]
  syncStart := 10
  syncEnd := 20

def endsOpen : ProcData where
  pid := 7
  metadata := .object [("num_channels", .number 1)]
  btsFiles := [[⟨0, 0, uint32Max, 10⟩]]
  btsTids := [7]
  syncStart := 10
  syncEnd := 10

theorem warnsExactly_iff_endsOpen :
    ∃ file, perfettoProc .first endsOpen 0 = .ok file ∧ file.warnings = [7] ∧
      EndsBoth (mergedStream .first endsOpen.btsFiles) ∧ WarnsExactly .first endsOpen file := by
  have hends : EndsBoth (mergedStream .first endsOpen.btsFiles) :=
    ⟨[], (⟨0, 0, uint32Max, 10⟩, 0), [], rfl, rfl, nofun, nofun⟩
  exact ⟨_, rfl, rfl, hends, (@warnsExactly_iff .first endsOpen 0 _ rfl rfl).mpr (.inl hends)⟩

/-- A loss without a warning, and a warning without a loss. -/
theorem not_warnsExactly_leaves_shares :
    (∃ file, perfettoProc .first leavesChannel 0 = .ok file ∧ file.warnings = [] ∧
        ¬WarnsExactly .first leavesChannel file) ∧
      ∃ file, perfettoProc .first sharesChannel 0 = .ok file ∧ file.warnings = [7] ∧
        ¬WarnsExactly .first sharesChannel file := by
  refine ⟨⟨_, rfl, rfl, ?_⟩, ⟨_, rfl, rfl, ?_⟩⟩
  · intro h
    exact h.lost.mpr ⟨0, by decide⟩ rfl
  · intro h
    obtain ⟨c, hlt⟩ := h.lost.mp (by decide)
    cases c with
    | zero => exact absurd hlt (by decide)
    | succ c => simp [recordedSets, sharesChannel] at hlt

/-! ## Threads that keep to a channel -/

/-- A thread records on one channel, and no other thread records on it. -/
def OwnChannels (files : List (List Payload)) : Prop :=
  ∀ i j, ∀ a ∈ nthSource files i, ∀ b ∈ nthSource files j,
    a.isFlow = false → b.isFlow = false → (a.channelId = b.channelId ↔ i = j)

theorem length_btsTids_of_loadsAs {entry : ProcEntry} {proc : ProcData}
    (h : LoadsAs entry proc) : proc.btsTids.length = proc.btsFiles.length := by
  obtain ⟨-, pid, metadata, files, tids, -, -, hthreads, hanchors⟩ := loadsAs_iff.mp h
  obtain ⟨first, last, -, -, rfl⟩ := extractSyncAnchors_ok hanchors
  obtain ⟨loaded, -, heq⟩ := bind_ok_iff.mp hthreads
  obtain ⟨rfl, rfl⟩ := Prod.mk.inj (pure_ok_iff.mp heq)
  show (loaded.reduceOption.map Prod.snd).length = (loaded.reduceOption.map Prod.fst).length
  rw [List.length_map, List.length_map]

/-- In a loaded proc whose threads keep to channels of their own the warning is exact. -/
theorem warnsExactly_of_ownChannels {entry : ProcEntry} {proc : ProcData} {p : Nat}
    {file : PerfettoFile} (hload : LoadsAs entry proc)
    (hfile : perfettoProc q proc p = .ok file) (hown : OwnChannels proc.btsFiles) :
    WarnsExactly q proc file := by
  rw [warnsExactly_iff_ends hfile (length_btsTids_of_loadsAs hload)]
  have hmerge := mergedStream_interleaves q proc.btsFiles
  have hkeys : ∀ x ∈ mergedStream q proc.btsFiles, ∀ y ∈ mergedStream q proc.btsFiles,
      changesState x = true → changesState y = true →
        (y.2 = x.2 ↔ y.1.channelId.toNat = x.1.channelId.toNat) := by
    intro x hx y hy hxs hys
    have hiff := hown y.2 x.2 y.1 (hmerge.mem_iff.mp hy) x.1 (hmerge.mem_iff.mp hx)
      (by simpa [changesState] using hys) (by simpa [changesState] using hxs)
    rw [← hiff, UInt16.toNat_inj]
  apply exists_congr
  intro pre
  apply exists_congr
  intro x
  apply exists_congr
  intro post
  apply and_congr_right
  intro hsplit
  apply and_congr_right
  intro hset
  apply lastOf_congr
  intro y hy hys
  have hxs : changesState x = true := by
    simpa [changesState] using (Payload.isSet_iff.mp hset).1
  exact hkeys x (by simp [hsplit]) y (by simp [hsplit, hy]) hxs hys

end TraCR
