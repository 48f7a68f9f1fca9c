import Mathlib.Data.List.DropRight
import TraCR.Lib.Contents
import TraCR.Proofs.Metadata

/-!
# The marker registry

The labels, the colours and the map from colours to labels are kept in step by both
ways to register a marker, over any number of sessions, and the event ids of a session
count up from zero.  The next colour of `instrumentation_mark_add` counts its calls, so
it may meet a colour the user has chosen.
-/

namespace TraCR

open TraCR.Lib.Run TraCR.TraCRProc

/-! ## What the registry keeps -/

/-- The three containers of the registry describe the same markers. -/
structure Registered (proc : TraCRProc) : Prop where
  colours : proc.markerColorIds.length = proc.markerLabels.length
  types : proc.markerTypes.entries.length = proc.markerLabels.length
  room : proc.markerLabels.length ≤ eventIdReservedMin.toNat
  nodup : proc.markerColorIds.Nodup
  keys : ∀ colorId, (proc.markerTypes.lookup colorId).isSome ↔ colorId ∈ proc.markerColorIds
  labels : ∀ (i : Nat) colorId, proc.markerColorIds[i]? = some colorId →
    proc.markerTypes.lookup colorId = proc.markerLabels[i]?

theorem Registered.addMarker {proc : TraCRProc} (h : Registered proc) {colorId : UInt16}
    (label : String) (hroom : proc.markerLabels.length < eventIdReservedMin.toNat)
    (hcolor : proc.markerTypes.lookup colorId = none) :
    Registered (proc.addMarker label colorId) := by
  have hfresh : colorId ∉ proc.markerColorIds := by
    rw [← h.keys, hcolor]
    exact Bool.false_ne_true
  constructor
  case colours => simp [TraCRProc.addMarker, h.colours]
  case types =>
    -- the colour is new, so nothing is erased before it is added
    show ((proc.markerTypes.erase colorId).entries.length + 1) =
      (proc.markerLabels ++ [label]).length
    rw [Lib.Contents.entries_erase_of_lookup hcolor, h.types, List.length_append,
      List.length_singleton]
  case room =>
    simp only [TraCRProc.addMarker, List.length_append, List.length_singleton]
    exact hroom
  case nodup => exact List.nodup_append.mpr ⟨h.nodup, List.nodup_singleton _, by
    intro c hc c' hc' heq
    rw [List.mem_singleton.mp hc'] at heq
    exact hfresh (heq ▸ hc)⟩
  case keys =>
    intro c
    show ((proc.markerTypes.insert colorId label).lookup c).isSome ↔
      c ∈ proc.markerColorIds ++ [colorId]
    rw [List.mem_append, List.mem_singleton, ← h.keys]
    by_cases hc : c = colorId
    · rw [hc, AList.lookup_insert]
      simp
    · simp [hc, AList.lookup_insert_ne hc]
  case labels =>
    intro i c hi
    show (proc.markerTypes.insert colorId label).lookup c = (proc.markerLabels ++ [label])[i]?
    have hi : (proc.markerColorIds ++ [colorId])[i]? = some c := hi
    by_cases hlt : i < proc.markerColorIds.length
    · rw [List.getElem?_append_left hlt] at hi
      have hne : c ≠ colorId := fun heq => hfresh (heq ▸ List.mem_of_getElem? hi)
      rw [AList.lookup_insert_ne hne, List.getElem?_append_left (h.colours ▸ hlt)]
      exact h.labels i c hi
    · have hlast : i = proc.markerColorIds.length := by
        have hbound := (List.getElem?_eq_some_iff.mp hi).1
        rw [List.length_append, List.length_singleton] at hbound
        omega
      subst hlast
      rw [List.getElem?_concat_length] at hi
      obtain rfl := Option.some.inj hi
      rw [AList.lookup_insert, h.colours, List.getElem?_concat_length]

theorem Registered.congr {proc proc' : TraCRProc} (h : Registered proc)
    (hlabels : proc'.markerLabels = proc.markerLabels)
    (hcolours : proc'.markerColorIds = proc.markerColorIds)
    (htypes : proc'.markerTypes = proc.markerTypes) : Registered proc' := by
  constructor
  case colours => rw [hcolours, hlabels]; exact h.colours
  case types => rw [htypes, hlabels]; exact h.types
  case room => rw [hlabels]; exact h.room
  case nodup => rw [hcolours]; exact h.nodup
  case keys => rw [hcolours, htypes]; exact h.keys
  case labels => rw [hcolours, htypes, hlabels]; exact h.labels

/-- What a call between START and END does to the proc keeps the registry. -/
theorem Registered.step {c : Call} {proc proc' : TraCRProc} {o : Obs} (h : Registered proc)
    (heffect : ProcEffect c proc o proc') : Registered proc' := by
  cases heffect with
  | same => exact h
  | update hcall =>
      obtain ⟨hlabels, hcolours, htypes, -⟩ := update_keeps hcall proc
      exact h.congr hlabels hcolours htypes
  | snapshot =>
      exact h.congr (markerLabels_writeJSON _) (markerColorIds_writeJSON _)
        (markerTypes_writeJSON _)
  | register _ _ _ hroom hcolor => exact h.addMarker _ hroom hcolor

theorem registered_of_empty {proc : TraCRProc} (hlabels : proc.markerLabels = [])
    (hcolours : proc.markerColorIds = []) (htypes : proc.markerTypes = ∅) :
    Registered proc := by
  constructor
  case colours => simp [hlabels, hcolours]
  case types => simp [hlabels, htypes]
  case room => rw [hlabels]; exact Nat.zero_le _
  case nodup => rw [hcolours]; exact List.nodup_nil
  case keys => simp [hcolours, htypes]
  case labels => simp [hcolours]

/-! ## The event ids of a session -/

def Obs.eventId? : Obs → Option UInt16
  | .eventId id => some id
  | _ => none

/-- The event ids handed out since the last START. -/
def sessionIds (h : List (Action × Obs)) : List UInt16 :=
  (h.rtakeWhile fun x => !x.1.call.isStart).filterMap fun x => x.2.eventId?

theorem sessionIds_start (h : List (Action × Obs)) {a : Action} {o : Obs}
    (ha : a.call = .start) : sessionIds (h ++ [(a, o)]) = [] := by
  unfold sessionIds
  rw [List.rtakeWhile_concat_neg _ _ _ (by simp [ha, Call.isStart])]
  rfl

theorem sessionIds_append (h : List (Action × Obs)) {a : Action} {o : Obs}
    (ha : a.call.isStart = false) :
    sessionIds (h ++ [(a, o)]) = sessionIds h ++ o.eventId?.toList := by
  unfold sessionIds
  rw [List.rtakeWhile_concat_pos _ _ _ (by simp [ha]), List.filterMap_append]
  cases o <;> rfl

/-- While a proc is live its registry and its document are in order, and the ids handed
out in its session are the indices of its markers. -/
structure Numbered {b : Build} (w : World b) (h : List (Action × Obs)) : Prop where
  registered : ∀ proc, w.tracrProc = some proc → Registered proc
  consistent : ∀ proc, w.tracrProc = some proc → Consistent proc
  ascending : ∀ proc, w.tracrProc = some proc → Ascending (jsonMarkerTypes proc.jsonFile)
  ids : ∀ proc, w.tracrProc = some proc →
    (sessionIds h).map UInt16.toNat = List.range proc.markerLabels.length

variable {b : Build} {pf : Platform}

theorem numbered_of_idle {w : World b} (hidle : w.tracrProc = none)
    (h : List (Action × Obs)) : Numbered w h := by
  constructor <;> intro proc hproc <;> rw [hidle] at hproc <;> cases hproc

theorem ProcEffect.ascending {c : Call} {proc proc' : TraCRProc} {o : Obs}
    (heffect : ProcEffect c proc o proc') (h : Ascending (jsonMarkerTypes proc.jsonFile)) :
    Ascending (jsonMarkerTypes proc'.jsonFile) := by
  cases heffect with
  | same => exact h
  | update hcall =>
      obtain ⟨-, -, -, -, hfields⟩ := update_keeps hcall proc
      rw [jsonMarkerTypes_congr (hfields "markerTypes" (by decide) (by decide))]
      exact h
  | register => exact h
  | @snapshot now =>
      rw [jsonFile_writeJSON]
      apply ascending_writeMarkerTypes
      rw [jsonMarkerTypes_congr (lookup_baseFields_ne (by decide) now)]
      exact h

theorem ProcEffect.map_ids {c : Call} {proc proc' : TraCRProc} {o : Obs} {ids : List UInt16}
    (heffect : ProcEffect c proc o proc')
    (hids : ids.map UInt16.toNat = List.range proc.markerLabels.length) :
    (ids ++ o.eventId?.toList).map UInt16.toNat = List.range proc'.markerLabels.length := by
  cases heffect with
  | same _ _ _ hid =>
      have hnone : o.eventId? = none := by
        cases o with
        | eventId id => exact absurd rfl (hid id)
        | nothing | stored | document => rfl
      rw [hnone, Option.toList_none, List.append_nil]
      exact hids
  | update hcall =>
      rw [(update_keeps hcall proc).1]
      simpa [Obs.eventId?] using hids
  | snapshot => simpa [Obs.eventId?, writeJSON, setField] using hids
  | register _ _ _ hroom =>
      have hlt : proc.markerLabels.length < 65533 := hroom
      have hlast : (UInt16.ofNat proc.markerLabels.length).toNat = proc.markerLabels.length :=
        UInt16.toNat_ofNat_of_lt' (by show _ < 65536; omega)
      simp only [Obs.eventId?, Option.toList_some, List.map_append, List.map_singleton, hids,
        hlast, TraCRProc.addMarker, List.length_append, List.length_singleton,
        List.range_succ]

/-- Every call keeps the registry in order, START and END included. -/
theorem Numbered.step {w w' : World b} {h : List (Action × Obs)} {a : Action} {o : Obs}
    (hnumbered : Numbered w h) (hstep : TraCR.step pf w a = .ok (o, w')) :
    Numbered w' (h ++ [(a, o)]) := by
  by_cases hstart : a.call = .start
  · obtain ⟨-, -, -, proc, disk, hfolders, rfl⟩ := start_of_step hstart hstep
    obtain ⟨name, rfl⟩ := exists_of_createFolders hfolders
    have hids := sessionIds_start (o := o) h hstart
    constructor <;> intro proc hproc <;> obtain rfl := Option.some.inj hproc
    case registered => exact registered_of_empty rfl rfl rfl
    case consistent =>
      refine ⟨rfl, ?_⟩
      intro key value hvalue
      cases hvalue
    case ascending => exact List.Pairwise.nil
    case ids =>
      rw [hids]
      rfl
  · by_cases hstop : a.call = .stop
    · obtain ⟨-, proc, th, w₁, -, -, -, rfl⟩ := stop_of_step hstop hstep
      exact numbered_of_idle rfl _
    · cases hproc : w.tracrProc with
      | none =>
          refine numbered_of_idle ?_ _
          cases effect_of_step hstep with
          | start hcall => exact absurd hcall hstart
          | stop hcall => exact absurd hcall hstop
          | register _ hsome | update _ hsome | snapshot _ hsome =>
              rw [hproc] at hsome
              cases hsome
          | threadInit | threadFinalize | untraced | store | on | off | tracePath =>
              exact hproc
      | some proc =>
          obtain ⟨proc', hproc', heffect⟩ := procEffect_of_step hproc hstop hstep
          have hno : a.call.isStart = false := by
            cases hcall : a.call <;> first | rfl | exact absurd hcall hstart
          have hids := sessionIds_append (o := o) h hno
          constructor <;> intro proc'' hproc'' <;>
            obtain rfl := Option.some.inj (hproc'.symm.trans hproc'')
          case registered => exact (hnumbered.registered proc hproc).step heffect
          case consistent => exact (hnumbered.consistent proc hproc).step heffect
          case ascending => exact heffect.ascending (hnumbered.ascending proc hproc)
          case ids =>
            rw [hids]
            exact heffect.map_ids (hnumbered.ids proc hproc)

theorem numbered_of_run {w w' : World b} (hidle : w.tracrProc = none) {actions : List Action}
    {obs : List Obs} (hrun : run pf w actions = .ok (obs, w')) :
    Numbered w' (actions.zip obs) :=
  exec_history (I := Numbered) (h := []) (P := fun _ _ => True)
    (fun _ _ _ _ _ hI _ hstep => hI.step hstep) (numbered_of_idle hidle [])
    (along_of_forall fun _ _ => trivial) hrun

/-- From any state without a proc and whatever calls follow: while a proc is live its
registry is in order, and the event ids handed out in its session count up from zero,
so they are distinct and not reserved. -/
theorem registered_of_run {w w' : World b} (hidle : w.tracrProc = none)
    {actions : List Action} {obs : List Obs} (hrun : run pf w actions = .ok (obs, w'))
    {proc : TraCRProc} (hproc : w'.tracrProc = some proc) :
    Registered proc ∧
      (sessionIds (actions.zip obs)).map UInt16.toNat = List.range proc.markerLabels.length ∧
      (sessionIds (actions.zip obs)).Nodup ∧
      ∀ id ∈ sessionIds (actions.zip obs),
        id ≠ eventIdReset ∧ id ≠ eventIdFlowStart ∧ id ≠ eventIdFlowEnd := by
  have hnumbered := numbered_of_run hidle hrun
  have hregistered := hnumbered.registered proc hproc
  have hids := hnumbered.ids proc hproc
  refine ⟨hregistered, hids, ?_, ?_⟩
  · apply List.Nodup.of_map UInt16.toNat
    rw [hids]
    exact List.nodup_range
  · intro id hid
    have hmem : id.toNat ∈ List.range proc.markerLabels.length :=
      hids ▸ List.mem_map_of_mem hid
    have hlt : id.toNat < 65533 :=
      Nat.lt_of_lt_of_le (List.mem_range.mp hmem) hregistered.room
    refine ⟨?_, ?_, ?_⟩ <;> rintro rfl <;> exact absurd hlt (by decide)

def twoSessions : List Action :=
  callsBy 0 [.start, .markWColorAdd "a" 5, .markAdd "b", .stop, .start, .markAdd "c",
    .markWColorAdd "d" 23]

theorem exists_run_twoSessions :
    ∃ obs w proc, run tickingPlatform (World.initial eightPayloads) twoSessions = .ok (obs, w) ∧
      w.tracrProc = some proc ∧ proc.markerColorIds = [24, 23] ∧
      proc.markerLabels = ["c", "d"] :=
  ⟨_, _, _, rfl, rfl, rfl, rfl⟩

theorem registered_two_sessions :
    ∃ obs w proc, run tickingPlatform (World.initial eightPayloads) twoSessions = .ok (obs, w) ∧
      w.tracrProc = some proc ∧ proc.markerColorIds = [24, 23] ∧ Registered proc ∧
      (sessionIds (twoSessions.zip obs)).map UInt16.toNat = List.range 2 := by
  obtain ⟨obs, w, proc, hrun, hproc, hcolours, hlabels⟩ := exists_run_twoSessions
  have hregistered := registered_of_run rfl hrun hproc
  rw [hlabels] at hregistered
  exact ⟨obs, w, proc, hrun, hproc, hcolours, hregistered.1, hregistered.2.1⟩

/-! ## The next colour -/

def Call.isMarkAdd : Call → Bool
  | .markAdd _ => true
  | _ => false

def Call.chosen? : Call → Option UInt16
  | .markWColorAdd _ colorId => some colorId
  | _ => none

/-- The colour `instrumentation_mark_add` takes after some calls of the process: the
first one is 23, and every call of it takes one. -/
def nextColour (actions : List Action) : UInt16 :=
  23 + .ofNat (actions.countP fun a => a.call.isMarkAdd)

def sinceStart (actions : List Action) : List Action :=
  actions.rtakeWhile fun a => !a.call.isStart

def chosenColours (actions : List Action) : List UInt16 :=
  (sinceStart actions).filterMap fun a => a.call.chosen?

def assigned (actions : List Action) : Nat :=
  (sinceStart actions).countP fun a => a.call.isMarkAdd

/-- A registry holds the colours the user has chosen and, just before the next colour,
those that were assigned. -/
structure Palette (w : World b) (actions : List Action) : Prop where
  next : w.lazyColorId = nextColour actions
  colours : ∀ proc, w.tracrProc = some proc → ∀ colorId, colorId ∈ proc.markerColorIds ↔
    colorId ∈ chosenColours actions ∨
      ∃ n, 1 ≤ n ∧ n ≤ assigned actions ∧ colorId + .ofNat n = w.lazyColorId
  assigned_le : ∀ proc, w.tracrProc = some proc →
    assigned actions ≤ proc.markerLabels.length

theorem palette_initial : Palette (World.initial b) [] := by
  constructor
  case next => rfl
  case colours | assigned_le =>
    intro proc hproc
    cases hproc

section NextColour

variable {actions : List Action} {a : Action}

theorem nextColour_append : nextColour (actions ++ [a]) =
    nextColour actions + if a.call.isMarkAdd then 1 else 0 := by
  unfold nextColour
  rw [List.countP_append, List.countP_singleton, UInt16.ofNat_add, UInt16.add_assoc]
  cases a.call.isMarkAdd <;> rfl

theorem sinceStart_start (ha : a.call = .start) : sinceStart (actions ++ [a]) = [] :=
  List.rtakeWhile_concat_neg _ _ _ (by simp [ha, Call.isStart])

theorem sinceStart_append (ha : a.call.isStart = false) :
    sinceStart (actions ++ [a]) = sinceStart actions ++ [a] :=
  List.rtakeWhile_concat_pos _ _ _ (by simp [ha])

theorem chosenColours_append (ha : a.call.isStart = false) :
    chosenColours (actions ++ [a]) = chosenColours actions ++ a.call.chosen?.toList := by
  unfold chosenColours
  rw [sinceStart_append ha, List.filterMap_append]
  cases hchosen : a.call.chosen? <;> simp [hchosen]

theorem assigned_append (ha : a.call.isStart = false) :
    assigned (actions ++ [a]) = assigned actions + if a.call.isMarkAdd then 1 else 0 := by
  unfold assigned
  rw [sinceStart_append ha, List.countP_append, List.countP_singleton]

theorem exists_before_succ_iff {c next : UInt16} {k : Nat} :
    (∃ n, 1 ≤ n ∧ n ≤ k + 1 ∧ c + .ofNat n = next + 1) ↔
      (∃ n, 1 ≤ n ∧ n ≤ k ∧ c + .ofNat n = next) ∨ c = next := by
  have hback : ∀ n : Nat, c + .ofNat (n + 1) = next + 1 ↔ c + .ofNat n = next := by
    intro n
    rw [UInt16.ofNat_add, ← UInt16.add_assoc]
    exact UInt16.add_left_inj _
  constructor
  · rintro ⟨n, hpos, hn, hc⟩
    obtain ⟨m, rfl⟩ : ∃ m, n = m + 1 := ⟨n - 1, by omega⟩
    have hc := (hback m).mp hc
    by_cases hzero : m = 0
    · subst hzero
      exact .inr (by simpa using hc)
    · exact .inl ⟨m, by omega, by omega, hc⟩
  · rintro (⟨n, hpos, hn, hc⟩ | rfl)
    · exact ⟨n + 1, by omega, by omega, (hback n).mpr hc⟩
    · exact ⟨1, by omega, by omega, rfl⟩

theorem others_of_label? {c : Call} (h : c.label? = none) :
    c.isMarkAdd = false ∧ c.chosen? = none := by
  cases c <;> first | exact ⟨rfl, rfl⟩ | cases h

theorem Palette.of_idle {w : World b} (hidle : w.tracrProc = none)
    (hnext : w.lazyColorId = nextColour actions) : Palette w actions := by
  refine ⟨hnext, ?_, ?_⟩ <;> intro proc hproc <;> rw [hidle] at hproc <;> cases hproc

theorem Palette.keep {w w' : World b} (h : Palette w actions)
    (hstart : a.call.isStart = false) (hlabel : a.call.label? = none)
    (hnext : w'.lazyColorId = w.lazyColorId)
    (hproc : ∀ proc', w'.tracrProc = some proc' → ∃ proc, w.tracrProc = some proc ∧
      proc'.markerColorIds = proc.markerColorIds ∧ proc'.markerLabels = proc.markerLabels) :
    Palette w' (actions ++ [a]) := by
  obtain ⟨hadd, hchosen⟩ := others_of_label? hlabel
  have hcolours : chosenColours (actions ++ [a]) = chosenColours actions := by
    rw [chosenColours_append hstart, hchosen]
    simp
  have hassigned : assigned (actions ++ [a]) = assigned actions := by
    rw [assigned_append hstart, hadd]
    simp
  constructor
  case next =>
    rw [hnext, h.next, nextColour_append, hadd]
    simp
  case colours =>
    intro proc' hproc'
    obtain ⟨proc, hold, hids, -⟩ := hproc proc' hproc'
    rw [hids, hcolours, hassigned, hnext]
    exact h.colours proc hold
  case assigned_le =>
    intro proc' hproc'
    obtain ⟨proc, hold, -, hlabels⟩ := hproc proc' hproc'
    rw [hlabels, hassigned]
    exact h.assigned_le proc hold

theorem Palette.register {w : World b} {proc : TraCRProc} {label : String}
    {colorId lazyColorId : UInt16} (h : Palette w actions)
    (hcall : a.call.Registers w.lazyColorId label colorId lazyColorId)
    (hproc : w.tracrProc = some proc) :
    Palette { w with
      tracrProc := some (proc.addMarker label colorId)
      lazyColorId := lazyColorId } (actions ++ [a]) := by
  have hstart : a.call.isStart = false := by
    cases hkind : a.call <;> rw [hkind] at hcall <;> first | rfl | cases hcall
  have hold := h.colours proc hproc
  have hle := h.assigned_le proc hproc
  have hcolours := @chosenColours_append actions a hstart
  have hassigned := @assigned_append actions a hstart
  have hnext := @nextColour_append actions a
  generalize a.call = call at hcall hcolours hassigned hnext
  cases hcall with
  | wColor =>
      constructor
      case next =>
        rw [hnext, h.next]
        simp [Call.isMarkAdd]
      case colours =>
        intro proc' hproc' c
        obtain rfl := Option.some.inj hproc'
        show c ∈ proc.markerColorIds ++ [colorId] ↔ _
        rw [List.mem_append, hold, hcolours, hassigned, List.mem_append, or_right_comm]
        rfl
      case assigned_le =>
        intro proc' hproc'
        obtain rfl := Option.some.inj hproc'
        have hsame : assigned (actions ++ [a]) = assigned actions := hassigned
        rw [hsame]
        simp only [TraCRProc.addMarker, List.length_append]
        omega
  | add =>
      constructor
      case next =>
        rw [hnext, ← h.next]
        rfl
      case colours =>
        intro proc' hproc' c
        obtain rfl := Option.some.inj hproc'
        show c ∈ proc.markerColorIds ++ [w.lazyColorId] ↔
          c ∈ chosenColours (actions ++ [a]) ∨
            ∃ n, 1 ≤ n ∧ n ≤ assigned (actions ++ [a]) ∧ c + .ofNat n = w.lazyColorId + 1
        have hsucc : assigned (actions ++ [a]) = assigned actions + 1 := hassigned
        have hsame : chosenColours (actions ++ [a]) = chosenColours actions := by
          rw [hcolours]
          exact List.append_nil _
        rw [List.mem_append, hold, hsame, hsucc, List.mem_singleton, exists_before_succ_iff,
          or_assoc]
      case assigned_le =>
        intro proc' hproc'
        obtain rfl := Option.some.inj hproc'
        have hsucc : assigned (actions ++ [a]) = assigned actions + 1 := hassigned
        rw [hsucc]
        simp only [TraCRProc.addMarker, List.length_append, List.length_singleton]
        omega

theorem Palette.step {w w' : World b} {o : Obs} (h : Palette w actions)
    (hstep : TraCR.step pf w a = .ok (o, w')) : Palette w' (actions ++ [a]) := by
  have hsame : ∀ proc', w.tracrProc = some proc' → ∃ proc, w.tracrProc = some proc ∧
      proc'.markerColorIds = proc.markerColorIds ∧ proc'.markerLabels = proc.markerLabels :=
    fun proc' hproc' => ⟨proc', hproc', rfl, rfl⟩
  cases effect_of_step hstep with
  | @start proc disk hcall _ _ hfolders =>
      obtain ⟨name, rfl⟩ := exists_of_createFolders hfolders
      constructor
      case next =>
        rw [nextColour_append, hcall, h.next]
        simp [Call.isMarkAdd]
      case colours =>
        intro proc' hproc' c
        obtain rfl := Option.some.inj hproc'
        unfold chosenColours assigned
        rw [sinceStart_start hcall]
        simp [create]
      case assigned_le =>
        intro proc' _
        unfold assigned
        rw [sinceStart_start hcall]
        exact Nat.zero_le _
  | stop hcall _ _ hflush =>
      obtain ⟨disk, reads, rfl⟩ := exists_of_flushProc hflush
      refine .of_idle rfl ?_
      rw [nextColour_append, hcall, ← h.next]
      simp [Call.isMarkAdd]
  | register hcall hproc => exact h.register hcall hproc
  | update hcall hproc =>
      obtain ⟨-, hlabel, -, -, hopens⟩ := others_of_update? hcall
      refine h.keep ?_ hlabel rfl ?_
      · cases hkind : a.call <;> rw [hkind] at hopens <;> first | rfl | cases hopens
      · intro proc' hproc'
        obtain rfl := Option.some.inj hproc'
        obtain ⟨hlabels, hids, -⟩ := update_keeps hcall _
        exact ⟨_, hproc, hids, hlabels⟩
  | snapshot hcall hproc =>
      refine h.keep (hcall ▸ rfl) (hcall ▸ rfl) rfl ?_
      intro proc' hproc'
      obtain rfl := Option.some.inj hproc'
      exact ⟨_, hproc, rfl, rfl⟩
  | untraced hcall | store hcall =>
      obtain ⟨-, hlabel, -, -, hopens⟩ := others_of_record? hcall
      refine h.keep ?_ hlabel rfl hsame
      cases hkind : a.call <;> rw [hkind] at hopens <;> first | rfl | cases hopens
  | threadInit hcall | threadFinalize hcall | on hcall | off hcall | tracePath hcall =>
      exact h.keep (hcall ▸ rfl) (hcall ▸ rfl) rfl hsame

end NextColour

theorem palette_of_run {w : World b} {actions : List Action} {obs : List Obs}
    (hrun : run pf (World.initial b) actions = .ok (obs, w)) : Palette w actions := by
  have hstep : ∀ (w : World b) h a o w', Palette w h → True →
      step pf w a = .ok (o, w') → Palette w' (h ++ [a]) :=
    fun _ _ _ _ _ hpalette _ hnext => hpalette.step hnext
  exact exec_inputs hstep palette_initial (along_of_forall fun _ _ => trivial) hrun

/-- `instrumentation_mark_add` returns with the label registered under a colour that no
marker of the proc had. -/
def AddsMarker (w : World b) (label : String) : Prop :=
  ∃ proc id w' colorId, w.tracrProc = some proc ∧
    w.instrumentationMarkAdd label = .ok (id, w') ∧ colorId ∉ proc.markerColorIds ∧
      w'.tracrProc = some (proc.addMarker label colorId)

/-- While there is room, one test decides. -/
theorem instrumentationMarkAdd_eq {w : World b} {proc : TraCRProc}
    (hproc : w.tracrProc = some proc) (hregistered : Registered proc)
    (hroom : proc.markerLabels.length < eventIdReservedMin.toNat) (label : String) :
    w.instrumentationMarkAdd label =
      if w.lazyColorId ∈ proc.markerColorIds then .error (.exit .colorAlreadyUsed)
      else .ok (.ofNat proc.markerLabels.length, { w with
        tracrProc := some (proc.addMarker label w.lazyColorId)
        lazyColorId := w.lazyColorId + 1 }) := by
  unfold World.instrumentationMarkAdd
  simp only [hproc]
  rw [if_neg (Nat.not_le_of_lt hroom)]
  by_cases hused : w.lazyColorId ∈ proc.markerColorIds
  · rw [if_pos ((hregistered.keys _).mpr hused), if_pos hused]
  · rw [if_neg (mt (hregistered.keys _).mp hused), if_neg hused]
    simp [TraCRProc.addMarker]

/-- While there is room, `instrumentation_mark_add` succeeds if and only if the user has
not chosen the next colour since the last START; otherwise it takes the exit. -/
theorem addsMarker_iff {w : World b} {actions : List Action} {obs : List Obs}
    (hrun : run pf (World.initial b) actions = .ok (obs, w)) {proc : TraCRProc}
    (hproc : w.tracrProc = some proc)
    (hroom : proc.markerLabels.length < eventIdReservedMin.toNat) (label : String) :
    (AddsMarker w label ↔ nextColour actions ∉ chosenColours actions) ∧
      (w.instrumentationMarkAdd label = .error (.exit .colorAlreadyUsed) ↔
        nextColour actions ∈ chosenColours actions) := by
  have hregistered := (numbered_of_run rfl hrun).registered proc hproc
  have hpalette := palette_of_run hrun
  have hused : w.lazyColorId ∈ proc.markerColorIds ↔
      nextColour actions ∈ chosenColours actions := by
    rw [hpalette.colours proc hproc, ← hpalette.next, or_iff_left_iff_imp]
    rintro ⟨n, hpos, hn, hc⟩
    -- fewer colours are assigned in a session than there are colours
    have hle := hpalette.assigned_le proc hproc
    have hlt : n < 65536 := by
      have hroom : proc.markerLabels.length < 65533 := hroom
      omega
    have hzero : UInt16.ofNat n = 0 := by simpa using hc
    have hnat : n = 0 := by
      have htoNat := congrArg UInt16.toNat hzero
      rwa [UInt16.toNat_ofNat_of_lt' hlt] at htoNat
    omega
  have hcall := instrumentationMarkAdd_eq hproc hregistered hroom label
  rw [← hused]
  by_cases hcolor : w.lazyColorId ∈ proc.markerColorIds
  · rw [if_pos hcolor] at hcall
    refine ⟨iff_of_false ?_ (not_not.mpr hcolor), iff_of_true hcall hcolor⟩
    rintro ⟨proc', id, w', colorId, -, hok, -⟩
    rw [hcall] at hok
    cases hok
  · rw [if_neg hcolor] at hcall
    refine ⟨iff_of_true ?_ hcolor, iff_of_false ?_ hcolor⟩
    · exact ⟨proc, _, _, w.lazyColorId, hproc, hcall, hcolor, rfl⟩
    · rw [hcall]
      exact fun h => nomatch h

theorem addsMarker_two_sessions :
    ∃ obs w, run tickingPlatform (World.initial eightPayloads) twoSessions = .ok (obs, w) ∧
      AddsMarker w "e" := by
  obtain ⟨obs, w, proc, hrun, hproc, -, hlabels⟩ := exists_run_twoSessions
  have hroom : proc.markerLabels.length < eventIdReservedMin.toNat := by
    rw [hlabels]
    decide
  exact ⟨obs, w, hrun, (addsMarker_iff hrun hproc hroom "e").1.mpr (by decide)⟩

theorem not_addsMarker_chosen_color :
    ∃ obs w proc, run tickingPlatform (World.initial eightPayloads)
        (callsBy 0 [.start, .markWColorAdd "a" 23]) = .ok (obs, w) ∧
      w.tracrProc = some proc ∧ proc.markerLabels.length < eventIdReservedMin.toNat ∧
      w.instrumentationMarkAdd "b" = .error (.exit .colorAlreadyUsed) ∧
      ¬ AddsMarker w "b" := by
  obtain ⟨obs, w, proc, hrun, hproc, hlabels, hexit⟩ : ∃ obs w proc,
      run tickingPlatform (World.initial eightPayloads)
        (callsBy 0 [.start, .markWColorAdd "a" 23]) = .ok (obs, w) ∧
      w.tracrProc = some proc ∧ proc.markerLabels = ["a"] ∧
      w.instrumentationMarkAdd "b" = .error (.exit .colorAlreadyUsed) :=
    ⟨_, _, _, rfl, rfl, rfl, rfl⟩
  refine ⟨obs, w, proc, hrun, hproc, by rw [hlabels]; decide, hexit, ?_⟩
  rintro ⟨proc', id, w', colorId, -, hok, -⟩
  rw [hexit] at hok
  cases hok

end TraCR
