import TraCR.Lib.Decimal
import TraCR.Lib.Ring
import TraCR.Engine.Payload
import TraCR.Engine.Disk

/-!
# Trace buffers

`TraCRThread` of `marker_management_engine.hpp`: the fixed-size buffer of one
thread, the three policies for a full buffer, and the flush into
`thread.<tid>/traces.bts`.
-/

namespace TraCR

open TraCR.Lib

inductive Policy where
  | periodic
  | ignoreIfFull
  | abortIfFull
deriving DecidableEq, Repr

structure Build where
  /-- `TRACR_CAPACITY`. -/
  capacity : Nat
  capacity_pos : 0 < capacity
  /-- `TRACR_POLICY_PERIODIC`, `TRACR_POLICY_IGNORE_IF_FULL`, or the default. -/
  policy : Policy
  /-- `TRACR_DISABLE_FLUSH`. -/
  disableFlush : Bool

/-- The buffer of one thread.  `traceIdx` is where the next marker goes. -/
structure TraCRThread (b : Build) where
  traces : Vector Payload b.capacity
  traceIdx : Nat
  tid : Pid

namespace TraCRThread

variable {b : Build}

/-- The constructor leaves the array as the memory was. -/
def create (b : Build) (memory : Nat → Payload) (tid : Pid) : TraCRThread b where
  traces := Vector.ofFn fun i => memory i
  traceIdx := 0
  tid := tid

def storeTrace (th : TraCRThread b) (payload : Payload) :
    Except Stop (TraCRThread b) :=
  match b.policy with
  | .periodic =>
      .ok { th with
        traces := th.traces.set (th.traceIdx % b.capacity) payload
          (Nat.mod_lt _ b.capacity_pos)
        traceIdx := th.traceIdx + 1 }
  | .ignoreIfFull =>
      if h : th.traceIdx < b.capacity then
        .ok { th with
          traces := th.traces.set th.traceIdx payload h
          traceIdx := th.traceIdx + 1 }
      else .ok th
  | .abortIfFull =>
      if h : th.traceIdx < b.capacity then
        .ok { th with
          traces := th.traces.set th.traceIdx payload h
          traceIdx := th.traceIdx + 1 }
      else .error (.exit (.bufferFull th.tid))

/-- The payloads the `ofs.write` calls of a flush put into the file, in order. -/
def written (th : TraCRThread b) : List Payload :=
  let slots := th.traces.toList
  match b.policy with
  | .periodic =>
      if b.capacity < th.traceIdx then
        -- the ring has wrapped: oldest entry to the end, then from the start
        let oldest := th.traceIdx % b.capacity
        (slots.drop oldest).take (b.capacity - oldest) ++ slots.take oldest
      else slots.take th.traceIdx
  | _ => slots.take th.traceIdx

def folderName (tid : Pid) : String := s!"thread.{tid}"

theorem toList_folderName (tid : Pid) :
    (folderName tid).toList = "thread.".toList ++ (toString tid.val).toList := by
  simp [folderName, toString]

theorem folderName_injective : Function.Injective folderName := by
  intro tid tid' h
  have hlist := congrArg String.toList h
  rw [toList_folderName, toList_folderName] at hlist
  have htext := String.toList_injective (List.append_cancel_left hlist)
  exact Subtype.ext (Decimal.toString_injective htext)

/-- Flush into `thread.<tid>/traces.bts` below `path`.  The file is opened for
writing without `std::ios::app`, so what an earlier flush put there is dropped. -/
def flushTraces (th : TraCRThread b) (disk : Disk) (path : ProcPath) (fault : Fault) :
    Except Stop Disk :=
  if th.traceIdx = 0 then .ok disk
  else
    let threadFolder := path.base ++ path.folder ++ "/" ++ folderName th.tid ++ "/"
    let filepath := threadFolder ++ "traces.bts"
    match disk.lookup path with
    | none => .error (.exit (.mkdirFailed threadFolder))
    | some dir =>
        match fault with
        | .mkdir => .error (.exit (.mkdirFailed threadFolder))
        | .openTraces => .error (.exit (.openFailed filepath))
        | .writeTraces _ => .error (.exit (.writeFailed filepath))
        | .closeTraces _ => .error (.exit (.closeFailed filepath))
        | _ =>
            .ok (disk.insert path { dir with
              threads := dir.threads.insert (folderName th.tid)
                (payloadBytes th.written) })

/-- What the flush leaves, also where it stops on the way. -/
def flushLeaves (th : TraCRThread b) (disk : Disk) (path : ProcPath) (fault : Fault) :
    Leftover :=
  if th.traceIdx = 0 then ⟨disk, none⟩
  else
    match disk.lookup path with
    | none => ⟨disk, none⟩
    | some dir =>
        let holding := fun bytes => disk.insert path { dir with
          threads := dir.threads.insert (folderName th.tid) bytes }
        match fault with
        | .mkdir => ⟨disk, none⟩
        | .openTraces =>
            -- an older file is not opened either, and stays
            ⟨disk, if (dir.threads.lookup (folderName th.tid)).isSome then none
              else some (path, folderName th.tid)⟩
        | .writeTraces bytes => ⟨holding ((payloadBytes th.written).take bytes), none⟩
        | .closeTraces bytes => ⟨holding ((payloadBytes th.written).take bytes), none⟩
        | _ => ⟨holding (payloadBytes th.written), none⟩

def tracesFile (disk : Disk) (path : ProcPath) (tid : Pid) : Option (List UInt8) :=
  (disk.lookup path).bind fun dir => dir.threads.lookup (folderName tid)

/-- A flush that returns has nothing to write, or has replaced the file of the
thread in the folder of the proc. -/
theorem flushTraces_ok {th : TraCRThread b} {disk disk' : Disk} {path : ProcPath}
    {fault : Fault} (h : th.flushTraces disk path fault = .ok disk') :
    (th.traceIdx = 0 ∧ disk' = disk) ∨
      (th.traceIdx ≠ 0 ∧ ∃ dir, disk.lookup path = some dir ∧
        disk' = disk.insert path { dir with
          threads := dir.threads.insert (folderName th.tid) (payloadBytes th.written) }) := by
  unfold flushTraces at h
  split at h
  next hzero =>
    exact .inl ⟨hzero, (Except.ok.inj h).symm⟩
  next hpos =>
    simp only at h
    split at h
    · cases h
    next dir hdir =>
      refine .inr ⟨hpos, dir, hdir, ?_⟩
      cases fault with
      | none | openMetadata => exact (Except.ok.inj h).symm
      | mkdir | openTraces | writeTraces _ | closeTraces _ => cases h

theorem storeTrace_tid {th th' : TraCRThread b} {payload : Payload}
    (h : th.storeTrace payload = .ok th') : th'.tid = th.tid := by
  unfold storeTrace at h
  split at h
  · rw [← Except.ok.inj h]
  · split at h <;> rw [← Except.ok.inj h]
  · split at h
    · rw [← Except.ok.inj h]
    · cases h

/-! ## What a buffer holds -/

def accepted (b : Build) (stored : List Payload) : List Payload :=
  match b.policy with
  | .ignoreIfFull => stored.take b.capacity
  | _ => stored

/-- The payloads a flush writes, out of all payloads stored: the last `capacity`
of them, the first `capacity`, or all. -/
def kept (b : Build) (stored : List Payload) : List Payload :=
  match b.policy with
  | .periodic => stored.drop (stored.length - b.capacity)
  | .ignoreIfFull => stored.take b.capacity
  | .abortIfFull => stored

theorem kept_sublist (stored : List Payload) : (kept b stored).Sublist stored := by
  unfold kept
  cases b.policy with
  | periodic => exact List.drop_sublist _ _
  | ignoreIfFull => exact List.take_sublist _ _
  | abortIfFull => exact .refl _

theorem mem_of_mem_kept {stored : List Payload} {p : Payload} (h : p ∈ kept b stored) :
    p ∈ stored :=
  (kept_sublist stored).subset h

/-- The buffer is what storing `stored` into a fresh one leaves. -/
structure Recorded (th : TraCRThread b) (stored : List Payload) : Prop where
  index : th.traceIdx = (accepted b stored).length
  slots : Ring.Holds th.traces (accepted b stored)
  fits : b.policy ≠ .periodic → (accepted b stored).length ≤ b.capacity

theorem recorded_create (memory : Nat → Payload) (tid : Pid) :
    Recorded (create b memory tid) [] where
  index := by cases h : b.policy <;> simp [create, accepted, h]
  slots := by
    have hnil : accepted b [] = [] := by cases h : b.policy <;> simp [accepted, h]
    rw [hnil]
    exact Ring.holds_nil
  fits := by
    intro _
    cases h : b.policy <;> simp [accepted, h]

theorem set_eq_write {th : TraCRThread b} (payload : Payload)
    (h : th.traceIdx < b.capacity) :
    th.traces.set th.traceIdx payload h =
      Ring.write b.capacity_pos th.traces th.traceIdx payload := by
  simp [Ring.write, Nat.mod_eq_of_lt h]

theorem Recorded.push {th : TraCRThread b} {stored : List Payload} {payload : Payload}
    (h : Recorded th stored) (hroom : b.policy ≠ .periodic → th.traceIdx < b.capacity)
    (haccepted : accepted b (stored ++ [payload]) = accepted b stored ++ [payload]) :
    Recorded { th with
        traces := Ring.write b.capacity_pos th.traces th.traceIdx payload
        traceIdx := th.traceIdx + 1 } (stored ++ [payload]) where
  index := by
    show th.traceIdx + 1 = (accepted b (stored ++ [payload])).length
    rw [haccepted, List.length_append, List.length_singleton, h.index]
  slots := by
    rw [haccepted, h.index]
    exact h.slots.write b.capacity_pos payload
  fits := by
    intro hpolicy
    have hlt := hroom hpolicy
    rw [h.index] at hlt
    rw [haccepted, List.length_append, List.length_singleton]
    omega

theorem Recorded.storeTrace {th th' : TraCRThread b} {stored : List Payload}
    {payload : Payload} (h : Recorded th stored)
    (hstore : th.storeTrace payload = .ok th') :
    Recorded th' (stored ++ [payload]) := by
  unfold TraCRThread.storeTrace at hstore
  cases hpolicy : b.policy with
  | periodic =>
      simp only [hpolicy, Except.ok.injEq] at hstore
      subst hstore
      exact h.push (absurd hpolicy) (by simp [accepted, hpolicy])
  | ignoreIfFull =>
      have hindex := h.index
      simp only [accepted, hpolicy, List.length_take] at hindex
      simp only [hpolicy] at hstore
      split at hstore
      next hlt =>
        -- the payload still fits
        obtain rfl := Except.ok.inj hstore
        rw [set_eq_write]
        refine h.push (fun _ => hlt) ?_
        have hfits : (stored ++ [payload]).length ≤ b.capacity := by
          rw [List.length_append, List.length_singleton]
          omega
        simp only [accepted, hpolicy]
        rw [List.take_of_length_le hfits, List.take_of_length_le (by omega)]
      next hfull =>
        -- the payload is dropped
        obtain rfl := Except.ok.inj hstore
        have hsame : accepted b (stored ++ [payload]) = accepted b stored := by
          simp only [accepted, hpolicy]
          exact List.take_append_of_le_length (by omega)
        exact ⟨hsame ▸ h.index, hsame ▸ h.slots, hsame ▸ h.fits⟩
  | abortIfFull =>
      simp only [hpolicy] at hstore
      split at hstore
      next hlt =>
        obtain rfl := Except.ok.inj hstore
        rw [set_eq_write]
        exact h.push (fun _ => hlt) (by simp [accepted, hpolicy])
      · cases hstore

theorem Recorded.foldlM {th th' : TraCRThread b} {stored payloads : List Payload}
    (h : Recorded th stored) (hrun : payloads.foldlM TraCRThread.storeTrace th = .ok th') :
    Recorded th' (stored ++ payloads) ∧ th'.tid = th.tid := by
  induction payloads generalizing th stored with
  | nil =>
      obtain rfl : th = th' := Except.ok.inj hrun
      rw [List.append_nil]
      exact ⟨h, rfl⟩
  | cons p payloads ih =>
      rw [List.foldlM_cons] at hrun
      cases hstore : th.storeTrace p with
      | error e => simp [hstore, bind, Except.bind] at hrun
      | ok next =>
          rw [hstore] at hrun
          obtain ⟨hrecorded, htid⟩ := ih (h.storeTrace hstore) hrun
          rw [List.append_assoc] at hrecorded
          exact ⟨hrecorded, htid.trans (storeTrace_tid hstore)⟩

/-- A flush writes the payloads the policy keeps. -/
theorem Recorded.written_eq {th : TraCRThread b} {stored : List Payload}
    (h : Recorded th stored) : th.written = kept b stored := by
  obtain ⟨hindex, hslots, hfits⟩ := h
  cases hpolicy : b.policy with
  | periodic =>
      simp only [accepted, hpolicy] at hindex hslots
      simp only [written, kept, hpolicy, hindex]
      split
      · exact hslots.rotate_eq b.capacity_pos (by omega)
      · rw [hslots.take_eq (by omega), Nat.sub_eq_zero_of_le (by omega), List.drop_zero]
  | ignoreIfFull =>
      have hle := hfits (by simp [hpolicy])
      simp only [accepted, hpolicy] at hindex hslots hle
      simp only [written, kept, hpolicy, hindex]
      exact hslots.take_eq hle
  | abortIfFull =>
      have hle := hfits (by simp [hpolicy])
      simp only [accepted, hpolicy] at hindex hslots hle
      simp only [written, kept, hpolicy, hindex]
      exact hslots.take_eq hle

theorem Recorded.traceIdx_eq_zero_iff {th : TraCRThread b} {stored : List Payload}
    (h : Recorded th stored) : th.traceIdx = 0 ↔ stored = [] := by
  have hcap := b.capacity_pos
  rw [h.index, List.length_eq_zero_iff]
  cases hpolicy : b.policy with
  | periodic => simp [accepted, hpolicy]
  | ignoreIfFull =>
      simp only [accepted, hpolicy, List.take_eq_nil_iff]
      constructor
      · rintro (hzero | hnil)
        · omega
        · exact hnil
      · exact Or.inr
  | abortIfFull => simp [accepted, hpolicy]

theorem Recorded.written_eq_nil {th : TraCRThread b} {stored : List Payload}
    (h : Recorded th stored) (hzero : th.traceIdx = 0) : th.written = [] := by
  obtain rfl := h.traceIdx_eq_zero_iff.mp hzero
  rw [h.written_eq]
  unfold kept
  cases b.policy <;> simp

theorem Recorded.written_storeTrace {th th' : TraCRThread b} {stored : List Payload}
    {payload : Payload} (h : Recorded th stored) (hroom : th.traceIdx < b.capacity)
    (hstore : th.storeTrace payload = .ok th') : th'.written = th.written ++ [payload] := by
  rw [(h.storeTrace hstore).written_eq, h.written_eq]
  rw [h.index] at hroom
  cases hpolicy : b.policy with
  | periodic =>
      simp only [accepted, hpolicy] at hroom
      simp only [kept, hpolicy, List.length_append, List.length_singleton]
      rw [Nat.sub_eq_zero_of_le (by omega), Nat.sub_eq_zero_of_le (by omega)]
      rfl
  | ignoreIfFull =>
      simp only [accepted, hpolicy, List.length_take] at hroom
      have hnext : (stored ++ [payload]).length ≤ b.capacity := by
        rw [List.length_append, List.length_singleton]
        omega
      simp only [kept, hpolicy]
      rw [List.take_of_length_le hnext, List.take_of_length_le (by omega)]
  | abortIfFull => simp only [kept, hpolicy]

end TraCRThread

end TraCR
