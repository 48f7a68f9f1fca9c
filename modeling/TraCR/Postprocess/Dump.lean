import Mathlib.Data.Finset.Sort
import TraCR.Lib.Run
import TraCR.Lib.Tally
import TraCR.Postprocess.Load

/-!
# The dump

`dump_info` of `tracr_process.cpp`: the payloads of every proc in merged order and
three summaries.  What goes to the terminal is kept as data, in output order.
-/

namespace TraCR

open TraCR.Lib.SortedList TraCR.Lib.Tally

/-- What `dump_info` does not define. -/
inductive DumpFailure where
  /-- An `int32_t` counter leaves its range. -/
  | counterOverflow
  /-- A `std::vector` read past its end. -/
  | indexOutOfRange
deriving DecidableEq, Repr

inductive DumpLine where
  | event (tid : Int) (channelId eventId : UInt16) (extraId : UInt32) (timestamp : UInt64)
  | flow (tid : Int) (channelId : UInt16) (isStart : Bool) (extraId : UInt32)
      (timestamp : UInt64)
deriving DecidableEq, Repr

structure DumpState where
  channelIdsCheck : Table UInt16 Int
  extraIdsCheck : Table UInt16 (Finset UInt32)
  eventCounts : Table UInt16 UInt64

structure DumpReport where
  pid : Int
  syncStart : UInt64
  syncEnd : UInt64
  duration : UInt64
  lines : List DumpLine
  /-- Channels that do not follow the push/pop methodology, with their counts. -/
  channels : List (UInt16 × Int)
  /-- The same for the extra ids. -/
  extraIds : List (UInt16 × List UInt32)
  eventCounts : List (UInt16 × UInt64)

/-- What the standard library leaves open: the heap and the orders of iteration over
unordered maps and sets. -/
structure DumpChoices where
  heapTop : HeapTop
  iterate {α : Type} : Table UInt16 α → List UInt16
  iterate_perm {α : Type} : ∀ t : Table UInt16 α, (iterate t).Perm t.keys
  iterateSet : Finset UInt32 → List UInt32
  iterateSet_perm : ∀ s, (iterateSet s).Perm (s.sort (· ≤ ·))

def DumpChoices.first : DumpChoices where
  heapTop := .first
  iterate t := t.keys
  iterate_perm _ := .refl _
  iterateSet s := s.sort (· ≤ ·)
  iterateSet_perm _ := .refl _

/-- `--counter` for a reset and `++counter` otherwise, on an `int32_t`. -/
def countPayload (counter : Int) (payload : Payload) : Except DumpFailure Int :=
  let next := if payload.isReset then counter - 1 else counter + 1
  if -2 ^ 31 ≤ next ∧ next < 2 ^ 31 then .ok next else .error .counterOverflow

/-- One round of the payload loop; `x.2` is the index of the file. -/
def dumpPayload (btsTids : List Int) (st : DumpState) (x : Payload × Nat) :
    Except DumpFailure (DumpLine × DumpState) :=
  let payload := x.1
  let eventCounts := st.eventCounts.insert payload.eventId
    ((st.eventCounts.lookup payload.eventId).getD 0 + 1)
  match btsTids[x.2]? with
  | none => .error .indexOutOfRange
  | some tid =>
      if payload.isFlow then
        .ok (.flow tid payload.channelId (payload.eventId = eventIdFlowStart) payload.extraId
          payload.timestamp, { st with eventCounts })
      else
        match countPayload ((st.channelIdsCheck.lookup payload.channelId).getD 0) payload with
        | .error e => .error e
        | .ok counter =>
            let innerSet := (st.extraIdsCheck.lookup payload.channelId).getD ∅
            .ok (.event tid payload.channelId payload.eventId payload.extraId
              payload.timestamp,
              { channelIdsCheck := st.channelIdsCheck.insert payload.channelId counter
                extraIdsCheck := st.extraIdsCheck.insert payload.channelId
                  (toggle innerSet payload.extraId)
                eventCounts })

def unbalancedChannels (ch : DumpChoices) (check : Table UInt16 Int) : List (UInt16 × Int) :=
  (ch.iterate check).filterMap fun channelId =>
    match check.lookup channelId with
    | none => none
    | some value => if value ≠ 0 then some (channelId, value) else none

def unbalancedExtraIds (ch : DumpChoices) (check : Table UInt16 (Finset UInt32)) :
    List (UInt16 × List UInt32) :=
  (ch.iterate check).filterMap fun channelId =>
    match check.lookup channelId with
    | none => none
    | some innerSet =>
        if 0 < innerSet.card then some (channelId, ch.iterateSet innerSet) else none

def eventHistogram (eventCounts : Table UInt16 UInt64) : List (UInt16 × UInt64) :=
  (stableSort UInt16.toNat eventCounts.keys).filterMap fun eventId =>
    (eventCounts.lookup eventId).map (Prod.mk eventId)

/-- The round of the outer loop for one proc. -/
def dumpProc (ch : DumpChoices) (proc : ProcData) : Except DumpFailure DumpReport := do
  let (lines, st) ← Lib.Run.exec (dumpPayload proc.btsTids) ⟨∅, ∅, ∅⟩
    (mergedStream ch.heapTop proc.btsFiles)
  return {
    pid := proc.pid
    syncStart := proc.syncStart
    syncEnd := proc.syncEnd
    duration := proc.syncEnd - proc.syncStart
    lines
    channels := unbalancedChannels ch st.channelIdsCheck
    extraIds := unbalancedExtraIds ch st.extraIdsCheck
    eventCounts := eventHistogram st.eventCounts }

def dumpInfo (ch : DumpChoices) (procs : List ProcData) :
    Except DumpFailure (List DumpReport) :=
  procs.mapM (dumpProc ch)

end TraCR
