import TraCR.Lib.Run
import TraCR.Postprocess.Load

/-!
# The Perfetto export

`perfetto` of `tracr_process.cpp`.  The exporter streams events to the file; the
model keeps them as data, in file order.
-/

namespace TraCR

/-- A complete event (`ph=X`). -/
structure Slice where
  name : String
  ts : UInt64
  dur : UInt64
  pid : Int
  tid : Nat
  extraId : Option UInt32
  extraLabel : Option String
deriving DecidableEq, Repr

/-- One end of a flow arrow (`ph=s` or `ph=f`). -/
structure Flow where
  isStart : Bool
  id : UInt32
  ts : UInt64
  pid : Int
  tid : Nat
deriving DecidableEq, Repr

inductive TraceEvent where
  | processName (pid : Int) (name : String)
  | processSortIndex (pid : Int) (sortIndex : Nat)
  | threadName (pid : Int) (tid : Nat) (name : String)
  | flow (flow : Flow)
  | slice (slice : Slice)
deriving DecidableEq, Repr

def TraceEvent.slice? : TraceEvent → Option Slice
  | .slice s => some s
  | _ => none

def TraceEvent.flow? : TraceEvent → Option Flow
  | .flow f => some f
  | _ => none

structure PerfettoTables where
  pid : Int
  numChannels : UInt32
  channelsJson : Option Json
  markerLabels : List String
  extraIdLabels : Option Json
  syncStart : UInt64

/-- `std::string(json)`: any other type throws. -/
def getString (j : Json) : Except Failure String :=
  match j.asString? with
  | none => .error .jsonType
  | some s => .ok s

/-- The channel count in `uint32_t` arithmetic. -/
def perfettoNumChannels (metadata : Json) : Except Failure UInt32 :=
  match metadata.field? "channel_names" with
  | some channels => .ok (castUInt32 channels.size)
  | none =>
      match metadata.field? "num_channels" with
      | none => .ok 1
      | some j =>
          match j.asArithmetic? with
          | none => .error .jsonType
          | some n => .ok (castUInt32 n)

/-- The labels indexed by event id: `markerLabels`, or the values of the legacy
`markerTypes`. -/
def perfettoMarkerLabels (metadata : Json) : Except Failure (List String) :=
  match metadata.field? "markerLabels" with
  | some labels => labels.elements.mapM getString
  | none =>
      match metadata.field? "markerTypes" with
      | some types => (types.items.map Prod.snd).mapM getString
      | none => .ok []

/-- Folders whose name gave no pid show up as pid 0. -/
def perfettoPid (pid : Int) : Int := if pid = -1 then 0 else pid

def perfettoTables (proc : ProcData) : Except Failure PerfettoTables := do
  let numChannels ← perfettoNumChannels proc.metadata
  let markerLabels ← perfettoMarkerLabels proc.metadata
  return {
    pid := perfettoPid proc.pid
    numChannels
    channelsJson := proc.metadata.field? "channel_names"
    markerLabels
    extraIdLabels := proc.metadata.field? "extraIdLabels"
    syncStart := proc.syncStart }

/-- The name of channel `i`; indexing anything but an array throws. -/
def perfettoChannelName (channelsJson : Option Json) (i : Nat) : Except Failure String :=
  match channelsJson with
  | none => .ok s!"Channel_{i + 1}"
  | some (.array names) => getString (names.getD i .null)
  | some _ => .error .jsonType

def metadataEvents (tables : PerfettoTables) (p : Nat) : Except Failure (List TraceEvent) := do
  let threads ← (List.range tables.numChannels.toNat).mapM fun i => do
    let name ← perfettoChannelName tables.channelsJson i
    return TraceEvent.threadName tables.pid (i + 1) name
  return .processName tables.pid s!"TraCR proc.{tables.pid}" ::
    .processSortIndex tables.pid p :: threads

/-- `markerLabels[eventId]`, or the number itself when there are no labels. -/
def markerName (markerLabels : List String) (eventId : UInt16) : Except Failure String :=
  if markerLabels = [] then .ok (toString eventId.toNat)
  else
    match markerLabels[eventId.toNat]? with
    | none => .error .indexOutOfRange
    | some label => .ok label

def extraLabel (extraIdLabels : Option Json) (extraId : UInt32) :
    Except Failure (Option String) :=
  if extraId = uint32Max then .ok none
  else
    match extraIdLabels.bind fun labels => labels.member? (toString extraId.toNat) with
    | none => .ok none
    | some j => (getString j).map some

def closeSlice (tables : PerfettoTables) (prev payload : Payload) :
    Except Failure Slice := do
  let name ← markerName tables.markerLabels prev.eventId
  let label ← extraLabel tables.extraIdLabels prev.extraId
  return {
    name
    ts := prev.timestamp - tables.syncStart
    dur := payload.timestamp - prev.timestamp
    pid := tables.pid
    tid := prev.channelId.toNat + 1
    extraId := if prev.extraId = uint32Max then none else some prev.extraId
    extraLabel := label }

def flowEvent (tables : PerfettoTables) (payload : Payload) : Flow where
  isStart := payload.eventId = eventIdFlowStart
  id := payload.extraId
  ts := payload.timestamp - tables.syncStart
  pid := tables.pid
  tid := payload.channelId.toNat + 1

abbrev PrevPayloads (tables : PerfettoTables) := Vector Payload tables.numChannels.toNat

def initialPrevPayloads (tables : PerfettoTables) : PrevPayloads tables :=
  Vector.replicate _ ⟨0, eventIdReset, uint32Max, 0⟩

def emitPayload (tables : PerfettoTables) (prevPayloads : PrevPayloads tables)
    (payload : Payload) : Except Failure (List TraceEvent × PrevPayloads tables) :=
  if h : payload.channelId.toNat < tables.numChannels.toNat then
    if payload.isFlow then .ok ([.flow (flowEvent tables payload)], prevPayloads)
    else
      let prev := prevPayloads[payload.channelId.toNat]
      let prevPayloads := prevPayloads.set payload.channelId.toNat payload
      if prev.isReset then .ok ([], prevPayloads)
      else
        match closeSlice tables prev payload with
        | .error e => .error e
        | .ok slice => .ok ([.slice slice], prevPayloads)
  else .error (.channelOutOfBounds payload.channelId)

def emitPayloads (tables : PerfettoTables) (payloads : List Payload) :
    Except Failure (List (List TraceEvent) × PrevPayloads tables) :=
  Lib.Run.exec (emitPayload tables) (initialPrevPayloads tables) payloads

/-- The threads `validate_last_events_for_perfetto` warns about: their last
payload that is not a flow payload is not a reset either. -/
def validateLastEvents (btsFiles : List (List Payload)) (btsTids : List Int) : List Int :=
  (btsFiles.zip btsTids).filterMap fun (traces, tid) =>
    match (traces.reverse.dropWhile Payload.isFlow).head? with
    | none => none
    | some payload => if payload.isReset then none else some tid

structure PerfettoFile where
  traceEvents : List TraceEvent
  warnings : List Int

/-- The round of the outer loop for the proc at position `p`. -/
def perfettoProc (q : HeapTop) (proc : ProcData) (p : Nat) : Except Failure PerfettoFile := do
  let tables ← perfettoTables proc
  let metadata ← metadataEvents tables p
  let (events, _) ← emitPayloads tables (mergedPayloads q proc.btsFiles)
  return {
    traceEvents := metadata ++ events.flatten
    warnings := validateLastEvents proc.btsFiles proc.btsTids }

structure OutputFolder where
  copiesStateCfg : Bool
  opens : String → Bool

def perfetto (q : HeapTop) (out : OutputFolder) (procs : List ProcData) :
    Except Failure PerfettoFile :=
  if !out.opens "perfetto.json" then .error .openPerfetto
  else do
    let files ← procs.zipIdx.mapM fun x => perfettoProc q x.1 x.2
    return {
      traceEvents := files.flatMap PerfettoFile.traceEvents
      warnings := files.flatMap PerfettoFile.warnings }

end TraCR
