import TraCR.Postprocess.Perfetto

/-!
# The Paraver export

`paraver` of `tracr_process.cpp` and what it calls.  Every proc becomes a task,
every channel a thread of its task; tasks and threads are counted from 1.  Task
numbers are positions in `procs`, far below the `uint32_t` bound.
-/

namespace TraCR

open TraCR.Lib.SortedList

/-! ## The files besides `tracr.prv` -/

/-- The fields of `markerTypes`.  Asking the iterator of anything but an object
for its key throws. -/
def markerTypesFields (metadata : Json) : Except Failure (List (String × Json)) :=
  match metadata.field? "markerTypes" with
  | none => .ok []
  | some (.object fields) => .ok fields
  | some (.array []) => .ok []
  | some _ => .error .jsonType

structure ColorConflict where
  key : String
  kept : Json
  other : Json

structure PcfFile where
  values : List (String × Json)
  conflicts : List ColorConflict

/-- `merged.emplace(key, value)`: the first label of a colour stays. -/
def PcfFile.emplace (pcf : PcfFile) (field : String × Json) : PcfFile :=
  match pcf.values.lookup field.1 with
  | none => { pcf with values := insertField field.1 field.2 pcf.values }
  | some kept =>
      if kept == field.2 then pcf
      else { pcf with conflicts := pcf.conflicts ++ [⟨field.1, kept, field.2⟩] }

def createTracrPcf (out : OutputFolder) (procs : List ProcData) :
    Except Failure PcfFile :=
  if !out.opens "tracr.pcf" then .error (.openParaver "tracr.pcf")
  else do
    let fields ← procs.mapM fun proc => markerTypesFields proc.metadata
    return fields.flatten.foldl PcfFile.emplace ⟨[], []⟩

/-- The channel count in `size_t` arithmetic, and the channel names if given. -/
def extractChannelInfo (metadata : Json) : Except Failure (Nat × List String) :=
  match metadata.field? "channel_names" with
  | some channels => do
      let names ← channels.elements.mapM getString
      return (channels.size, names)
  | none =>
      match metadata.field? "num_channels" with
      | none => .ok (1, [])
      | some j =>
          match j.asNumber? with
          | none => .error .jsonType
          | some n => .ok ((castUInt64 n).toNat, [])

def procRowNames (multiProc : Bool) (proc : ProcData) (numChannels : Nat)
    (channelNames : List String) : List String :=
  (List.range numChannels).map fun c =>
    let name := channelNames.getD c s!"Channel_{c}"
    if multiProc then s!"proc.{proc.pid}:{name}" else name

def createTracrRow (out : OutputFolder) (rowNames : List String) :
    Except Failure (List String) :=
  if !out.opens "tracr.row" then .error (.openParaver "tracr.row") else .ok rowNames

/-! ## Records -/

structure PrvRecord where
  timestamp : UInt64
  task : Nat
  thread : Nat
  colorId : String
deriving DecidableEq, Repr

structure FlowEndpoint where
  timestamp : UInt64
  task : Nat
  thread : Nat
deriving DecidableEq, Repr

structure CommRecord where
  send : FlowEndpoint
  recv : FlowEndpoint
  flowId : UInt32
deriving DecidableEq, Repr

def PrvRecord.time (r : PrvRecord) : Nat := r.timestamp.toNat

def FlowEndpoint.time (e : FlowEndpoint) : Nat := e.timestamp.toNat

def CommRecord.time (c : CommRecord) : Nat := c.send.time

abbrev FlowMap := Table UInt32 (List FlowEndpoint)

def FlowMap.push (flows : FlowMap) (flowId : UInt32) (endpoint : FlowEndpoint) : FlowMap :=
  flows.insert flowId ((flows.lookup flowId).getD [] ++ [endpoint])

inductive PrvLine where
  | event (record : PrvRecord)
  | comm (record : CommRecord)
deriving DecidableEq, Repr

/-- `tracr.prv`: total time and channel counts of the header, the lines after it,
and how many flow endpoints were dropped. -/
structure PrvFile where
  totalTime : UInt64
  taskChannels : List Nat
  lines : List PrvLine
  unmatched : Nat

/-- What the standard library leaves open: the heap, two unstable sorts and the
order of iteration over an unordered map. -/
structure ParaverChoices where
  heapTop : HeapTop
  sortEndpoints : Sorter FlowEndpoint.time
  sortComms : Sorter CommRecord.time
  iterate : FlowMap → List UInt32
  iterate_perm : ∀ flows : FlowMap, (iterate flows).Perm flows.keys

def ParaverChoices.first : ParaverChoices where
  heapTop := .first
  sortEndpoints := .stable _
  sortComms := .stable _
  iterate flows := flows.keys
  iterate_perm _ := .refl _

/-! ## The timeline -/

def globalT0 (procs : List ProcData) : UInt64 :=
  let t0 := procs.foldl (fun t0 proc =>
    proc.btsFiles.foldl (fun t0 traces =>
      match traces.head? with
      | none => t0
      | some front => min t0 (front.timestamp - proc.syncStart)) t0) uint64Max
  if t0 = uint64Max then 0 else t0

def totalTime (procs : List ProcData) (t0 : UInt64) : UInt64 :=
  let total := procs.foldl (fun total proc =>
    if proc.syncStart < proc.syncEnd then max total (proc.syncEnd - proc.syncStart)
    else total) 0
  if t0 < total then total - t0 else 0

/-! ## Records of a proc -/

/-- The event values indexed by event id: `markerColorIds`, or the keys of the
legacy `markerTypes`. -/
def extractMarkerColorIds (metadata : Json) : Except Failure (List String) :=
  match metadata.field? "markerColorIds" with
  | some ids => ids.elements.mapM fun id =>
      match id.asArithmetic? with
      | none => .error .jsonType
      | some n => .ok (toString (castUInt16 n).toNat)
  | none =>
      match metadata.field? "markerTypes" with
      | some types => .ok (types.items.map Prod.fst)
      | none => .ok []

def recordColorId (markerColorIds : List String) (eventId : UInt16) :
    Except Failure String :=
  if eventId = eventIdReset then .ok "0"
  else if markerColorIds = [] then .ok (toString eventId.toNat)
  else
    match markerColorIds[eventId.toNat]? with
    | none => .error .indexOutOfRange
    | some colorId => .ok colorId

/-- What the inner loop over the payloads of a proc reads but does not change. -/
structure PrvTask where
  task : Nat
  syncStart : UInt64
  globalT0 : UInt64
  markerColorIds : List String

def prvTask (t0 : UInt64) (proc : ProcData) (p : Nat) : Except Failure PrvTask := do
  let markerColorIds ← extractMarkerColorIds proc.metadata
  return { task := p + 1, syncStart := proc.syncStart, globalT0 := t0, markerColorIds }

structure PrvState where
  records : List PrvRecord
  flowStarts : FlowMap
  flowEnds : FlowMap

def PrvTask.normalize (task : PrvTask) (payload : Payload) : UInt64 :=
  payload.timestamp - task.syncStart - task.globalT0

def PrvTask.endpoint (task : PrvTask) (payload : Payload) : FlowEndpoint where
  timestamp := task.normalize payload
  task := task.task
  thread := payload.channelId.toNat + 1

def PrvTask.record (task : PrvTask) (colorId : String) (payload : Payload) : PrvRecord where
  timestamp := task.normalize payload
  task := task.task
  thread := payload.channelId.toNat + 1
  colorId := colorId

def prvPayload (task : PrvTask) (st : PrvState) (payload : Payload) :
    Except Failure PrvState :=
  if payload.eventId = eventIdFlowStart then
    .ok { st with flowStarts := st.flowStarts.push payload.extraId (task.endpoint payload) }
  else if payload.eventId = eventIdFlowEnd then
    .ok { st with flowEnds := st.flowEnds.push payload.extraId (task.endpoint payload) }
  else
    match recordColorId task.markerColorIds payload.eventId with
    | .error e => .error e
    | .ok colorId => .ok { st with records := st.records ++ [task.record colorId payload] }

/-- The round of the outer loop for the proc at position `p`. -/
def prvProc (q : HeapTop) (t0 : UInt64) (st : PrvState) (proc : ProcData) (p : Nat) :
    Except Failure PrvState := do
  let task ← prvTask t0 proc p
  (mergedPayloads q proc.btsFiles).foldlM (prvPayload task) st

/-! ## Communication records -/

/-- The communication records of one flow id and the endpoints left over. -/
def pairFlow (sorter : Sorter FlowEndpoint.time) (flowId : UInt32)
    (starts ends : List FlowEndpoint) : List CommRecord × Nat :=
  let comms := ((sorter.sort starts).zip (sorter.sort ends)).map fun x =>
    { send := x.1, recv := x.2, flowId }
  (comms, (ends.length - comms.length) + (starts.length - comms.length))

def pairFlows (ch : ParaverChoices) (flowStarts flowEnds : FlowMap) :
    List CommRecord × Nat :=
  let pairs := (ch.iterate flowStarts).map fun flowId =>
    pairFlow ch.sortEndpoints flowId ((flowStarts.lookup flowId).getD [])
      ((flowEnds.lookup flowId).getD [])
  let lone := (ch.iterate flowEnds).filter fun flowId => !(flowStarts.lookup flowId).isSome
  (pairs.flatMap Prod.fst, (pairs.map Prod.snd).sum +
    (lone.map fun flowId => ((flowEnds.lookup flowId).getD []).length).sum)

def interleave : List PrvRecord → List CommRecord → List PrvLine
  | [], comms => comms.map .comm
  | record :: records, comms =>
      (comms.takeWhile fun comm => comm.send.timestamp ≤ record.timestamp).map .comm ++
        .event record ::
          interleave records
            (comms.dropWhile fun comm => comm.send.timestamp ≤ record.timestamp)

def createTracrPrv (ch : ParaverChoices) (out : OutputFolder) (procs : List ProcData)
    (procChannels : List Nat) : Except Failure PrvFile :=
  if !out.opens "tracr.prv" then .error (.openParaver "tracr.prv")
  else do
    let t0 := globalT0 procs
    let st ← procs.zipIdx.foldlM (fun st x => prvProc ch.heapTop t0 st x.1 x.2) ⟨[], ∅, ∅⟩
    let records := stableSort PrvRecord.time st.records
    let (comms, unmatched) := pairFlows ch st.flowStarts st.flowEnds
    return {
      totalTime := totalTime procs t0
      taskChannels := procChannels
      lines := interleave records (ch.sortComms.sort comms)
      unmatched }

/-! ## The export -/

structure ParaverFiles where
  pcf : PcfFile
  prv : PrvFile
  row : List String

def paraver (ch : ParaverChoices) (out : OutputFolder) (procs : List ProcData) :
    Except Failure ParaverFiles :=
  if !out.copiesStateCfg then .error .copyStateCfg
  else do
    let pcf ← createTracrPcf out procs
    let channels ← procs.mapM fun proc => extractChannelInfo proc.metadata
    let rowNames := (procs.zip channels).flatMap fun x =>
      procRowNames (1 < procs.length) x.1 x.2.1 x.2.2
    let prv ← createTracrPrv ch out procs (channels.map Prod.fst)
    let row ← createTracrRow out rowNames
    return { pcf, prv, row }

end TraCR
