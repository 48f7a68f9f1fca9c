import TraCR.Lib.Run
import TraCR.Engine.Thread
import TraCR.Engine.Proc

/-!
# The library calls

The globals of `tracr_core.hpp` and its `instrumentation_*` functions, each call
atomic.  An operating-system thread is a number; `tracrThread` is thread-local,
so the globals hold one buffer per thread that has one.  The clock is a sequence
of readings and `reads` counts how many have been taken, over all threads.
-/

namespace TraCR

abbrev OsThread := Nat

/-- What the library reads from its surroundings. -/
structure Platform where
  /-- The successive values of `NanoTimer::now()`. -/
  clock : Nat → UInt64
  /-- `syscall(SYS_gettid)` of each thread. -/
  gettid : OsThread → Pid
  getpid : Pid
  /-- What the memory of a new buffer holds. -/
  memory : Nat → Payload

/-- The globals of the library and the files it has written. -/
structure World (b : Build) where
  tracrProc : Option TraCRProc
  tracrThread : Table OsThread (TraCRThread b)
  enableTracr : Bool
  tracrProcInit : Bool
  numTracrThreads : Int
  lazyColorId : UInt16
  traceFolderPath : String
  disk : Disk
  reads : Nat

namespace World

variable {b : Build}

def initial (b : Build) : World b where
  tracrProc := none
  tracrThread := ∅
  enableTracr := true
  tracrProcInit := false
  numTracrThreads := 0
  lazyColorId := 23
  traceFolderPath := ""
  disk := ∅
  reads := 0

variable (pf : Platform) (w : World b) (t : OsThread)

def instrumentationThreadInit : Except Stop (World b) :=
  match w.tracrThread.lookup t with
  | some th => .error (.exit (.threadAlreadyExists th.tid))
  | none =>
      .ok { w with
        tracrThread := w.tracrThread.insert t
          (TraCRThread.create b pf.memory (pf.gettid t))
        numTracrThreads := w.numTracrThreads + 1 }

def flushThread (th : TraCRThread b) (fault : Fault) : Except Stop Disk :=
  if b.disableFlush then .ok w.disk
  else
    match w.tracrProc with
    | none => .error .nullProc
    | some proc => th.flushTraces w.disk proc.getFolderPath fault

def instrumentationThreadFinalize (fault : Fault) : Except Stop (World b) :=
  match w.tracrThread.lookup t with
  | none => .error (.exit .threadDoesNotExist)
  | some th =>
      match w.flushThread th fault with
      | .error e => .error e
      | .ok disk =>
          .ok { w with
            disk := disk
            tracrThread := w.tracrThread.erase t
            numTracrThreads := w.numTracrThreads - 1 }

def createFolders (proc : TraCRProc) (fault : Fault) : Except Stop (TraCRProc × Disk) :=
  if b.disableFlush then .ok (proc, w.disk)
  else
    match proc.createFolderRecursive w.traceFolderPath w.disk fault with
    | none => .error (.exit (.folderCreationFailed w.traceFolderPath))
    | some made => .ok made

def instrumentationStart (fault : Fault) : Except Stop (World b) :=
  match w.tracrProc with
  | some proc => .error (.exit (.procAlreadyInitialized proc.tid))
  | none =>
      let proc := TraCRProc.create (pf.clock w.reads) (pf.gettid t) pf.getpid
      match w.createFolders proc fault with
      | .error e => .error e
      | .ok (proc, disk) =>
          let w := { w with
            tracrProc := some proc, disk := disk, reads := w.reads + 1 }
          match w.instrumentationThreadInit pf t with
          | .error e => .error e
          | .ok w => .ok { w with tracrProcInit := true }

/-- The flush-enabled part of `instrumentation_end`: only one thread may be left;
its traces and the metadata are written. -/
def flushProc (proc : TraCRProc) (th : TraCRThread b) (fault : Fault) :
    Except Stop (World b) :=
  if b.disableFlush then .ok w
  else if w.numTracrThreads ≠ 1 then
    .error (.exit (.otherThreadsRunning w.numTracrThreads))
  else
    match th.flushTraces w.disk proc.getFolderPath fault with
    | .error e => .error e
    | .ok disk =>
        match proc.dumpJSON pf.clock w.reads disk fault with
        | .error e => .error e
        | .ok (_, reads, disk) => .ok { w with disk := disk, reads := reads }

def instrumentationEnd (fault : Fault) : Except Stop (World b) :=
  match w.tracrProc with
  | none => .error (.exit .procNotInitialized)
  | some proc =>
      match w.tracrThread.lookup t with
      | none => .error (.exit .threadNotInitialized)
      | some th =>
          match w.flushProc pf proc th fault with
          | .error e => .error e
          | .ok w =>
              .ok { w with
                tracrThread := w.tracrThread.erase t
                numTracrThreads := w.numTracrThreads - 1
                tracrProc := none
                tracrProcInit := false }

/-! ## Markers -/

def instrumentationMarkWColorAdd (label : String) (colorId : UInt16) :
    Except Stop (UInt16 × World b) :=
  match w.tracrProc with
  | none => .error .nullProc
  | some proc =>
      if eventIdReservedMin.toNat ≤ proc.markerLabels.length then
        .error (.exit .markersExhausted)
      else if (proc.markerTypes.lookup colorId).isSome then
        .error (.exit .colorAlreadyUsed)
      else
        let proc := { proc with
          markerTypes := proc.markerTypes.insert colorId label
          markerLabels := proc.markerLabels ++ [label]
          markerColorIds := proc.markerColorIds ++ [colorId] }
        .ok (.ofNat (proc.markerLabels.length - 1), { w with tracrProc := some proc })

def instrumentationMarkAdd (label : String) : Except Stop (UInt16 × World b) :=
  match w.tracrProc with
  | none => .error .nullProc
  | some proc =>
      if eventIdReservedMin.toNat ≤ proc.markerLabels.length then
        .error (.exit .markersExhausted)
      else
        -- `lazy_colorId.fetch_add(1)`
        let colorId := w.lazyColorId
        let w := { w with lazyColorId := w.lazyColorId + 1 }
        if (proc.markerTypes.lookup colorId).isSome then
          .error (.exit .colorAlreadyUsed)
        else
          let proc := { proc with
            markerTypes := proc.markerTypes.insert colorId label
            markerLabels := proc.markerLabels ++ [label]
            markerColorIds := proc.markerColorIds ++ [colorId] }
          .ok (.ofNat (proc.markerLabels.length - 1), { w with tracrProc := some proc })

/-! ## Recording

The four recording calls build a payload with the current time and store it. -/

/-- The payload stored, if tracing is switched on, and the world after it. -/
def record (channelId eventId : UInt16) (extraId : UInt32) :
    Except Stop (Option Payload × World b) :=
  if !w.enableTracr then .ok (none, w)
  else
    let payload : Payload := ⟨channelId, eventId, extraId, pf.clock w.reads⟩
    match w.tracrThread.lookup t with
    | none => .error .nullThread
    | some th =>
        match th.storeTrace payload with
        | .error e => .error e
        | .ok th =>
            .ok (some payload, { w with
              tracrThread := w.tracrThread.insert t th
              reads := w.reads + 1 })

def instrumentationMarkSet (channelId eventId : UInt16) (extraId : UInt32) :=
  w.record pf t channelId eventId extraId

def instrumentationMarkReset (channelId : UInt16) :=
  w.record pf t channelId eventIdReset uint32Max

def instrumentationFlowStart (channelId : UInt16) (flowId : UInt32) :=
  w.record pf t channelId eventIdFlowStart flowId

def instrumentationFlowEnd (channelId : UInt16) (flowId : UInt32) :=
  w.record pf t channelId eventIdFlowEnd flowId

/-! ## Channel metadata and the metadata snapshot -/

/-- `tracrProc->f(...)` of a macro that does not check `tracrProc`. -/
def updateProc (f : TraCRProc → TraCRProc) : Except Stop (World b) :=
  match w.tracrProc with
  | none => .error .nullProc
  | some proc => .ok { w with tracrProc := some (f proc) }

def instrumentationGetJsonStr : Except Stop (Json × World b) :=
  match w.tracrProc with
  | none => .error .nullProc
  | some proc =>
      let proc := proc.writeJSON (pf.clock w.reads)
      .ok (.object proc.jsonFile,
        { w with tracrProc := some proc, reads := w.reads + 1 })

end World

/-! ## Calls as data -/

inductive Call where
  | start
  | stop
  | threadInit
  | threadFinalize
  | markWColorAdd (label : String) (colorId : UInt16)
  | markAdd (label : String)
  | markSet (channelId eventId : UInt16) (extraId : UInt32)
  | markReset (channelId : UInt16)
  | flowStart (channelId : UInt16) (flowId : UInt32)
  | flowEnd (channelId : UInt16) (flowId : UInt32)
  | addCustomChannelNames (channelNames : Json)
  | addNumberOfChannels (numChannels : UInt16)
  | getJsonStr
  | on
  | off
  | tracePath (path : String)

structure Action where
  thread : OsThread
  call : Call
  fault : Fault := .none

/-- What a call lets out: its return value, or the payload it stored. -/
inductive Obs where
  | nothing
  | eventId (id : UInt16)
  | stored (payload : Payload)
  | document (json : Json)

def Obs.ofRecord : Option Payload → Obs
  | none => .nothing
  | some payload => .stored payload

variable {b : Build}

def step (pf : Platform) (w : World b) (a : Action) : Except Stop (Obs × World b) :=
  let silent := Except.map (Prod.mk Obs.nothing)
  let recorded := Except.map (Prod.map Obs.ofRecord id)
  match a.call with
  | .start => silent (w.instrumentationStart pf a.thread a.fault)
  | .stop => silent (w.instrumentationEnd pf a.thread a.fault)
  | .threadInit => silent (w.instrumentationThreadInit pf a.thread)
  | .threadFinalize => silent (w.instrumentationThreadFinalize a.thread a.fault)
  | .markWColorAdd label colorId =>
      (w.instrumentationMarkWColorAdd label colorId).map (Prod.map Obs.eventId id)
  | .markAdd label => (w.instrumentationMarkAdd label).map (Prod.map Obs.eventId id)
  | .markSet channelId eventId extraId =>
      recorded (w.instrumentationMarkSet pf a.thread channelId eventId extraId)
  | .markReset channelId =>
      recorded (w.instrumentationMarkReset pf a.thread channelId)
  | .flowStart channelId flowId =>
      recorded (w.instrumentationFlowStart pf a.thread channelId flowId)
  | .flowEnd channelId flowId =>
      recorded (w.instrumentationFlowEnd pf a.thread channelId flowId)
  | .addCustomChannelNames names =>
      silent (w.updateProc fun proc => proc.addCustomChannelNames names)
  | .addNumberOfChannels n =>
      silent (w.updateProc fun proc => proc.addNumberOfChannels n)
  | .getJsonStr => w.instrumentationGetJsonStr pf |>.map (Prod.map Obs.document id)
  | .on => .ok (.nothing, { w with enableTracr := true })
  | .off => .ok (.nothing, { w with enableTracr := false })
  | .tracePath path => .ok (.nothing, { w with traceFolderPath := path })

def run (pf : Platform) (w : World b) (actions : List Action) :
    Except Stop (List Obs × World b) :=
  Lib.Run.exec (step pf) w actions

/-- The payloads stored during a run, each with the thread that stored it. -/
def storedLog (trace : List (Action × Obs)) : List (OsThread × Payload) :=
  trace.filterMap fun x =>
    match x.2 with
    | .stored payload => some (x.1.thread, payload)
    | _ => none

/-! ## A small instance -/

/-- A clock that ticks at each of its first hundred readings.  The first thread of the
process has a kernel thread id of its own; the others follow each other under one. -/
def tickingPlatform : Platform where
  clock n := .ofNat (min n 100)
  gettid t := if t = 0 then ⟨7, by decide⟩ else ⟨8, by decide⟩
  getpid := ⟨3, by decide⟩
  memory _ := ⟨0, 0, 0, 0⟩

def eightPayloads : Build := ⟨8, by decide, .abortIfFull, false⟩

def callsBy (t : OsThread) (calls : List Call) : List Action :=
  calls.map fun call => ⟨t, call, .none⟩

end TraCR
