import TraCR.Lib.Decimal
import TraCR.Engine.Disk
import TraCR.Postprocess.Merger

/-!
# Loading a trace folder

What `tracr_process` reads from `tracr/`: the proc folders, their
`metadata.json` and the `traces.bts` of their thread folders.  A directory is
the list of its entries in the order the directory iterator yields them.
-/

namespace TraCR

open TraCR.Lib TraCR.Lib.SortedList

/-- A file that may be missing or may fail to open. -/
inductive File (α : Type) where
  | missing
  | unreadable
  | contents (data : α)

structure ThreadEntry where
  name : String
  isDirectory : Bool
  tracesBts : File (List UInt8)

/-- An entry of the trace folder.  `none` in the metadata file is text that is
not JSON. -/
structure ProcEntry where
  name : String
  isDirectory : Bool
  metadata : File (Option Json)
  threads : List ThreadEntry

/-- How the postprocessor ends other than by returning 0. -/
inductive Failure where
  | noProcFolder
  | invalidPid (folder : String)
  | noMetadata
  | openMetadata
  | parseMetadata
  | noTraceFile (folder : String)
  | loadBts (folder : String)
  | invalidTid (folder : String)
  | channelOutOfBounds (channelId : UInt16)
  | copyStateCfg
  | openParaver (file : String)
  | openPerfetto
  /-- An `nlohmann::json` type error nobody catches. -/
  | jsonType
  /-- A `std::vector` read past its end, which is undefined. -/
  | indexOutOfRange
deriving DecidableEq, Repr

structure ProcData where
  pid : Int
  metadata : Json
  btsFiles : List (List Payload)
  btsTids : List Int
  syncStart : UInt64
  syncEnd : UInt64

def startsWith (name head : String) : Bool :=
  head.toList.isPrefixOf name.toList

/-- `folder_name.substr(folder_name.find('.') + 1)`. -/
def afterDot (name : String) : List Char :=
  (name.toList.dropWhile fun c => c ≠ '.').drop 1

/-- Read the whole records of a `traces.bts`; `none` is the return value `false`. -/
def loadBtsFile (file : File (List UInt8)) : Option (List Payload) :=
  match file with
  | .contents bytes => some (readPayloads bytes)
  | _ => none

/-- One round of the loop of `load_thread_traces`; `none` if the entry is skipped. -/
def loadThreadFolder (entry : ThreadEntry) :
    Except Failure (Option (List Payload × Int)) :=
  if !entry.isDirectory || !startsWith entry.name "thread." then .ok none
  else
    match entry.tracesBts with
    | .missing => .error (.noTraceFile entry.name)
    | .unreadable => .error (.loadBts entry.name)
    | .contents bytes =>
        match Decimal.stoi (afterDot entry.name) with
        | none => .error (.invalidTid entry.name)
        | some tid => .ok (some (readPayloads bytes, tid))

def loadThreadTraces (entries : List ThreadEntry) :
    Except Failure (List (List Payload) × List Int) := do
  let loaded ← entries.mapM loadThreadFolder
  return (loaded.reduceOption.map Prod.fst, loaded.reduceOption.map Prod.snd)

def loadMetadataJson (file : File (Option Json)) : Except Failure Json :=
  match file with
  | .missing => .error .noMetadata
  | .unreadable => .error .openMetadata
  | .contents none => .error .parseMetadata
  | .contents (some metadata) => .ok metadata

def fileAnchors (files : List (List Payload)) : UInt64 × UInt64 :=
  files.foldl (fun anchors traces =>
    match traces.head?, traces.getLast? with
    | some front, some back =>
        (min anchors.1 front.timestamp, max anchors.2 back.timestamp)
    | _, _ => anchors) (uint64Max, 0)

/-- An optional anchor of the metadata, combined with the one of the files. -/
def metadataAnchor (metadata : Json) (key : String) (combine : UInt64 → UInt64 → UInt64)
    (anchor : UInt64) : Except Failure UInt64 :=
  match metadata.field? key with
  | none => .ok anchor
  | some j =>
      match j.asNumber? with
      | none => .error .jsonType
      | some n => .ok (combine (castUInt64 n) anchor)

def extractSyncAnchors (proc : ProcData) : Except Failure ProcData := do
  let anchors := fileAnchors proc.btsFiles
  let first ← metadataAnchor proc.metadata "start_time" min anchors.1
  let last ← metadataAnchor proc.metadata "end_time" max anchors.2
  return { proc with
    syncStart := if first = uint64Max then 0 else first
    syncEnd := last }

/-- One round of the loop of `extract_bts_metadata`; `none` if the entry is skipped. -/
def loadProcFolder (entry : ProcEntry) : Except Failure (Option ProcData) :=
  if !entry.isDirectory || !startsWith entry.name "proc." then .ok none
  else
    match Decimal.stoi (afterDot entry.name) with
    | none => .error (.invalidPid entry.name)
    | some pid => do
        let metadata ← loadMetadataJson entry.metadata
        let (btsFiles, btsTids) ← loadThreadTraces entry.threads
        let proc ← extractSyncAnchors
          { pid, metadata, btsFiles, btsTids, syncStart := 0, syncEnd := 0 }
        return some proc

/-- The procs of a trace folder, sorted by pid with `std::sort`. -/
def extractBtsMetadata (sorter : Sorter ProcData.pid) (entries : List ProcEntry) :
    Except Failure (List ProcData) := do
  let loaded ← entries.mapM loadProcFolder
  let procs := loaded.reduceOption
  if procs = [] then .error .noProcFolder else .ok (sorter.sort procs)

end TraCR
