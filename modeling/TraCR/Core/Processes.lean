import TraCR.Lib.Sharing
import TraCR.Core.Effects

/-!
# Processes that share an output directory

The processes of a job, such as the ranks of an MPI run, write below one trace path.  Each
has globals, a clock and a process id of its own; the files are common to all of them.
-/

namespace TraCR

/-- How a process has stopped, and the thread folder it has then left without a file. -/
structure Stopped where
  reason : Stop
  bare : Option (ProcPath × String)

/-- The globals of a process that runs, or how it has stopped. -/
abbrev Process (b : Build) := Except Stopped (World b)

variable {b : Build}

namespace World

variable (pf : Platform) (w : World b)

def flushThreadLeaves (th : TraCRThread b) (fault : Fault) : Leftover :=
  if b.disableFlush then ⟨w.disk, none⟩
  else
    match w.tracrProc with
    | none => ⟨w.disk, none⟩
    | some proc => th.flushLeaves w.disk proc.getFolderPath fault

/-- What START leaves, which may find a thread context after it has made the folders. -/
def startLeaves (t : OsThread) (fault : Fault) : Leftover :=
  match w.tracrProc with
  | some _ => ⟨w.disk, none⟩
  | none =>
      match w.createFolders (.create (pf.clock w.reads) (pf.gettid t) pf.getpid) fault with
      | .error _ => ⟨w.disk, none⟩
      | .ok (_, disk) => ⟨disk, none⟩

/-- What END leaves: the traces are written when `metadata.json` cannot be opened. -/
def flushProcLeaves (proc : TraCRProc) (th : TraCRThread b) (fault : Fault) : Leftover :=
  if b.disableFlush then ⟨w.disk, none⟩
  else if w.numTracrThreads ≠ 1 then ⟨w.disk, none⟩
  else
    match th.flushTraces w.disk proc.getFolderPath fault with
    | .error _ => th.flushLeaves w.disk proc.getFolderPath fault
    | .ok disk =>
        match proc.dumpJSON pf.clock w.reads disk fault with
        | .error _ => ⟨disk, none⟩
        | .ok (_, _, disk) => ⟨disk, none⟩

def leaves (a : Action) : Leftover :=
  match a.call with
  | .start => w.startLeaves pf a.thread a.fault
  | .threadFinalize =>
      match w.tracrThread.lookup a.thread with
      | none => ⟨w.disk, none⟩
      | some th => w.flushThreadLeaves th a.fault
  | .stop =>
      match w.tracrProc, w.tracrThread.lookup a.thread with
      | some proc, some th => w.flushProcLeaves pf proc th a.fault
      | _, _ => ⟨w.disk, none⟩
  | _ => ⟨w.disk, none⟩

def globals : World b := { w with disk := ∅ }

end World

/-- A call of a process.  One that has stopped makes no more calls. -/
def Process.call (pf : Platform) (process : Process b) (disk : Disk) (a : Action) :
    Option Obs × Process b × Disk :=
  match process with
  | .error e => (none, .error e, disk)
  | .ok w =>
      let w := { w with disk := disk }
      match step pf w a with
      | .error e => (none, .error ⟨e, (w.leaves pf a).bare⟩, (w.leaves pf a).disk)
      | .ok (o, w') => (some o, .ok w'.globals, w'.disk)

def procFolder (pf : Platform) : String := s!"proc.{pf.getpid}"

end TraCR
