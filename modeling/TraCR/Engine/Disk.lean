import Mathlib.Data.List.AList
import TraCR.Engine.Json

/-!
# The output directory and how the library stops

The folders the library writes, the ways a file operation may fail, and the ways
a call of the library ends other than by returning.
-/

namespace TraCR

/-- A finite map: `std::unordered_map`, `std::map`, a directory. -/
abbrev Table (κ α : Type) := AList fun _ : κ => α

/-- A process or kernel thread id (`pid_t`): a positive `int`. -/
abbrev Pid := { n : Nat // 0 < n ∧ n < 2 ^ 31 }

instance : ToString Pid := ⟨fun pid => toString pid.val⟩

/-- `_proc_folder_name`: the shared output directory and the folder of the proc
in it. -/
structure ProcPath where
  base : String
  folder : String
deriving DecidableEq, Repr

/-- A proc folder: `metadata.json` and the `traces.bts` of each thread folder. -/
structure ProcDir where
  metadata : Option Json
  threads : Table String (List UInt8)

abbrev Disk := Table ProcPath ProcDir

/-- What there is when a call has returned or stopped: the proc folders, and the thread
folder that was made and has no `traces.bts` yet. -/
structure Leftover where
  disk : Disk
  bare : Option (ProcPath × String)

/-- The file operation that fails during a call, if any, with the bytes that a failed write
or close has got into the file. -/
inductive Fault where
  | none
  | mkdir
  | openTraces
  | writeTraces (bytes : Nat)
  | closeTraces (bytes : Nat)
  | openMetadata
deriving DecidableEq, Repr

/-- The checked error exits of the library (`std::exit(EXIT_FAILURE)`). -/
inductive Exit where
  | threadAlreadyExists (tid : Pid)
  | threadDoesNotExist
  | procAlreadyInitialized (tid : Pid)
  | folderCreationFailed (path : String)
  | procNotInitialized
  | threadNotInitialized
  | otherThreadsRunning (count : Int)
  | markersExhausted
  | colorAlreadyUsed
  | bufferFull (tid : Pid)
  | mkdirFailed (path : String)
  | openFailed (path : String)
  | writeFailed (path : String)
  | closeFailed (path : String)
  | openMetadataFailed (path : String)
deriving DecidableEq, Repr

/-- How a call ends when it does not return: a checked exit, or a null
`tracrProc` or `tracrThread` dereferenced without a check. -/
inductive Stop where
  | exit (reason : Exit)
  | nullProc
  | nullThread
deriving DecidableEq, Repr

end TraCR
