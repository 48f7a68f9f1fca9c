import TraCR.Nlohmann.Serializer
import TraCR.Postprocess.Paraver

/-!
# The text of the Paraver files

What `create_tracr_prv`, `create_tracr_row` and `create_tracr_pcf` of `tracr_process.cpp`
stream into `tracr.prv`, `tracr.row` and `tracr.pcf`.
-/

namespace TraCR

def streamLines {α : Type} (line : α → String) (out : String) (xs : List α) : String :=
  xs.foldl (fun out x => out ++ line x) out

/-! ## `tracr.prv` -/

/-- The fields of `std::tm` the header shows. -/
structure LocalTime where
  mday : Nat
  mon : Nat
  year : Nat
  hour : Nat
  min : Nat

def twoDigits (n : Nat) : String := String.ofList ((Nat.toDigits 10 n).leftpad 2 '0')

def taskListText : List Nat → String
  | [] => ""
  | [channels] => toString channels ++ ":1"
  | channels :: next :: rest => toString channels ++ ":1," ++ taskListText (next :: rest)

def dateText (now : LocalTime) : String :=
  twoDigits now.mday ++ "/" ++ twoDigits (now.mon + 1) ++ "/" ++
    twoDigits (now.year % 100) ++ " at " ++ twoDigits now.hour ++ ":" ++ twoDigits now.min

def prvHeaderText (now : LocalTime) (file : PrvFile) : String :=
  "#Paraver (" ++ dateText now ++ "):" ++ toString file.totalTime.toNat ++ "_ns:0:1:" ++
    toString file.taskChannels.length ++ "(" ++ taskListText file.taskChannels ++ ")\n"

def PrvRecord.text (r : PrvRecord) : String :=
  "2:0:1:" ++ toString r.task ++ ":" ++ toString r.thread ++ ":" ++
    toString r.timestamp.toNat ++ ":90:" ++ r.colorId ++ "\n"

def CommRecord.text (c : CommRecord) : String :=
  "3:0:1:" ++ toString c.send.task ++ ":" ++ toString c.send.thread ++ ":" ++
    toString c.send.timestamp.toNat ++ ":" ++ toString c.send.timestamp.toNat ++ ":0:1:" ++
    toString c.recv.task ++ ":" ++ toString c.recv.thread ++ ":" ++
    toString c.recv.timestamp.toNat ++ ":" ++ toString c.recv.timestamp.toNat ++ ":1:" ++
    toString c.flowId.toNat ++ "\n"

def PrvLine.text : PrvLine → String
  | .event record => record.text
  | .comm record => record.text

def prvText (now : LocalTime) (file : PrvFile) : String :=
  streamLines PrvLine.text (prvHeaderText now file) file.lines

/-! ## `tracr.row` -/

def rowText (rowNames : List String) : String :=
  streamLines (fun name => name ++ "\n")
    ("LEVEL NODE SIZE 1\nhostname\n\nLEVEL THREAD SIZE " ++ toString rowNames.length ++ "\n")
    rowNames

/-! ## `tracr.pcf` -/

def paraverHeader : String :=
  "DEFAULT_OPTIONS\n\n" ++
  "LEVEL               THREAD\n" ++
  "UNITS               NANOSEC\n" ++
  "LOOK_BACK           100\n" ++
  "SPEED               1\n" ++
  "FLAG_ICONS          ENABLED\n" ++
  "NUM_OF_STATE_COLORS 1000\n" ++
  "YMAX_SCALE          37\n\n" ++
  "DEFAULT_SEMANTIC\n\n" ++
  "THREAD_FUNC         State As Is\n\n" ++
  "STATES_COLOR\n" ++
  "0   \x7b  0,   0,   0\x7d\n" ++
  "1   \x7b  0, 130, 200\x7d\n" ++
  "2   \x7b217, 217, 217\x7d\n" ++
  "3   \x7b230,  25,  75\x7d\n" ++
  "4   \x7b 60, 180,  75\x7d\n" ++
  "5   \x7b255, 225,  25\x7d\n" ++
  "6   \x7b245, 130,  48\x7d\n" ++
  "7   \x7b145,  30, 180\x7d\n" ++
  "8   \x7b 70, 240, 240\x7d\n" ++
  "9   \x7b240,  50, 230\x7d\n" ++
  "10  \x7b210, 245,  60\x7d\n" ++
  "11  \x7b250, 190, 212\x7d\n" ++
  "12  \x7b  0, 128, 128\x7d\n" ++
  "13  \x7b128, 128, 128\x7d\n" ++
  "14  \x7b220, 190, 255\x7d\n" ++
  "15  \x7b170, 110,  40\x7d\n" ++
  "16  \x7b255, 250, 200\x7d\n" ++
  "17  \x7b128,   0,   0\x7d\n" ++
  "18  \x7b170, 255, 195\x7d\n" ++
  "19  \x7b128, 128,   0\x7d\n" ++
  "20  \x7b255, 215, 180\x7d\n" ++
  "21  \x7b  0,   0, 128\x7d\n" ++
  "22  \x7b  0,   0, 255\x7d\n\n" ++
  "EVENT_TYPE\n" ++
  "0 90         TraCR\n" ++
  "VALUES\n"

def pcfText (pcf : PcfFile) : String :=
  streamLines (fun value : String × Json => value.1 ++ "   " ++ value.2.compact ++ "\n")
    paraverHeader pcf.values

end TraCR
