import TraCR.Lib.Lines
import TraCR.Postprocess.ParaverText
import TraCR.Proofs.MetadataText
import TraCR.Proofs.Objects
import TraCR.Proofs.ValueLabels

/-!
# What the Paraver files say

A reader of the three files: the header and the records of `tracr.prv`, the names of
`tracr.row`, the values of `tracr.pcf`.  It finds what was exported.  Only the names are
written as they are, so a name with a line break in it is the one thing that is lost.
-/

namespace TraCR

open TraCR.Lib TraCR.Lib.Lines TraCR.Lib.Traversal

/-! ## Readers -/

def readTasks : Nat → List Char → Option (List Nat × List Char)
  | 0, text => some ([], text)
  | 1, text => do
      let (channels, rest) ← field [':', '1'] text
      return ([channels], rest)
  | n + 2, text => do
      let (channels, rest) ← field [':', '1', ','] text
      let (tasks, rest) ← readTasks (n + 1) rest
      return (channels :: tasks, rest)

def readHeader (line : List Char) : Option (Nat × List Nat) := do
  let rest ← expect "#Paraver (".toList line
  let rest ← expect "):".toList (rest.dropWhile fun c => c ≠ ')')
  let (total, rest) ← field "_ns:0:1:".toList rest
  let (count, rest) ← field "(".toList rest
  let (tasks, rest) ← readTasks count rest
  if rest = [')'] then some (total, tasks) else none

def readEvent (line : List Char) : Option PrvLine := do
  let rest ← expect "2:0:1:".toList line
  let (task, rest) ← field ":".toList rest
  let (thread, rest) ← field ":".toList rest
  let (timestamp, colorId) ← field ":90:".toList rest
  return .event ⟨.ofNat timestamp, task, thread, String.ofList colorId⟩

def readEndpoint (word line : List Char) : Option (FlowEndpoint × List Char) := do
  let (task, rest) ← field ":".toList line
  let (thread, rest) ← field ":".toList rest
  let (logical, rest) ← field ":".toList rest
  let (physical, rest) ← field word rest
  if logical = physical then some (⟨.ofNat logical, task, thread⟩, rest) else none

def readComm (line : List Char) : Option PrvLine := do
  let rest ← expect "3:0:1:".toList line
  let (send, rest) ← readEndpoint ":0:1:".toList rest
  let (recv, rest) ← readEndpoint ":1:".toList rest
  let (flowId, rest) ← natural rest
  if rest = [] then some (.comm ⟨send, recv, .ofNat flowId⟩) else none

def readLine (line : List Char) : Option PrvLine := readEvent line <|> readComm line

def readPrv (text : String) : Option (Nat × List Nat × List PrvLine) :=
  match lines text.toList with
  | [] => none
  | header :: body => do
      let (total, tasks) ← readHeader header
      let body ← body.mapM readLine
      return (total, tasks, body)

def readRow (text : String) : Option (List String) :=
  match lines text.toList with
  | level :: host :: blank :: size :: names => do
      let (count, rest) ← (expect "LEVEL THREAD SIZE ".toList size).bind natural
      if level = "LEVEL NODE SIZE 1".toList ∧ host = "hostname".toList ∧ blank = [] ∧
          rest = [] ∧ names.length = count then
        some (names.map String.ofList)
      else none
  | _ => none

def readValue (line : List Char) : Option (String × Json) := do
  let rest ← expect "   ".toList (line.dropWhile fun c => c ≠ ' ')
  match parseJson rest with
  | .ok (value, []) => some (String.ofList (line.takeWhile fun c => c ≠ ' '), value)
  | _ => none

def readPcf (text : String) : Option (List (String × Json)) := do
  let rest ← expect paraverHeader.toList text.toList
  (lines rest).mapM readValue

/-! ## Streams of lines -/

theorem toList_streamLines {α : Type} (line : α → String) (out : String) (xs : List α) :
    (streamLines line out xs).toList = out.toList ++ xs.flatMap fun x => (line x).toList := by
  unfold streamLines
  induction xs generalizing out with
  | nil => simp
  | cons x xs ih => rw [List.foldl_cons, ih, String.toList_append, List.flatMap_cons,
      List.append_assoc]

theorem lines_streamLines {α : Type} {line : α → String} {body : α → List Char} {xs : List α}
    (h : ∀ x ∈ xs, (line x).toList = body x ++ ['\n'] ∧ '\n' ∉ body x) {out : String}
    {head : List (List Char)} (hout : out.toList = unlines head)
    (hhead : ∀ l ∈ head, '\n' ∉ l) :
    lines (streamLines line out xs).toList = head ++ xs.map body := by
  have hbody : xs.flatMap (fun x => (line x).toList) = unlines (xs.map body) := by
    rw [unlines, List.flatMap_map]
    exact List.flatMap_congr fun x hx => (h x hx).1
  have htext : (streamLines line out xs).toList = unlines (head ++ xs.map body) := by
    rw [toList_streamLines, hout, hbody]
    exact List.flatMap_append.symm
  rw [htext]
  apply lines_unlines
  intro l hl
  rcases List.mem_append.mp hl with hl | hl
  · exact hhead l hl
  · obtain ⟨x, hx, rfl⟩ := List.mem_map.mp hl
    exact (h x hx).2

theorem toList_toString (n : Nat) : (toString n).toList = Nat.toDigits 10 n := Nat.toList_repr

theorem newline_not_mem_toDigits (n : Nat) : '\n' ∉ Nat.toDigits 10 n :=
  not_mem_toDigits (by decide) n

/-! ## `tracr.prv` -/

def PrvRecord.line (r : PrvRecord) : List Char :=
  "2:0:1:".toList ++ (Nat.toDigits 10 r.task ++ (":".toList ++ (Nat.toDigits 10 r.thread ++
    (":".toList ++ (Nat.toDigits 10 r.timestamp.toNat ++ (":90:".toList ++
      r.colorId.toList))))))

theorem PrvRecord.toList_text (r : PrvRecord) : r.text.toList = r.line ++ ['\n'] := by
  unfold PrvRecord.text PrvRecord.line
  simp

theorem PrvRecord.newline_not_mem_line {r : PrvRecord} (h : '\n' ∉ r.colorId.toList) :
    '\n' ∉ r.line := by
  unfold PrvRecord.line
  simp [newline_not_mem_toDigits, h]

theorem readEvent_line (r : PrvRecord) : readEvent r.line = some (.event r) := by
  obtain ⟨timestamp, task, thread, colorId⟩ := r
  unfold readEvent PrvRecord.line
  simp only [expect_append, Option.bind_eq_bind, Option.bind_some,
    field_append ":".toList rfl, field_append ":90:".toList rfl]
  simp

def FlowEndpoint.fields (e : FlowEndpoint) (word rest : List Char) : List Char :=
  Nat.toDigits 10 e.task ++ (":".toList ++ (Nat.toDigits 10 e.thread ++ (":".toList ++
    (Nat.toDigits 10 e.timestamp.toNat ++ (":".toList ++
      (Nat.toDigits 10 e.timestamp.toNat ++ (word ++ rest)))))))

theorem readEndpoint_fields (word : List Char)
    (h : (word.head?.any fun c => !c.isDigit) = true) (e : FlowEndpoint) (rest : List Char) :
    readEndpoint word (e.fields word rest) = some (e, rest) := by
  obtain ⟨timestamp, task, thread⟩ := e
  unfold readEndpoint FlowEndpoint.fields
  simp only [Option.bind_eq_bind, Option.bind_some,
    field_append ":".toList rfl, field_append word h]
  simp

def CommRecord.line (c : CommRecord) : List Char :=
  "3:0:1:".toList ++ c.send.fields ":0:1:".toList
    (c.recv.fields ":1:".toList (Nat.toDigits 10 c.flowId.toNat))

theorem CommRecord.toList_text (c : CommRecord) : c.text.toList = c.line ++ ['\n'] := by
  have hend : "\n".toList = ['\n'] := rfl
  unfold CommRecord.text CommRecord.line FlowEndpoint.fields
  simp only [String.toList_append, toList_toString, List.append_assoc, hend]

theorem CommRecord.newline_not_mem_line (c : CommRecord) : '\n' ∉ c.line := by
  unfold CommRecord.line FlowEndpoint.fields
  simp [newline_not_mem_toDigits]

theorem readComm_line (c : CommRecord) : readComm c.line = some (.comm c) := by
  have hflow : natural (Nat.toDigits 10 c.flowId.toNat) = some (c.flowId.toNat, []) := by
    have hnatural := @natural_append [] c.flowId.toNat fun c hc => nomatch hc
    rwa [List.append_nil] at hnatural
  unfold readComm CommRecord.line
  simp only [expect_append, Option.bind_eq_bind, Option.bind_some,
    readEndpoint_fields ":0:1:".toList rfl, readEndpoint_fields ":1:".toList rfl, hflow]
  simp

theorem readEvent_comm (c : CommRecord) : readEvent c.line = none := by
  unfold readEvent CommRecord.line
  simp [expect]

def PrvLine.line : PrvLine → List Char
  | .event r => r.line
  | .comm c => c.line

theorem readLine_line (l : PrvLine) : readLine l.line = some l := by
  cases l with
  | event r =>
      show (readEvent r.line <|> readComm r.line) = _
      rw [readEvent_line]
      rfl
  | comm c =>
      show (readEvent c.line <|> readComm c.line) = _
      rw [readEvent_comm, readComm_line]
      rfl

theorem PrvLine.toList_text (l : PrvLine) : l.text.toList = l.line ++ ['\n'] := by
  cases l with
  | event r => exact r.toList_text
  | comm c => exact c.toList_text

theorem toList_taskListText_cons (channels next : Nat) (rest : List Nat) :
    (taskListText (channels :: next :: rest)).toList =
      Nat.toDigits 10 channels ++ ([':', '1', ','] ++ (taskListText (next :: rest)).toList) := by
  rw [taskListText]
  simp

theorem newline_not_mem_taskListText (tasks : List Nat) :
    '\n' ∉ (taskListText tasks).toList := by
  induction tasks with
  | nil => simp [taskListText]
  | cons channels tasks ih =>
      cases tasks with
      | nil =>
          unfold taskListText
          simp [newline_not_mem_toDigits]
      | cons next rest =>
          rw [toList_taskListText_cons]
          simp [newline_not_mem_toDigits, ih]

theorem readTasks_taskListText (tasks : List Nat) (rest : List Char) :
    readTasks tasks.length ((taskListText tasks).toList ++ rest) = some (tasks, rest) := by
  induction tasks with
  | nil => simp [readTasks, taskListText]
  | cons channels tasks ih =>
      cases tasks with
      | nil =>
          have htext : (taskListText [channels]).toList ++ rest =
              Nat.toDigits 10 channels ++ ([':', '1'] ++ rest) := by
            unfold taskListText
            simp
          rw [htext]
          simp only [List.length_singleton, readTasks, field_append [':', '1'] rfl]
          rfl
      | cons next tasks =>
          rw [toList_taskListText_cons, List.append_assoc, List.append_assoc]
          simp only [List.length_cons, readTasks, field_append [':', '1', ','] rfl] at ih ⊢
          simp [ih]

theorem not_mem_twoDigits {c : Char} (h : c.isDigit = false) (n : Nat) :
    c ∉ (twoDigits n).toList := by
  unfold twoDigits
  rw [String.toList_ofList, List.leftpad]
  intro hc
  rcases List.mem_append.mp hc with hzero | hdigit
  · rw [List.eq_of_mem_replicate hzero] at h
    cases h
  · exact not_mem_toDigits h n hdigit

theorem not_mem_dateText {c : Char} (h : c = ')' ∨ c = '\n') (now : LocalTime) :
    c ∉ (dateText now).toList := by
  unfold dateText
  rcases h with rfl | rfl <;> simp [not_mem_twoDigits]

def prvHeaderLine (now : LocalTime) (file : PrvFile) : List Char :=
  "#Paraver (".toList ++ ((dateText now).toList ++ ("):".toList ++
    (Nat.toDigits 10 file.totalTime.toNat ++ ("_ns:0:1:".toList ++
      (Nat.toDigits 10 file.taskChannels.length ++ ("(".toList ++
        ((taskListText file.taskChannels).toList ++ [')'])))))))

theorem toList_prvHeaderText (now : LocalTime) (file : PrvFile) :
    (prvHeaderText now file).toList = prvHeaderLine now file ++ ['\n'] := by
  unfold prvHeaderText prvHeaderLine
  simp

theorem newline_not_mem_prvHeaderLine (now : LocalTime) (file : PrvFile) :
    '\n' ∉ prvHeaderLine now file := by
  unfold prvHeaderLine
  simp [newline_not_mem_toDigits, newline_not_mem_taskListText, not_mem_dateText]

theorem readHeader_prvHeaderLine (now : LocalTime) (file : PrvFile) :
    readHeader (prvHeaderLine now file) = some (file.totalTime.toNat, file.taskChannels) := by
  have hdate : ∀ rest, ((dateText now).toList ++ ("):".toList ++ rest)).dropWhile
      (fun c => decide (c ≠ ')')) = "):".toList ++ rest := by
    intro rest
    have hall : ∀ c ∈ (dateText now).toList, decide (c ≠ ')') = true := by
      intro c hc
      have hne : c ≠ ')' := fun heq => not_mem_dateText (.inl rfl) now (heq ▸ hc)
      simpa using hne
    rw [List.dropWhile_append_of_pos hall]
    rfl
  unfold readHeader prvHeaderLine
  simp only [expect_append, Option.bind_eq_bind, Option.bind_some, hdate,
    field_append "_ns:0:1:".toList rfl, field_append "(".toList rfl, readTasks_taskListText]
  rfl

theorem readPrv_prvText (now : LocalTime) {file : PrvFile}
    (h : ∀ r ∈ file.events, '\n' ∉ r.colorId.toList) :
    readPrv (prvText now file) = some (file.totalTime.toNat, file.taskChannels, file.lines) := by
  have hline : ∀ l ∈ file.lines, l.text.toList = l.line ++ ['\n'] ∧ '\n' ∉ l.line := by
    intro l hl
    refine ⟨l.toList_text, ?_⟩
    cases l with
    | event r => exact PrvRecord.newline_not_mem_line (h r (List.mem_filterMap.mpr ⟨_, hl, rfl⟩))
    | comm c => exact c.newline_not_mem_line
  have hlines := @lines_streamLines _ PrvLine.text PrvLine.line _ hline (prvHeaderText now file)
    [prvHeaderLine now file] (by simp [toList_prvHeaderText, unlines])
    (by simp [newline_not_mem_prvHeaderLine])
  have hbody : (file.lines.map PrvLine.line).mapM readLine = some file.lines := by
    induction file.lines with
    | nil => rfl
    | cons l ls ih => simp [readLine_line, ih]
  unfold readPrv prvText
  rw [hlines]
  simp [readHeader_prvHeaderLine, hbody]

/-! ## `tracr.row` -/

def rowHead (count : Nat) : List (List Char) :=
  ["LEVEL NODE SIZE 1".toList, "hostname".toList, [],
    "LEVEL THREAD SIZE ".toList ++ Nat.toDigits 10 count]

theorem newline_not_mem_rowHead (count : Nat) : ∀ line ∈ rowHead count, '\n' ∉ line := by
  unfold rowHead
  simp [newline_not_mem_toDigits]

theorem toList_rowText (rowNames : List String) :
    (rowText rowNames).toList =
      unlines (rowHead rowNames.length) ++ unlines (rowNames.map String.toList) := by
  unfold rowText rowHead
  rw [toList_streamLines]
  simp [unlines, List.flatMap_map]

/-- The names are read as they were exported exactly if none of them has a line break. -/
theorem readRow_rowText_iff (rowNames : List String) :
    readRow (rowText rowNames) = some rowNames ↔ ∀ name ∈ rowNames, '\n' ∉ name.toList := by
  have hlines : lines (rowText rowNames).toList =
      rowHead rowNames.length ++ lines (unlines (rowNames.map String.toList)) := by
    rw [toList_rowText, lines_unlines_append (newline_not_mem_rowHead _)]
  have hcount : natural (Nat.toDigits 10 rowNames.length) = some (rowNames.length, []) := by
    have hnatural := @natural_append [] rowNames.length fun c hc => nomatch hc
    rwa [List.append_nil] at hnatural
  have hread : readRow (rowText rowNames) =
      if (lines (unlines (rowNames.map String.toList))).length = rowNames.length then
        some ((lines (unlines (rowNames.map String.toList))).map String.ofList)
      else none := by
    unfold readRow rowHead at *
    rw [hlines]
    simp only [List.cons_append, List.nil_append, expect_append, Option.bind_eq_bind,
      Option.bind_some, hcount, true_and]
  have hnames : (∀ name ∈ rowNames, '\n' ∉ name.toList) ↔
      ∀ line ∈ rowNames.map String.toList, '\n' ∉ line := by
    rw [List.forall_mem_map]
  rw [hnames, ← lines_unlines_iff, hread]
  constructor
  · intro h
    split at h
    · have hmap := congrArg (List.map String.toList) (Option.some.inj h)
      simpa [List.map_map, Function.comp_def] using hmap
    · cases h
  · intro h
    rw [h, List.length_map, if_pos rfl, List.map_map]
    simp [Function.comp_def]

/-! ## `tracr.pcf` -/

theorem newline_not_mem_dumpString (s : String) : '\n' ∉ dumpString s := by
  have hescaped : ∀ c, '\n' ∉ dumpEscaped c := by
    intro c hc
    unfold dumpEscaped at hc
    split_ifs at hc with hb ht hn hf hr hquote hslash hcontrol
    all_goals try exact absurd hc (by decide)
    · have hall : ∀ n ∈ List.range 0x20, '\n' ∉ (Nat.toDigits 16 n).leftpad 4 '0' := by decide
      have hpad := hall c.toNat (List.mem_range.mpr (by omega))
      simp only [List.mem_cons] at hc
      rcases hc with hc | hc | hc
      · cases hc
      · cases hc
      · exact hpad hc
    · rw [← List.mem_singleton.mp hc] at hn
      exact hn rfl
  intro h
  simp only [dumpString, JsonText.quote, List.mem_cons, List.mem_append, List.mem_flatMap] at h
  rcases h with h | ⟨c, -, hc⟩ | h
  · cases h
  · exact hescaped c hc
  · exact absurd h (by decide)

theorem newline_not_mem_ofInt (x : Int) : '\n' ∉ (JsonText.Number.ofInt x).1 := by
  cases x with
  | ofNat n => exact newline_not_mem_toDigits n
  | negSucc n =>
      intro h
      rcases List.mem_cons.mp h with hsign | hdigit
      · cases hsign
      · exact newline_not_mem_toDigits _ hdigit

mutual

theorem newline_not_mem_layout (indentStep indent : Nat) :
    ∀ j : Json, j.Storable → '\n' ∉ layout false indentStep indent j
  | .null, _ => by
      unfold layout
      decide
  | .boolean true, _ => by
      unfold layout
      decide
  | .boolean false, _ => by
      unfold layout
      decide
  | .number n, h => by
      have htext : layout false indentStep indent (.number n) = (JsonText.Number.ofInt n).1 :=
        dumpInteger_eq h.1 h.2 (by decide)
      rw [htext]
      exact newline_not_mem_ofInt n
  | .string s, _ => newline_not_mem_dumpString s
  | .array [], _ => by
      unfold layout
      decide
  | .array (element :: elements), h => by
      have hhead := newline_not_mem_layout indentStep indent element h.1
      have htail := newline_not_mem_layoutElements indentStep indent elements h.2
      simp [layout, newIndent, blankLine, hhead, htail]
  | .object [], _ => by
      unfold layout
      decide
  | .object (field :: fields), h => by
      have hhead := newline_not_mem_layoutField indentStep indent field h.2.1
      have htail := newline_not_mem_layoutFields indentStep indent fields h.2.2
      simp [layout, newIndent, blankLine, hhead, htail]

theorem newline_not_mem_layoutElements (indentStep indent : Nat) :
    ∀ elements : List Json, StorableElements elements →
      '\n' ∉ layoutElements false indentStep indent elements
  | [], _ => List.not_mem_nil
  | element :: elements, h => by
      have hhead := newline_not_mem_layout indentStep indent element h.1
      have htail := newline_not_mem_layoutElements indentStep indent elements h.2
      simp [layoutElements, blankLine, hhead, htail]

theorem newline_not_mem_layoutFields (indentStep indent : Nat) :
    ∀ fields : List (String × Json), StorableFields fields →
      '\n' ∉ layoutFields false indentStep indent fields
  | [], _ => List.not_mem_nil
  | field :: fields, h => by
      have hhead := newline_not_mem_layoutField indentStep indent field h.1
      have htail := newline_not_mem_layoutFields indentStep indent fields h.2
      simp [layoutFields, blankLine, hhead, htail]

theorem newline_not_mem_layoutField (indentStep indent : Nat) :
    ∀ field : String × Json, field.2.Storable →
      '\n' ∉ layoutField false indentStep indent field
  | (key, value), h => by
      have hvalue := newline_not_mem_layout indentStep indent value h
      simp [layoutField, nameSeparator, newline_not_mem_dumpString, hvalue]

end

/-- The key fits into a line: it has neither a blank nor a line break. -/
def KeyFits (key : String) : Prop := ' ' ∉ key.toList ∧ '\n' ∉ key.toList

def valueLine (field : String × Json) : List Char :=
  field.1.toList ++ ("   ".toList ++ (field.2.compact).toList)

theorem readValue_valueLine {field : String × Json} (hkey : KeyFits field.1)
    (hvalue : field.2.Storable) : readValue (valueLine field) = some field := by
  have hall : ∀ c ∈ field.1.toList, decide (c ≠ ' ') = true := by
    intro c hc
    have hne : c ≠ ' ' := fun heq => hkey.1 (heq ▸ hc)
    simpa using hne
  have htake : (valueLine field).takeWhile (fun c => decide (c ≠ ' ')) = field.1.toList := by
    unfold valueLine
    rw [List.takeWhile_append_of_pos hall]
    exact List.append_nil _
  have hdrop : (valueLine field).dropWhile (fun c => decide (c ≠ ' ')) =
      "   ".toList ++ (field.2.compact).toList := by
    unfold valueLine
    rw [List.dropWhile_append_of_pos hall]
    rfl
  unfold readValue
  rw [hdrop, expect_append, htake]
  simp [parseJson_compact hvalue]

theorem readPcf_pcfText {pcf : PcfFile}
    (h : ∀ field ∈ pcf.values, KeyFits field.1 ∧ field.2.Storable) :
    readPcf (pcfText pcf) = some pcf.values := by
  have hline : ∀ field ∈ pcf.values, (field.1 ++ "   " ++ field.2.compact ++ "\n").toList =
      valueLine field ++ ['\n'] ∧ '\n' ∉ valueLine field := by
    intro field hfield
    obtain ⟨hkey, hvalue⟩ := h field hfield
    have hdump := newline_not_mem_layout 0 0 field.2 hvalue
    unfold valueLine
    exact ⟨by simp, by simp [Json.compact, hkey.2, hdump]⟩
  have htext : (pcfText pcf).toList =
      paraverHeader.toList ++ unlines (pcf.values.map valueLine) := by
    unfold pcfText
    rw [toList_streamLines, unlines, List.flatMap_map]
    exact congrArg _ (List.flatMap_congr fun field hfield => (hline field hfield).1)
  have hlines : lines (unlines (pcf.values.map valueLine)) = pcf.values.map valueLine :=
    lines_unlines (List.forall_mem_map.mpr fun field hfield => (hline field hfield).2)
  have hread : ∀ fields : List (String × Json),
      (∀ field ∈ fields, KeyFits field.1 ∧ field.2.Storable) →
        (fields.map valueLine).mapM readValue = some fields := by
    intro fields hfields
    induction fields with
    | nil => rfl
    | cons field fields ih =>
        obtain ⟨⟨hkey, hvalue⟩, htail⟩ := List.forall_mem_cons.mp hfields
        simp [readValue_valueLine hkey hvalue, ih htail]
  unfold readPcf
  rw [htext, expect_append]
  show (lines (unlines (pcf.values.map valueLine))).mapM readValue = _
  rw [hlines, hread _ h]

/-! ## What is exported -/

def KeysFit (metadata : Json) : Prop :=
  ∀ fields, metadata.field? "markerTypes" = some (.object fields) →
    ∀ field ∈ fields, KeyFits field.1

variable {ch : ParaverChoices} {out : OutputFolder} {procs : List ProcData}
  {files : ParaverFiles}

theorem newline_not_mem_toString (n : Nat) : '\n' ∉ (toString n).toList := by
  rw [toList_toString]
  exact newline_not_mem_toDigits n

/-- The values of event records are numbers, or keys of legacy metadata. -/
theorem newline_not_mem_colorIds {metadata : Json} (hkeys : KeysFit metadata)
    {colorIds : List String} (h : extractMarkerColorIds metadata = .ok colorIds) :
    ∀ colorId ∈ colorIds, '\n' ∉ colorId.toList := by
  intro colorId hcolor
  unfold extractMarkerColorIds at h
  split at h
  · obtain ⟨id, -, hid⟩ := exists_of_mem_mapM h hcolor
    split at hid
    · cases hid
    · obtain rfl := Except.ok.inj hid
      exact newline_not_mem_toString _
  · split at h
    next types htypes =>
      obtain rfl := Except.ok.inj h
      obtain ⟨item, hitem, rfl⟩ := List.mem_map.mp hcolor
      cases types with
      | object fields => exact (hkeys fields htypes item hitem).2
      | array elements =>
          obtain ⟨x, -, rfl⟩ := List.mem_map.mp hitem
          exact newline_not_mem_toString _
      | null => cases hitem
      | boolean | number | string =>
          rw [List.mem_singleton.mp hitem]
          exact List.not_mem_nil
    · obtain rfl := Except.ok.inj h
      cases hcolor

theorem newline_not_mem_recordColorId {colorIds : List String}
    (h : ∀ colorId ∈ colorIds, '\n' ∉ colorId.toList) {eventId : UInt16} {value : String}
    (hvalue : recordColorId colorIds eventId = .ok value) : '\n' ∉ value.toList := by
  unfold recordColorId at hvalue
  split_ifs at hvalue
  · obtain rfl := Except.ok.inj hvalue
    decide
  · obtain rfl := Except.ok.inj hvalue
    exact newline_not_mem_toString _
  · split at hvalue
    · cases hvalue
    next colorId hcolor =>
      obtain rfl := Except.ok.inj hvalue
      exact h _ (List.mem_of_getElem? hcolor)

theorem newline_not_mem_events {channels : List Nat} {file : PrvFile}
    (hkeys : ∀ proc ∈ procs, KeysFit proc.metadata)
    (h : createTracrPrv ch out procs channels = .ok file) :
    ∀ r ∈ file.events, '\n' ∉ r.colorId.toList := by
  intro r hr
  obtain ⟨-, tasks, rs, hexported⟩ := createTracrPrv_ok h
  rw [hexported.events_eq, SortedList.mem_stableSort] at hr
  obtain ⟨item, hitem, hrecord⟩ := exists_of_mem_mapM (mapM_taskRecord hexported.records_of) hr
  obtain ⟨hvalue, -⟩ := taskRecord_ok_iff.mp hrecord
  obtain ⟨i, hi, hi', htask, -⟩ :=
    hexported.tasks_of.mem_prvItems.mp (List.mem_of_mem_filter hitem)
  obtain ⟨_, hcolors, -⟩ := hexported.tasks_of.getElem hi
  rw [htask] at hvalue
  exact newline_not_mem_recordColorId
    (newline_not_mem_colorIds (hkeys _ (List.getElem_mem hi)) hcolors) hvalue

theorem mem_of_mem_foldl_emplace {pcf : PcfFile} {fields : List (String × Json)}
    {field : String × Json} (h : field ∈ (fields.foldl PcfFile.emplace pcf).values) :
    field ∈ pcf.values ∨ field ∈ fields := by
  induction fields generalizing pcf with
  | nil => exact .inl h
  | cons head fields ih =>
      rcases ih h with hkept | hlater
      · unfold PcfFile.emplace at hkept
        split at hkept
        · rcases mem_of_mem_insertField hkept with rfl | hold
          · exact .inr List.mem_cons_self
          · exact .inl hold
        · split at hkept <;> exact .inl hkept
      · exact .inr (List.mem_cons_of_mem _ hlater)

theorem storable_of_field? {j value : Json} {key : String} (h : j.Storable)
    (hfield : j.field? key = some value) : value.Storable := by
  have hmember : j.member? key = some value := by
    unfold Json.field? at hfield
    split at hfield
    · cases hfield
    · exact hfield
  cases j with
  | object fields =>
      have hmem := h.1.lookup_eq_some_iff.mp hmember
      exact storableFields_iff.mp h.2 _ hmem
  | _ => cases hmember

theorem pcf_values_fit {pcf : PcfFile}
    (hstorable : ∀ proc ∈ procs, proc.metadata.Storable)
    (hkeys : ∀ proc ∈ procs, KeysFit proc.metadata) (h : createTracrPcf out procs = .ok pcf) :
    ∀ field ∈ pcf.values, KeyFits field.1 ∧ field.2.Storable := by
  obtain ⟨fields, hfields, rfl⟩ := createTracrPcf_ok h
  intro field hfield
  rcases mem_of_mem_foldl_emplace hfield with hnone | hmem
  · cases hnone
  obtain ⟨types, htypes, hfield⟩ := List.mem_flatten.mp hmem
  obtain ⟨proc, hproc, htable⟩ := exists_of_mem_mapM hfields htypes
  unfold markerTypesFields at htable
  split at htable
  · obtain rfl := Except.ok.inj htable
    cases hfield
  next object hobject =>
    obtain rfl := Except.ok.inj htable
    have htable := storable_of_field? (hstorable proc hproc) hobject
    exact ⟨hkeys proc hproc _ hobject field hfield, storableFields_iff.mp htable.2 field hfield⟩
  · obtain rfl := Except.ok.inj htable
    cases hfield
  · cases htable

theorem paraver_pcf (h : paraver ch out procs = .ok files) :
    createTracrPcf out procs = .ok files.pcf := by
  unfold paraver at h
  split at h
  · cases h
  · obtain ⟨pcf, hpcf, h⟩ := bind_ok_iff.mp h
    simp only [bind_ok_iff, pure_ok_iff] at h
    obtain ⟨_, -, _, -, _, -, rfl⟩ := h
    exact hpcf

/-- The three files of an export from loaded metadata say what was exported: `tracr.prv` and
`tracr.pcf` if the keys of `markerTypes` fit into lines, `tracr.row` exactly if no name has
a line break. -/
theorem paraver_texts_read_back (hexport : paraver ch out procs = .ok files)
    (hloaded : ∀ proc ∈ procs, ∃ text rest, parseJson text = .ok (proc.metadata, rest))
    (hkeys : ∀ proc ∈ procs, KeysFit proc.metadata) (now : LocalTime) :
    readPrv (prvText now files.prv) =
        some (files.prv.totalTime.toNat, files.prv.taskChannels, files.prv.lines) ∧
      readPcf (pcfText files.pcf) = some files.pcf.values ∧
        (readRow (rowText files.row) = some files.row ↔
          ∀ name ∈ files.row, '\n' ∉ name.toList) := by
  obtain ⟨channels, -, hprv, -⟩ := paraver_ok hexport
  have hstorable : ∀ proc ∈ procs, proc.metadata.Storable := by
    intro proc hproc
    obtain ⟨text, rest, hparse⟩ := hloaded proc hproc
    exact storable_of_parseJson hparse
  refine ⟨readPrv_prvText now (newline_not_mem_events hkeys hprv), ?_,
    readRow_rowText_iff files.row⟩
  exact readPcf_pcfText (pcf_values_fit hstorable hkeys (paraver_pcf hexport))

def brokenNameMetadata : Json :=
  .object [("channel_names", .array [.string "core\n0"]),
    ("markerTypes", .object [("6", .string "a")])]

def brokenName : ProcData where
  pid := 1
  metadata := brokenNameMetadata
  btsFiles := [[⟨0, 0, uint32Max, 7⟩, ⟨0, eventIdReset, uint32Max, 9⟩]]
  btsTids := [1]
  syncStart := 7
  syncEnd := 9

theorem paraver_texts_read_back_brokenName :
    ∃ files, paraver .first ⟨true, fun _ => true⟩ [brokenName] = .ok files ∧
      readPrv (prvText ⟨2, 0, 126, 9, 5⟩ files.prv) =
        some (2, [1], [.event ⟨0, 1, 1, "6"⟩, .event ⟨2, 1, 1, "0"⟩]) ∧
      readPcf (pcfText files.pcf) = some [("6", .string "a")] ∧
      readRow (rowText files.row) ≠ some files.row := by
  have hstorable : brokenNameMetadata.Storable := by
    refine ⟨List.pairwise_pair.mpr (by decide), ⟨trivial, trivial⟩, ⟨?_, trivial, trivial⟩, trivial⟩
    exact List.pairwise_singleton _ _
  have hloaded : ∀ proc ∈ [brokenName],
      ∃ text rest, parseJson text = .ok (proc.metadata, rest) := by
    intro proc hproc
    obtain rfl := List.mem_singleton.mp hproc
    exact ⟨_, _, parseJson_compact hstorable⟩
  have hkeys : ∀ proc ∈ [brokenName], KeysFit proc.metadata := by
    intro proc hproc fields hfields field hfield
    obtain rfl := List.mem_singleton.mp hproc
    have htypes : [("6", Json.string "a")] = fields := Json.object.inj (Option.some.inj hfields)
    rw [← htypes, List.mem_singleton] at hfield
    subst hfield
    exact ⟨by decide, by decide⟩
  obtain ⟨files, hfiles, hprv, hpcf, hrow⟩ : ∃ files,
      paraver .first ⟨true, fun _ => true⟩ [brokenName] = .ok files ∧
        (files.prv.totalTime.toNat, files.prv.taskChannels, files.prv.lines) =
          (2, [1], [.event ⟨0, 1, 1, "6"⟩, .event ⟨2, 1, 1, "0"⟩]) ∧
        files.pcf.values = [("6", .string "a")] ∧ files.row = ["core\n0"] :=
    ⟨_, rfl, rfl, rfl, rfl⟩
  obtain ⟨hreadPrv, hreadPcf, hreadRow⟩ :=
    paraver_texts_read_back hfiles hloaded hkeys ⟨2, 0, 126, 9, 5⟩
  refine ⟨files, hfiles, hprv ▸ hreadPrv, hpcf ▸ hreadPcf, ?_⟩
  rw [ne_eq, hreadRow, hrow]
  decide

end TraCR
