import TraCR.Lib.JsonText
import TraCR.Postprocess.Perfetto

/-!
# The text of `perfetto.json`

`json_str`, `fmt_us` and what `perfetto` of `tracr_process.cpp` streams into the file,
event by event.  No array is built: the text is written as the loops go along.
-/

namespace TraCR

open TraCR.Lib

/-! ## Strings -/

/-- `json_str`: the JSON library turns any string into a string literal. -/
structure JsonStr where
  dump : String → String
  valid : ∀ s, JsonText.IsString (dump s).toList

/-- One code point in `dump_escaped` of the JSON library. -/
def dumpEscaped (c : Char) : List Char :=
  if c.toNat = 0x08 then ['\\', 'b']
  else if c.toNat = 0x09 then ['\\', 't']
  else if c.toNat = 0x0A then ['\\', 'n']
  else if c.toNat = 0x0C then ['\\', 'f']
  else if c.toNat = 0x0D then ['\\', 'r']
  else if c = '"' then ['\\', '"']
  else if c = '\\' then ['\\', '\\']
  else if c.toNat ≤ 0x1F then '\\' :: 'u' :: (Nat.toDigits 16 c.toNat).leftpad 4 '0'
  else [c]

theorem isChars_dumpEscaped_append (c : Char) {rest : List Char}
    (h : JsonText.IsChars rest) : JsonText.IsChars (dumpEscaped c ++ rest) := by
  unfold dumpEscaped
  split_ifs with _ _ _ _ _ hquote hslash hcontrol
  · exact .escape (by decide) h
  · exact .escape (by decide) h
  · exact .escape (by decide) h
  · exact .escape (by decide) h
  · exact .escape (by decide) h
  · exact .escape (by decide) h
  · exact .escape (by decide) h
  · have hall : ∀ n ∈ List.range 0x20, ((Nat.toDigits 16 n).leftpad 4 '0').length = 4 ∧
        ((Nat.toDigits 16 n).leftpad 4 '0').all JsonText.isHexDigit = true := by
      decide
    obtain ⟨hlength, hhex⟩ := hall c.toNat (List.mem_range.mpr (by omega))
    exact .unicode hlength hhex h
  · refine .plain ?_ h
    simp [JsonText.isPlain, hquote, hslash]
    omega

def JsonStr.escaping : JsonStr where
  dump := fun s => String.ofList (JsonText.quote (s.toList.flatMap dumpEscaped))
  valid := by
    intro s
    rw [String.toList_ofList]
    apply JsonText.IsString.quoted
    induction s.toList with
    | nil => exact .nil
    | cons c rest ih => exact isChars_dumpEscaped_append c ih

/-! ## Times -/

/-- `std::snprintf` into a buffer of that size: it keeps one byte for the terminator and
drops what does not fit. -/
def snprintf (size : Nat) (text : List Char) : String := String.ofList (text.take (size - 1))

/-- The format `"%llu.%03llu"` of whole microseconds and the nanoseconds left over. -/
def usFormat (ns : UInt64) : List Char :=
  Nat.toDigits 10 (ns / 1000).toNat ++ '.' :: Decimal.padded 3 (ns % 1000).toNat

def fmtUs (ns : UInt64) : String := snprintf 32 (usFormat ns)

/-! ## Events -/

def processNameText (jsonStr : JsonStr) (pid : Int) (name : String) : String :=
  "\x7b\"name\":\"process_name\",\"ph\":\"M\",\"pid\":" ++ toString pid ++
    ",\"args\":\x7b\"name\":" ++ jsonStr.dump name ++ "\x7d\x7d"

def processSortIndexText (pid : Int) (sortIndex : Nat) : String :=
  "\x7b\"name\":\"process_sort_index\",\"ph\":\"M\",\"pid\":" ++ toString pid ++
    ",\"args\":\x7b\"sort_index\":" ++ toString sortIndex ++ "\x7d\x7d"

def threadNameText (jsonStr : JsonStr) (pid : Int) (tid : Nat) (name : String) : String :=
  "\x7b\"name\":\"thread_name\",\"ph\":\"M\",\"pid\":" ++ toString pid ++
    ",\"tid\":" ++ toString tid ++ ",\"args\":\x7b\"name\":" ++ jsonStr.dump name ++
    "\x7d\x7d"

def flowText (flow : Flow) : String :=
  "\x7b\"name\":\"flow\",\"cat\":\"flow\",\"ph\":" ++
    (if flow.isStart then "\"s\"" else "\"f\",\"bp\":\"e\"") ++
    ",\"id\":" ++ toString flow.id.toNat ++ ",\"ts\":" ++ fmtUs flow.ts ++
    ",\"pid\":" ++ toString flow.pid ++ ",\"tid\":" ++ toString flow.tid ++ "\x7d"

def extraLabelText (jsonStr : JsonStr) : Option String → String
  | none => ""
  | some label => ",\"extra_label\":" ++ jsonStr.dump label

def argsText (jsonStr : JsonStr) (extraLabel : Option String) : Option UInt32 → String
  | none => ""
  | some extraId =>
      ",\"args\":\x7b\"extra_id\":" ++ toString extraId.toNat ++
        extraLabelText jsonStr extraLabel ++ "\x7d"

def sliceText (jsonStr : JsonStr) (slice : Slice) : String :=
  "\x7b\"name\":" ++ jsonStr.dump slice.name ++ ",\"cat\":\"tracr\",\"ph\":\"X\"" ++
    ",\"ts\":" ++ fmtUs slice.ts ++ ",\"dur\":" ++ fmtUs slice.dur ++
    ",\"pid\":" ++ toString slice.pid ++ ",\"tid\":" ++ toString slice.tid ++
    argsText jsonStr slice.extraLabel slice.extraId ++ "\x7d"

def eventText (jsonStr : JsonStr) : TraceEvent → String
  | .processName pid name => processNameText jsonStr pid name
  | .processSortIndex pid sortIndex => processSortIndexText pid sortIndex
  | .threadName pid tid name => threadNameText jsonStr pid tid name
  | .flow flow => flowText flow
  | .slice slice => sliceText jsonStr slice

structure PerfettoStream where
  text : String
  firstEvent : Bool

def emitComma (st : PerfettoStream) : PerfettoStream where
  text := if st.firstEvent then st.text else st.text ++ ",\n"
  firstEvent := false

/-- Only the name of a process asks `emit_comma`; every other event brings its comma. -/
def emitEvent (jsonStr : JsonStr) (st : PerfettoStream) (event : TraceEvent) :
    PerfettoStream :=
  match event with
  | .processName .. =>
      { emitComma st with text := (emitComma st).text ++ eventText jsonStr event }
  | _ => { st with text := st.text ++ ",\n" ++ eventText jsonStr event }

def perfettoText (jsonStr : JsonStr) (events : List TraceEvent) : String :=
  (events.foldl (emitEvent jsonStr) ⟨"\x7b\"traceEvents\":[\n", true⟩).text ++ "\n]\x7d\n"

end TraCR
