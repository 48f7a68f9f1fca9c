import TraCR.Lib.Hex
import TraCR.Engine.Thread

/-!
# The trace of a thread as text

`instrumentation_get_thread_trace_str` of `tracr_core.hpp`, the debugging aid that
prints the buffer of the calling thread in hexadecimal.
-/

namespace TraCR

open TraCR.Lib

variable {b : Build}

def TraCRThread.rawData (th : TraCRThread b) : List UInt8 := payloadBytes th.traces.toList

/-- What follows the byte at offset `i`: a space after every four bytes and a newline
after every sixteen, but nothing at the end. -/
def separator (totalBytes i : Nat) : List Char :=
  (if (i + 1) % 4 = 0 ∧ i + 1 ≠ totalBytes then [' '] else []) ++
    if (i + 1) % 16 = 0 ∧ i + 1 ≠ totalBytes then ['\n'] else []

/-- One round of the loop.  Reading past the array is undefined; the failure is the
offset that is read. -/
def hexRound (rawData : List UInt8) (totalBytes i : Nat) : Except Nat (List Char) :=
  match rawData[i]? with
  | none => .error i
  | some byte => .ok (Hex.encodeByte byte ++ separator totalBytes i)

def tidStr (th : TraCRThread b) : String := s!"Thread({th.tid}):"

def instrumentationGetThreadTraceStr (tracrThread : Option (TraCRThread b)) :
    Except Nat String :=
  match tracrThread with
  | none => .ok "[ERROR: No thread context]"
  | some th =>
      if th.traceIdx = 0 then .ok (tidStr th ++ "[EMPTY: No trace data]")
      else
        let totalBytes := Payload.size * th.traceIdx
        match (List.range totalBytes).mapM (hexRound th.rawData totalBytes) with
        | .error i => .error i
        | .ok rounds => .ok (tidStr th ++ String.ofList rounds.flatten)

end TraCR
