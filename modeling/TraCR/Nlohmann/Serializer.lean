import TraCR.Engine.Json
import TraCR.Postprocess.PerfettoText

/-!
# The serializer of the JSON library

`dump` of `nlohmann::json`, as `metadata.json` is written.  Integers go through a buffer
that is filled from its end, two digits a round.
-/

namespace TraCR

open TraCR.Lib

/-! ## Integers -/

/-- `count_digits`: four digits a round. -/
def countDigits (x : Nat) : Nat :=
  if x < 10 then 1
  else if x < 100 then 2
  else if x < 1000 then 3
  else if x < 10000 then 4
  else countDigits (x / 10000) + 4

def digitsTo99 (index : Nat) : Char × Char := ((index / 10).digitChar, (index % 10).digitChar)

def writePair (buffer : List Char) (bufferPtr index : Nat) : List Char :=
  (buffer.set (bufferPtr - 1) (digitsTo99 index).2).set (bufferPtr - 2) (digitsTo99 index).1

/-- The loop of `dump_integer` and the last one or two digits after it. -/
def writeDigits (buffer : List Char) (bufferPtr absValue : Nat) : List Char :=
  if 100 ≤ absValue then
    writeDigits (writePair buffer bufferPtr (absValue % 100)) (bufferPtr - 2) (absValue / 100)
  else if 10 ≤ absValue then writePair buffer bufferPtr absValue
  else buffer.set (bufferPtr - 1) absValue.digitChar

/-- `dump_integer`, with what an earlier number left in `number_buffer`. -/
def dumpInteger (numberBuffer : List Char) (x : Int) : List Char :=
  if x = 0 then ['0']
  else
    let buffer := if x < 0 then numberBuffer.set 0 '-' else numberBuffer
    let nChars := if x < 0 then 1 + countDigits x.natAbs else countDigits x.natAbs
    (writeDigits buffer nChars x.natAbs).take nChars

def numberBuffer : List Char := List.replicate 64 '\x00'

/-! ## Values -/

def dumpString (s : String) : List Char := JsonText.quote (s.toList.flatMap dumpEscaped)

/-- `write_characters(indent_string.c_str(), length)` for an `indent_string` of so many
blanks and the terminator behind them.  It fails where it reads behind the terminator. -/
def indentText (indentString length : Nat) : Option (List Char) :=
  if length ≤ indentString then some (List.replicate length ' ')
  else if length = indentString + 1 then some (List.replicate indentString ' ' ++ ['\x00'])
  else none

/-- What a pretty print puts in front of an entry or a closing bracket. -/
def lineBreak (prettyPrint : Bool) (indent indentString : Nat) : Option (List Char) :=
  if prettyPrint then (indentText indentString indent).map ('\n' :: ·) else some []

def nameSeparator (prettyPrint : Bool) : List Char := if prettyPrint then [':', ' '] else [':']

def newIndent (prettyPrint : Bool) (indentStep currentIndent : Nat) : Nat :=
  if prettyPrint then (currentIndent + indentStep) % 2 ^ 32 else currentIndent

/-- The size of `indent_string` inside a container: doubled once where it is too short. -/
def resized (prettyPrint : Bool) (indent indentString : Nat) : Nat :=
  if prettyPrint ∧ indentString < indent then indentString * 2 else indentString

mutual

/-- `serializer::dump`, with the size of `indent_string` before and after it. -/
def dump (prettyPrint : Bool) (indentStep currentIndent : Nat) :
    Json → Nat → Option (List Char × Nat)
  | .null, size => some (['n', 'u', 'l', 'l'], size)
  | .boolean true, size => some (['t', 'r', 'u', 'e'], size)
  | .boolean false, size => some (['f', 'a', 'l', 's', 'e'], size)
  | .number n, size => some (dumpInteger numberBuffer n, size)
  | .string s, size => some (dumpString s, size)
  | .array [], size => some (['[', ']'], size)
  | .array (element :: elements), size => do
      let indent := newIndent prettyPrint indentStep currentIndent
      let size := resized prettyPrint indent size
      let before ← lineBreak prettyPrint indent size
      let (first, size) ← dump prettyPrint indentStep indent element size
      let (more, size) ← dumpElements prettyPrint indentStep indent elements size
      let after ← lineBreak prettyPrint currentIndent size
      return ('[' :: (before ++ first ++ more ++ after ++ [']']), size)
  | .object [], size => some (['{', '}'], size)
  | .object (field :: fields), size => do
      let indent := newIndent prettyPrint indentStep currentIndent
      let size := resized prettyPrint indent size
      let before ← lineBreak prettyPrint indent size
      let (first, size) ← dumpField prettyPrint indentStep indent field size
      let (more, size) ← dumpFields prettyPrint indentStep indent fields size
      let after ← lineBreak prettyPrint currentIndent size
      return ('{' :: (before ++ first ++ more ++ after ++ ['}']), size)

def dumpElements (prettyPrint : Bool) (indentStep indent : Nat) :
    List Json → Nat → Option (List Char × Nat)
  | [], size => some ([], size)
  | element :: elements, size => do
      let before ← lineBreak prettyPrint indent size
      let (first, size) ← dump prettyPrint indentStep indent element size
      let (more, size) ← dumpElements prettyPrint indentStep indent elements size
      return (',' :: (before ++ first ++ more), size)

def dumpFields (prettyPrint : Bool) (indentStep indent : Nat) :
    List (String × Json) → Nat → Option (List Char × Nat)
  | [], size => some ([], size)
  | field :: fields, size => do
      let before ← lineBreak prettyPrint indent size
      let (first, size) ← dumpField prettyPrint indentStep indent field size
      let (more, size) ← dumpFields prettyPrint indentStep indent fields size
      return (',' :: (before ++ first ++ more), size)

def dumpField (prettyPrint : Bool) (indentStep indent : Nat) :
    String × Json → Nat → Option (List Char × Nat)
  | (key, value), size => do
      let (text, size) ← dump prettyPrint indentStep indent value size
      return (dumpString key ++ nameSeparator prettyPrint ++ text, size)

end

/-- `dump(indent)`: a negative indent asks for no line breaks.  `indent_string` begins with
512 blanks. -/
def Json.dump (j : Json) (indent : Int) : Option String :=
  let written :=
    if 0 ≤ indent then TraCR.dump true indent.toNat 0 j 512 else TraCR.dump false 0 0 j 512
  written.map fun out => String.ofList out.1

/-! ## Layout

The text of a value with all the blanks its depth asks for. -/

def blankLine (prettyPrint : Bool) (indent : Nat) : List Char :=
  if prettyPrint then '\n' :: List.replicate indent ' ' else []

mutual

def layout (prettyPrint : Bool) (indentStep currentIndent : Nat) : Json → List Char
  | .null => ['n', 'u', 'l', 'l']
  | .boolean true => ['t', 'r', 'u', 'e']
  | .boolean false => ['f', 'a', 'l', 's', 'e']
  | .number n => dumpInteger numberBuffer n
  | .string s => dumpString s
  | .array [] => ['[', ']']
  | .array (element :: elements) =>
      let indent := newIndent prettyPrint indentStep currentIndent
      '[' :: (blankLine prettyPrint indent ++ layout prettyPrint indentStep indent element ++
        layoutElements prettyPrint indentStep indent elements ++
        blankLine prettyPrint currentIndent ++ [']'])
  | .object [] => ['{', '}']
  | .object (field :: fields) =>
      let indent := newIndent prettyPrint indentStep currentIndent
      '{' :: (blankLine prettyPrint indent ++ layoutField prettyPrint indentStep indent field ++
        layoutFields prettyPrint indentStep indent fields ++
        blankLine prettyPrint currentIndent ++ ['}'])

def layoutElements (prettyPrint : Bool) (indentStep indent : Nat) : List Json → List Char
  | [] => []
  | element :: elements =>
      ',' :: (blankLine prettyPrint indent ++ layout prettyPrint indentStep indent element ++
        layoutElements prettyPrint indentStep indent elements)

def layoutFields (prettyPrint : Bool) (indentStep indent : Nat) :
    List (String × Json) → List Char
  | [] => []
  | field :: fields =>
      ',' :: (blankLine prettyPrint indent ++ layoutField prettyPrint indentStep indent field ++
        layoutFields prettyPrint indentStep indent fields)

def layoutField (prettyPrint : Bool) (indentStep indent : Nat) : String × Json → List Char
  | (key, value) =>
      dumpString key ++ nameSeparator prettyPrint ++ layout prettyPrint indentStep indent value

end

/-- What `operator<<` streams: the text without line breaks, which needs no `indent_string`. -/
def Json.compact (j : Json) : String := String.ofList (layout false 0 0 j)

end TraCR
