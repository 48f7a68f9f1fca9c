import TraCR.Lib.JsonText

/-!
# The lexer of the JSON library

`scan` of the class `lexer`, over the characters of a text.  The scanners of strings and
numbers read one character after the other; where they stand is a state, as the labels of
`scan_number` name it.
-/

namespace TraCR

open TraCR.Lib

/-- `token_type`, with the value the lexer holds for it. -/
inductive Token where
  | literalTrue
  | literalFalse
  | literalNull
  | valueString (s : String)
  | valueUnsigned (n : Nat)
  | valueInteger (n : Int)
  /-- The conversion of the text is left to `strtod`. -/
  | valueFloat (text : List Char)
  | beginArray
  | beginObject
  | endArray
  | endObject
  | nameSeparator
  | valueSeparator
  | parseError (message : String)
  | endOfInput
deriving DecidableEq, Repr

/-! ## Strings -/

/-- Where `scan_string` waits for a character. -/
inductive StringState where
  /-- The head of the loop. -/
  | body
  /-- After a backslash. -/
  | escape
  /-- In `get_codepoint`, after `count` digits, with the high surrogate read before. -/
  | codepoint (high : Option Nat) (count value : Nat)
  /-- After a high surrogate. -/
  | surrogate (high : Nat)
  /-- After a high surrogate and a backslash. -/
  | surrogateEscape (high : Nat)
deriving DecidableEq, Repr

def escapeChar (c : Char) : Option Char :=
  match c with
  | '"' => some '"'
  | '\\' => some '\\'
  | '/' => some '/'
  | 'b' => some '\x08'
  | 'f' => some '\x0c'
  | 'n' => some '\n'
  | 'r' => some '\r'
  | 't' => some '\t'
  | _ => none

def controlNames : List String :=
  ["NUL", "SOH", "STX", "ETX", "EOT", "ENQ", "ACK", "BEL", "BS", "HT", "LF", "VT", "FF", "CR",
    "SO", "SI", "DLE", "DC1", "DC2", "DC3", "DC4", "NAK", "SYN", "ETB", "CAN", "EM", "SUB",
    "ESC", "FS", "GS", "RS", "US"]

/-- `U+` and `u` are followed by four upper-case digits. -/
def controlCode (c : Char) : String :=
  String.ofList (((Nat.toDigits 16 c.toNat).leftpad 4 '0').map Char.toUpper)

def controlMessage (c : Char) : String :=
  "invalid string: control character U+" ++ controlCode c ++ " (" ++
    controlNames.getD c.toNat "" ++ ") must be escaped to \\u" ++ controlCode c ++
    (match c.toNat with
      | 0x08 => " or \\b"
      | 0x09 => " or \\t"
      | 0x0A => " or \\n"
      | 0x0C => " or \\f"
      | 0x0D => " or \\r"
      | _ => "")

def missingQuoteMessage : String := "invalid string: missing closing quote"

def forbiddenEscapeMessage : String :=
  "invalid string: forbidden character after backslash"

def hexDigitsMessage : String := "invalid string: '\\u' must be followed by 4 hex digits"

def highSurrogateMessage : String :=
  "invalid string: surrogate U+D800..U+DBFF must be followed by U+DC00..U+DFFF"

def lowSurrogateMessage : String :=
  "invalid string: surrogate U+DC00..U+DFFF must follow U+D800..U+DBFF"

/-- What the end of the input means in each state. -/
def StringState.atEnd : StringState → String
  | .body => missingQuoteMessage
  | .escape => forbiddenEscapeMessage
  | .codepoint .. => hexDigitsMessage
  | .surrogate _ => highSurrogateMessage
  | .surrogateEscape _ => highSurrogateMessage

inductive StringStep where
  | goto (state : StringState)
  | add (c : Char)
  | done
  | fail (message : String)

/-- After the fourth digit of `get_codepoint`. -/
def endCodepoint (high : Option Nat) (codepoint : Nat) : StringStep :=
  match high with
  | none =>
      if 0xD800 ≤ codepoint ∧ codepoint ≤ 0xDBFF then .goto (.surrogate codepoint)
      else if 0xDC00 ≤ codepoint ∧ codepoint ≤ 0xDFFF then .fail lowSurrogateMessage
      else .add (Char.ofNat codepoint)
  | some high =>
      if 0xDC00 ≤ codepoint ∧ codepoint ≤ 0xDFFF then
        .add (Char.ofNat (high * 2 ^ 10 + codepoint - 0x35FDC00))
      else .fail highSurrogateMessage

def StringState.next : StringState → Char → StringStep
  | .body, c =>
      if c = '"' then .done
      else if c = '\\' then .goto .escape
      else if c.toNat < 0x20 then .fail (controlMessage c)
      else .add c
  | .escape, c =>
      if c = 'u' then .goto (.codepoint none 0 0)
      else
        match escapeChar c with
        | none => .fail forbiddenEscapeMessage
        | some d => .add d
  | .codepoint high count value, c =>
      match JsonText.hexDigit? c with
      | none => .fail hexDigitsMessage
      | some d =>
          if count < 3 then .goto (.codepoint high (count + 1) (value + d * 16 ^ (3 - count)))
          else endCodepoint high (value + d * 16 ^ (3 - count))
  | .surrogate high, c =>
      if c = '\\' then .goto (.surrogateEscape high) else .fail highSurrogateMessage
  | .surrogateEscape high, c =>
      if c = 'u' then .goto (.codepoint (some high) 0 0) else .fail highSurrogateMessage

/-- `scan_string` from a state on, with `token_buffer`: the token and what is left. -/
def scanString : StringState → List Char → List Char → Token × List Char
  | state, _, [] => (.parseError state.atEnd, [])
  | state, buffer, c :: rest =>
      match state.next c with
      | .goto state' => scanString state' buffer rest
      | .add d => scanString .body (buffer ++ [d]) rest
      | .done => (.valueString (String.ofList buffer), rest)
      | .fail message => (.parseError message, rest)

/-! ## Numbers -/

inductive NumberState where
  | minus
  | zero
  | any1
  | decimal1
  | decimal2
  | exponent
  | sign
  | any2
deriving DecidableEq, Repr

inductive NumberType where
  | unsigned
  | integer
  | float
deriving DecidableEq, Repr

inductive NumberStep where
  | goto (state : NumberState)
  | done
  | fail (message : String)

/-- The `default` branch of a label, also taken at the end of the input. -/
def NumberState.default : NumberState → NumberStep
  | .minus => .fail "invalid number; expected digit after '-'"
  | .decimal1 => .fail "invalid number; expected digit after '.'"
  | .exponent => .fail "invalid number; expected '+', '-', or digit after exponent"
  | .sign => .fail "invalid number; expected digit after exponent sign"
  | .zero | .any1 | .decimal2 | .any2 => .done

/-- The table above `scan_number`. -/
def NumberState.next : NumberState → Char → NumberStep
  | .minus, c =>
      if c = '0' then .goto .zero
      else if c.isDigit then .goto .any1
      else NumberState.minus.default
  | .zero, c =>
      if c = '.' then .goto .decimal1
      else if c = 'e' ∨ c = 'E' then .goto .exponent
      else NumberState.zero.default
  | .any1, c =>
      if c.isDigit then .goto .any1
      else if c = '.' then .goto .decimal1
      else if c = 'e' ∨ c = 'E' then .goto .exponent
      else NumberState.any1.default
  | .decimal1, c => if c.isDigit then .goto .decimal2 else NumberState.decimal1.default
  | .decimal2, c =>
      if c.isDigit then .goto .decimal2
      else if c = 'e' ∨ c = 'E' then .goto .exponent
      else NumberState.decimal2.default
  | .exponent, c =>
      if c = '+' ∨ c = '-' then .goto .sign
      else if c.isDigit then .goto .any2
      else NumberState.exponent.default
  | .sign, c => if c.isDigit then .goto .any2 else NumberState.sign.default
  | .any2, c => if c.isDigit then .goto .any2 else NumberState.any2.default

/-- What passing a label makes of `number_type`. -/
def NumberState.enter (numberType : NumberType) : NumberState → NumberType
  | .minus => .integer
  | .decimal1 => .float
  | .exponent => .float
  | _ => numberType

/-- The label `scan_number_done`: `strtoull` and `strtoll` report what does not fit. -/
def convertNumber (numberType : NumberType) (buffer : List Char) : Token :=
  match numberType with
  | .unsigned =>
      let x := Nat.ofDigitChars 10 buffer 0
      if x < 2 ^ 64 then .valueUnsigned x else .valueFloat buffer
  | .integer =>
      let x : Int := -Nat.ofDigitChars 10 (buffer.drop 1) 0
      if -2 ^ 63 ≤ x then .valueInteger x else .valueFloat buffer
  | .float => .valueFloat buffer

/-- `scan_number` from a label on; the character after the number stays. -/
def scanNumber : NumberState → NumberType → List Char → List Char → Token × List Char
  | state, numberType, buffer, [] =>
      match state.default with
      | .fail message => (.parseError message, [])
      | _ => (convertNumber numberType buffer, [])
  | state, numberType, buffer, c :: rest =>
      match state.next c with
      | .goto state' => scanNumber state' (state'.enter numberType) (buffer ++ [c]) rest
      | .done => (convertNumber numberType buffer, c :: rest)
      | .fail message => (.parseError message, rest)

/-! ## The scanner -/

def scanLiteral (token : Token) : List Char → List Char → Token × List Char
  | [], input => (token, input)
  | _ :: _, [] => (.parseError "invalid literal", [])
  | l :: literal, c :: rest =>
      if c = l then scanLiteral token literal rest else (.parseError "invalid literal", rest)

/-- `skip_bom`: the first byte of the mark is the first byte of any character from
U+F000 to U+FFFF. -/
def skipBom : List Char → Option (List Char)
  | [] => some []
  | c :: rest =>
      if 0xF000 ≤ c.toNat ∧ c.toNat ≤ 0xFFFF then if c.toNat = 0xFEFF then some rest else none
      else some (c :: rest)

def isWhitespace (c : Char) : Bool := c = ' ' || c = '\t' || c = '\n' || c = '\r'

/-- The switch of `scan`. -/
def scanToken (c : Char) (rest : List Char) : Token × List Char :=
  match c with
  | '[' => (.beginArray, rest)
  | ']' => (.endArray, rest)
  | '{' => (.beginObject, rest)
  | '}' => (.endObject, rest)
  | ':' => (.nameSeparator, rest)
  | ',' => (.valueSeparator, rest)
  | 't' => scanLiteral .literalTrue ['r', 'u', 'e'] rest
  | 'f' => scanLiteral .literalFalse ['a', 'l', 's', 'e'] rest
  | 'n' => scanLiteral .literalNull ['u', 'l', 'l'] rest
  | '"' => scanString .body [] rest
  | '-' => scanNumber .minus .integer [c] rest
  | '0' => scanNumber .zero .unsigned [c] rest
  | '\x00' => (.endOfInput, rest)
  | _ =>
      if c.isDigit then scanNumber .any1 .unsigned [c] rest
      else (.parseError "invalid literal", rest)

def scan (input : List Char) : Token × List Char :=
  match input.dropWhile isWhitespace with
  | [] => (.endOfInput, [])
  | c :: rest => scanToken c rest

end TraCR
