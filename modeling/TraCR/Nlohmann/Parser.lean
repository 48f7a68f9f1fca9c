import TraCR.Engine.Json
import TraCR.Nlohmann.Lexer

/-!
# The parser of the JSON library

`sax_parse_internal` of the class `parser` with the events of `json_sax_dom_parser`, as
`std::istream >> nlohmann::json` runs them.  The parser is a loop with a stack; every state
waits for the next token.
-/

namespace TraCR

/-- A container on the stack, waiting for a value: an element, or the value of a key. -/
inductive Frame where
  | array (elements : List Json)
  | object (fields : List (String × Json)) (key : String)

/-- Where `sax_parse_internal` waits for a token, with the stack of the open containers. -/
inductive ParserState where
  /-- The switch over `last_token`. -/
  | value (stack : List Frame)
  /-- After the bracket that begins an array. -/
  | arrayStart (stack : List Frame)
  /-- After the brace that begins an object. -/
  | objectStart (stack : List Frame)
  /-- After a comma in an object. -/
  | objectKey (fields : List (String × Json)) (stack : List Frame)
  /-- After a key. -/
  | separator (fields : List (String × Json)) (key : String) (stack : List Frame)
  /-- After an element of an array. -/
  | arrayNext (elements : List Json) (stack : List Frame)
  /-- After the value of a field. -/
  | objectNext (fields : List (String × Json)) (stack : List Frame)
  /-- The stack is empty. -/
  | done (result : Json)

/-- What `exception_message` is made from: the last token, the token that was expected
instead, if one was, and what was being parsed. -/
structure ParseError where
  lastToken : Token
  expected : Option String
  context : String
deriving DecidableEq, Repr

inductive ParseFailure where
  | syntaxError (e : ParseError)
  /-- A number that is no integer, or none of 64 bits: the values of the model have none. -/
  | float (text : List Char)
  /-- The loop has not come to its end. -/
  | unfinished
deriving DecidableEq, Repr

def failParse {α : Type} (lastToken : Token) (expected : Option String) (context : String) :
    Except ParseFailure α :=
  .error (.syntaxError ⟨lastToken, expected, context⟩)

/-- `handle_value` and the evaluation of the state: the value goes into the container on
top of the stack.  A key that is there already gets the new value. -/
def finishValue (stack : List Frame) (value : Json) : ParserState :=
  match stack with
  | [] => .done value
  | .array elements :: stack => .arrayNext (elements ++ [value]) stack
  | .object fields key :: stack => .objectNext (insertField key value fields) stack

/-- The switch over `last_token`. -/
def startValue (stack : List Frame) : Token → Except ParseFailure ParserState
  | .beginObject => .ok (.objectStart stack)
  | .beginArray => .ok (.arrayStart stack)
  | .valueFloat text => .error (.float text)
  | .literalFalse => .ok (finishValue stack (.boolean false))
  | .literalNull => .ok (finishValue stack .null)
  | .literalTrue => .ok (finishValue stack (.boolean true))
  | .valueInteger n => .ok (finishValue stack (.number n))
  | .valueString s => .ok (finishValue stack (.string s))
  | .valueUnsigned n => .ok (finishValue stack (.number n))
  | .parseError message => failParse (.parseError message) none "value"
  | token => failParse token (some "'[', '\x7b', or a literal") "value"

def ParserState.feed : ParserState → Token → Except ParseFailure ParserState
  | .value stack, token => startValue stack token
  | .arrayStart stack, token =>
      match token with
      | .endArray => .ok (finishValue stack (.array []))
      | token => startValue (.array [] :: stack) token
  | .objectStart stack, token =>
      match token with
      | .endObject => .ok (finishValue stack (.object []))
      | .valueString key => .ok (.separator [] key stack)
      | token => failParse token (some "string literal") "object key"
  | .objectKey fields stack, token =>
      match token with
      | .valueString key => .ok (.separator fields key stack)
      | token => failParse token (some "string literal") "object key"
  | .separator fields key stack, token =>
      match token with
      | .nameSeparator => .ok (.value (.object fields key :: stack))
      | token => failParse token (some "':'") "object separator"
  | .arrayNext elements stack, token =>
      match token with
      | .valueSeparator => .ok (.value (.array elements :: stack))
      | .endArray => .ok (finishValue stack (.array elements))
      | token => failParse token (some "']'") "array"
  | .objectNext fields stack, token =>
      match token with
      | .valueSeparator => .ok (.objectKey fields stack)
      | .endObject => .ok (finishValue stack (.object fields))
      | token => failParse token (some "'\x7d'") "object"
  | .done result, _ => .ok (.done result)

/-- The loop, for a number of tokens: the value and the input after it. -/
def parseLoop : Nat → ParserState → List Char → Except ParseFailure (Json × List Char)
  | _, .done result, input => .ok (result, input)
  | 0, _, _ => .error .unfinished
  | tokens + 1, state, input => do
      let state ← state.feed (scan input).1
      parseLoop tokens state (scan input).2

/-- `parse(false, result)`: what comes after the value is not read. -/
def parseJson (input : List Char) : Except ParseFailure (Json × List Char) :=
  match skipBom input with
  | none =>
      failParse (.parseError "invalid BOM; must be 0xEF 0xBB 0xBF if given") none "value"
  | some input => parseLoop (input.length + 1) (.value []) input

end TraCR
