import OutOfOrder.Json.Token

/-!
# JSON values

A value is read from its tokens by a machine with a stack. Each open bracket has a frame on the
stack, which collects the elements or members read so far; a closing bracket turns the frame into a
value. Values may therefore be nested to any depth.

Objects keep all their members in the order of the text, repeated names included: which of them
count, and whether a repetition matters, is for the reader of the value to decide.

## Main definitions

* `Value` — what a JSON text says
* `Reader`, `Reader.step` — the machine, and what it does with one token
* `Value.ofText?` — the value of a text
-/

namespace OutOfOrder.Json

/-- What a JSON text says. Numbers are kept as they are written. The name of a member, and a string,
is absent if it is not well formed. -/
inductive Value where
  | null
  | boolean (value : Bool)
  | number (digits : List Char)
  | string (contents : Option String)
  | array (elements : List Value)
  | object (members : List (Option String × Value))

/-- An open bracket and what has been read behind it, the last first. -/
inductive Frame where
  /-- An array. -/
  | elements (read : List Value)
  /-- An object, of which the member with the given name is being read. -/
  | members (read : List (Option String × Value)) (name : Option String)

/-- What may come next, with the brackets that are open, the innermost first. -/
inductive Reader where
  /-- A value. -/
  | value (frames : List Frame)
  /-- A first element, or the end of the array. -/
  | element (frames : List Frame)
  /-- A first name, or the end of the object. -/
  | member (frames : List Frame)
  /-- A name. -/
  | name (read : List (Option String × Value)) (frames : List Frame)
  /-- The colon behind a name. -/
  | colon (read : List (Option String × Value)) (name : Option String) (frames : List Frame)
  /-- What comes behind a value. -/
  | after (v : Value) (frames : List Frame)

namespace Reader

/-- Begin a value. -/
def begin (frames : List Frame) : Token → Option Reader
  | .null => some (after .null frames)
  | .boolean b => some (after (.boolean b) frames)
  | .number ds => some (after (.number ds) frames)
  | .string s => some (after (.string s) frames)
  | .openArray => some (element frames)
  | .openObject => some (member frames)
  | _ => none

/-- Take one token. -/
def step : Reader → Token → Option Reader
  | value frames, t => begin frames t
  | element frames, .closeArray => some (after (.array []) frames)
  | element frames, t => begin (.elements [] :: frames) t
  | member frames, .closeObject => some (after (.object []) frames)
  | member frames, .string s => some (colon [] s frames)
  | name read frames, .string s => some (colon read s frames)
  | colon read s frames, .colon => some (value (.members read s :: frames))
  | after v (.elements read :: frames), .comma => some (value (.elements (v :: read) :: frames))
  | after v (.elements read :: frames), .closeArray =>
    some (after (.array (v :: read).reverse) frames)
  | after v (.members read s :: frames), .comma => some (name ((s, v) :: read) frames)
  | after v (.members read s :: frames), .closeObject =>
    some (after (.object ((s, v) :: read).reverse) frames)
  | _, _ => none

/-- Take tokens one after the other. -/
def steps (r : Reader) (ts : List Token) : Option Reader := ts.foldlM step r

/-- The value that has been read, if nothing is missing. -/
def result? : Reader → Option Value
  | after v [] => some v
  | _ => none

end Reader

namespace Value

/-- The value that a list of tokens makes up. -/
def ofTokens? (ts : List Token) : Option Value := ((Reader.value []).steps ts).bind Reader.result?

/-- The value of a JSON text. -/
def ofText? (text : String) : Option Value := (Token.ofText? text.toList).bind ofTokens?

end Value

end OutOfOrder.Json
