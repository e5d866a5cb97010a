import DumpCatalog.Json.Token

/-! # Values of a JSON text

A value is built from tokens one by one. A builder holds the arrays and objects that are still open,
innermost first, and what may come next. Objects keep their members in the order of first
appearance; a member that comes again gets its last value. -/

namespace DumpCatalog.Json

/-- A value. -/
inductive Value where
  | null
  | boolean (value : Bool)
  | number (value : Number)
  | text (text : String)
  | array (items : List Value)
  | object (members : List (String × Value))

namespace Value

/-- Sets a member where it is, or behind the others. -/
def setMember (members : List (String × Value)) (name : String) (value : Value) :
    List (String × Value) :=
  match members with
  | [] => [(name, value)]
  | (other, old) :: later =>
    if other = name then (name, value) :: later else (other, old) :: setMember later name value

/-- An array or an object that is still open. Items stand in reverse order. -/
inductive Frame where
  | array (reversed : List Value)
  | object (members : List (String × Value)) (name : String)

/-- What may come next. -/
inductive Expected where
  | value
  | valueOrEnd
  | nameOrEnd
  | name
  | colon
  | commaOrEnd
  | nothing
  deriving DecidableEq, Repr

/-- The open arrays and objects, what may come next, and the whole value once it is there. -/
structure Builder where
  frames : List Frame
  expected : Expected
  result : Option Value

/-- How deep arrays and objects may be nested. -/
def maxDepth : Nat := 127

namespace Builder

/-- Takes a value that is whole. -/
def take (builder : Builder) (value : Value) : Builder :=
  match builder.frames with
  | [] => ⟨[], .nothing, some value⟩
  | .array reversed :: frames => ⟨.array (value :: reversed) :: frames, .commaOrEnd, none⟩
  | .object members name :: frames =>
    ⟨.object (setMember members name value) name :: frames, .commaOrEnd, none⟩

/-- Whether a value may come next. -/
def wantsValue (builder : Builder) : Bool :=
  builder.expected = .value || builder.expected = .valueOrEnd

/-- Takes a value of one token. -/
def takeScalar (builder : Builder) (value : Value) : Option Builder :=
  if builder.wantsValue then some (builder.take value) else none

/-- Opens an array or object. -/
def enter (builder : Builder) (frame : Frame) (expected : Expected) : Option Builder :=
  if builder.wantsValue && decide (builder.frames.length < maxDepth) then
    some ⟨frame :: builder.frames, expected, none⟩
  else none

/-- Closes the innermost array or object with the value that it is. -/
def leave (builder : Builder) (frames : List Frame) (value : Value) : Builder :=
  { builder with frames := frames }.take value

/-- Takes a token. -/
def step (builder : Builder) (token : Token) : Option Builder :=
  match token with
  | .null => builder.takeScalar .null
  | .boolean b => builder.takeScalar (.boolean b)
  | .number n => builder.takeScalar (.number n)
  | .text t =>
    match builder.expected, builder.frames with
    | .name, .object members _ :: frames => some ⟨.object members t :: frames, .colon, none⟩
    | .nameOrEnd, .object members _ :: frames => some ⟨.object members t :: frames, .colon, none⟩
    | _, _ => builder.takeScalar (.text t)
  | .openArray => builder.enter (.array []) .valueOrEnd
  | .openObject => builder.enter (.object [] "") .nameOrEnd
  | .closeArray =>
    match builder.frames with
    | .array reversed :: frames =>
      if builder.expected = .commaOrEnd ∨ builder.expected = .valueOrEnd then
        some (builder.leave frames (.array reversed.reverse))
      else none
    | _ => none
  | .closeObject =>
    match builder.frames with
    | .object members _ :: frames =>
      if builder.expected = .commaOrEnd ∨ builder.expected = .nameOrEnd then
        some (builder.leave frames (.object members))
      else none
    | _ => none
  | .comma =>
    if builder.expected = .commaOrEnd then
      match builder.frames with
      | .array _ :: _ => some { builder with expected := .value }
      | .object .. :: _ => some { builder with expected := .name }
      | [] => none
    else none
  | .colon => if builder.expected = .colon then some { builder with expected := .value } else none

end Builder

/-- The value that tokens write. -/
def ofTokens? (tokens : List Token) : Option Value :=
  (tokens.foldlM Builder.step ⟨[], .value, none⟩).bind Builder.result

/-- The value that a text writes. -/
def ofText? (text : String) : Option Value := (Token.ofText? text.toList).bind ofTokens?

end Value

end DumpCatalog.Json
