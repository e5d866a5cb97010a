import DumpCatalog.Bson.Content
import DumpCatalog.Decimal.Layout
import DumpCatalog.Text.Quoted

/-! # Reading fields

A record is read from a document field by field: a field has a name and a type, comes at most once,
and may be demanded. What can go wrong is a `DecodeFault`; `Content.text`, `Content.int32` and
`Content.int64` say which contents a field of each type accepts. -/

namespace DumpCatalog.Bson

/-- The types of fields. -/
inductive FieldType where
  | text
  | int32
  | int64
  deriving DecidableEq, Repr

/-- Why a document is not what its reader wants. -/
inductive DecodeFault where
  | malformed
  | missingField (name : String)
  | duplicateField (name : String)
  | wrongType (found : Content) (wanted : FieldType)
  | outOfRange (value : Int) (wanted : FieldType)
  | bytesNotText
  deriving DecidableEq, Repr

/-! ### Messages -/

/-- The type of a field, as messages name it. -/
def FieldType.message : FieldType → String
  | text => "a string"
  | int32 => "i32"
  | int64 => "i64"

/-- A content, as messages name it. -/
def Content.message : Content → String
  | text t => "string " ++ Text.quoted t
  | bytes _ => "byte array"
  | integer n => "integer `" ++ toString n ++ "`"
  | floating bits => "floating point `" ++ Decimal.messageFormat.render bits ++ "`"
  | boolean b => "boolean `" ++ (if b then "true" else "false") ++ "`"
  | unit => "unit value"
  | sequence => "sequence"
  | mapping => "map"

/-- A fault in words. -/
def DecodeFault.message : DecodeFault → String
  | malformed => "malformed document"
  | missingField name => "missing field `" ++ name ++ "`"
  | duplicateField name => "duplicate field `" ++ name ++ "`"
  | wrongType found wanted => "invalid type: " ++ found.message ++ ", expected " ++ wanted.message
  | outOfRange n wanted =>
    "invalid value: integer `" ++ toString n ++ "`, expected " ++ wanted.message
  | bytesNotText => "invalid value: byte array, expected a string"

/-! ### Contents of a type -/

/-- A text field takes text, and bytes that write one. -/
def Content.toText : Content → Except DecodeFault String
  | text t => .ok t
  | bytes data =>
    match Text.ofBytes? data with
    | some t => .ok t
    | none => .error .bytesNotText
  | found => .error (.wrongType found .text)

/-- A field of 32 bits takes every integer in its range. -/
def Content.toInt32 : Content → Except DecodeFault Int32
  | integer n =>
    if Int32.minValue.toInt ≤ n ∧ n ≤ Int32.maxValue.toInt then .ok (Int32.ofInt n)
    else .error (.outOfRange n .int32)
  | found => .error (.wrongType found .int32)

/-- A field of 64 bits takes every integer in its range. -/
def Content.toInt64 : Content → Except DecodeFault Int64
  | integer n =>
    if Int64.minValue.toInt ≤ n ∧ n ≤ Int64.maxValue.toInt then .ok (Int64.ofInt n)
    else .error (.outOfRange n .int64)
  | found => .error (.wrongType found .int64)

/-! ### Fields of a document -/

/-- The content of an element, which has to follow the rules of its kind. -/
def Element.content (e : Element) : Except DecodeFault Content :=
  match e.content? with
  | some content => .ok content
  | none => .error .malformed

/-- Reads an element into a field that is still unset. That the field was set before is reported
ahead of anything that its second value may have wrong. -/
def Element.readOnce {α : Type} (e : Element) (field : Option α)
    (read : Content → Except DecodeFault α) : Except DecodeFault (Option α) :=
  match field with
  | some _ => .error (.duplicateField e.name)
  | none => do return some (← read (← e.content))

/-- An element that no field takes is skipped, but it has to be sound. -/
def Element.skip (e : Element) : Except DecodeFault Unit :=
  if e.isSound then .ok () else .error .malformed

/-- The value of a field that has to be there. -/
def demand {α : Type} (name : String) : Option α → Except DecodeFault α
  | some value => .ok value
  | none => .error (.missingField name)

/-- Reads a document element by element into a draft. The first fault in the order of the elements
wins, and a walk that breaks off counts as a fault after the elements before it. -/
def readDocument {σ : Type} (step : σ → Element → Except DecodeFault σ) (start : σ) (doc : Bytes) :
    Except DecodeFault σ :=
  match body? doc with
  | none => .error .malformed
  | some bs => do
    let draft ← (elements bs).1.foldlM step start
    if (elements bs).2 then return draft else throw .malformed

end DumpCatalog.Bson
