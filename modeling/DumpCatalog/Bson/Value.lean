import DumpCatalog.Text.Utf8

/-! # Documents and their written form

A document is a list of named values, which may be documents again. It is written as its length,
its elements (a tag, a name, a value each) and a closing zero. -/

namespace DumpCatalog.Bson

/-- The kinds of value. -/
inductive Tag where
  | double | string | document | array | binary | undefined | objectId | boolean | dateTime | null
  | regex | dbPointer | code | symbol | codeWithScope | int32 | timestamp | int64 | decimal128
  | minKey | maxKey
  deriving DecidableEq, Repr

namespace Tag

/-- The byte that announces a kind of value. -/
def toByte : Tag → UInt8
  | double => 0x01
  | string => 0x02
  | document => 0x03
  | array => 0x04
  | binary => 0x05
  | undefined => 0x06
  | objectId => 0x07
  | boolean => 0x08
  | dateTime => 0x09
  | null => 0x0A
  | regex => 0x0B
  | dbPointer => 0x0C
  | code => 0x0D
  | symbol => 0x0E
  | codeWithScope => 0x0F
  | int32 => 0x10
  | timestamp => 0x11
  | int64 => 0x12
  | decimal128 => 0x13
  | minKey => 0xFF
  | maxKey => 0x7F

/-- Every kind of value. -/
def all : List Tag :=
  [double, string, document, array, binary, undefined, objectId, boolean, dateTime, null, regex,
    dbPointer, code, symbol, codeWithScope, int32, timestamp, int64, decimal128, minKey, maxKey]

/-- The kind of value that a byte announces. -/
def ofByte? (byte : UInt8) : Option Tag := all.find? (·.toByte == byte)

@[simp] theorem ofByte?_toByte (tag : Tag) : ofByte? tag.toByte = some tag := by
  cases tag <;> decide

end Tag

/-- A value of a document, whole. Arrays are documents whose names are not looked at. -/
inductive Value where
  | double (bits : UInt64)
  | string (text : String)
  | document (fields : List (String × Value))
  | array (fields : List (String × Value))
  | binary (subtype : UInt8) (data : Bytes)
  | undefined
  | objectId (data : Vector UInt8 12)
  | boolean (value : Bool)
  | dateTime (milliseconds : Int64)
  | null
  | regex (pattern options : String)
  | dbPointer (collection : String) (data : Vector UInt8 12)
  | code (text : String)
  | symbol (text : String)
  | codeWithScope (text : String) (scope : List (String × Value))
  | int32 (value : Int32)
  | timestamp (value : UInt64)
  | int64 (value : Int64)
  | decimal128 (data : Vector UInt8 16)
  | minKey
  | maxKey

/-- The kind of a value. -/
def Value.tag : Value → Tag
  | double _ => .double
  | string _ => .string
  | document _ => .document
  | array _ => .array
  | binary .. => .binary
  | undefined => .undefined
  | objectId _ => .objectId
  | boolean _ => .boolean
  | dateTime _ => .dateTime
  | null => .null
  | regex .. => .regex
  | dbPointer .. => .dbPointer
  | code _ => .code
  | symbol _ => .symbol
  | codeWithScope .. => .codeWithScope
  | int32 _ => .int32
  | timestamp _ => .timestamp
  | int64 _ => .int64
  | decimal128 _ => .decimal128
  | minKey => .minKey
  | maxKey => .maxKey

/-! ### Written form -/

/-- The length of what follows, as a signed word of 32 bits. -/
def lengthSlot (n : Nat) : Bytes := Bytes.ofNat 4 n

/-- Text that ends at the first zero byte. -/
def cstringBytes (text : String) : Bytes := Text.toBytes text ++ [0]

/-- Text after its length, which counts the zero byte behind it. -/
def textBytes (text : String) : Bytes :=
  lengthSlot ((Text.toBytes text).length + 1) ++ Text.toBytes text ++ [0]

/-- Elements between the length of the whole and a closing zero. -/
def frame (elements : Bytes) : Bytes := lengthSlot (elements.length + 5) ++ elements ++ [0]

mutual

/-- The written form of a value, without its tag and name. -/
def Value.toBytes : Value → Bytes
  | .double bits => Bytes.ofUInt64 bits
  | .string text => textBytes text
  | .document fields => frame (elementBytes fields)
  | .array fields => frame (elementBytes fields)
  | .binary subtype data => lengthSlot data.length ++ subtype :: data
  | .undefined => []
  | .objectId data => data.toList
  | .boolean value => [if value then 1 else 0]
  | .dateTime milliseconds => Bytes.ofInt64 milliseconds
  | .null => []
  | .regex pattern options => cstringBytes pattern ++ cstringBytes options
  | .dbPointer collection data => textBytes collection ++ data.toList
  | .code text => textBytes text
  | .symbol text => textBytes text
  | .codeWithScope text scope =>
    let parts := textBytes text ++ frame (elementBytes scope)
    lengthSlot (parts.length + 4) ++ parts
  | .int32 value => Bytes.ofInt32 value
  | .timestamp value => Bytes.ofUInt64 value
  | .int64 value => Bytes.ofInt64 value
  | .decimal128 data => data.toList
  | .minKey => []
  | .maxKey => []

/-- The written form of named values: tag, name and value of each. -/
def elementBytes : List (String × Value) → Bytes
  | [] => []
  | (name, value) :: fields =>
    value.tag.toByte :: cstringBytes name ++ value.toBytes ++ elementBytes fields

end

/-- The written form of a document. -/
def documentBytes (fields : List (String × Value)) : Bytes := frame (elementBytes fields)

@[simp] theorem length_lengthSlot (n : Nat) : (lengthSlot n).length = 4 := Bytes.length_ofNat ..

theorem length_frame (elements : Bytes) : (frame elements).length = elements.length + 5 := by
  simp [frame]; omega

theorem take_frame (elements : Bytes) :
    (frame elements).take 4 = lengthSlot (frame elements).length := by
  rw [length_frame, frame, List.append_assoc]
  exact List.take_left' (length_lengthSlot _)

end DumpCatalog.Bson
