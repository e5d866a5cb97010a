import DumpCatalog.Bson.Field

/-! # Faults

What can go wrong with an archive, a dump directory, or the bytes they are made of. A fault is a
cause; `Fault.message` puts it in words for a reader, and `Fault.detail` spells it out with its
parts, as the command line reports it. -/

namespace DumpCatalog

/-! ### Input and output -/

/-- What the system says of a path, or of a file that it cannot extend. -/
inductive SystemFault where
  | noSuchFile
  | notADirectory
  | isADirectory
  | noSpace
  deriving DecidableEq, Repr

/-- Why bytes could not be read or written. -/
inductive IoFault where
  /-- The source ended before all wanted bytes had come. -/
  | shortRead
  /-- The source ended inside a length. -/
  | tornLength
  /-- The sink took no more. -/
  | sinkFull
  /-- The source failed of its own accord. -/
  | sourceFailed
  /-- The bytes do not write a text. -/
  | notText
  /-- The metadata file is closed. -/
  | notOpen
  | system (fault : SystemFault)
  deriving DecidableEq, Repr

namespace SystemFault

/-- The number that the system gives a fault. -/
def code : SystemFault → Nat
  | noSuchFile => 2
  | notADirectory => 20
  | isADirectory => 21
  | noSpace => 28

/-- The fault as the system words it. -/
def text : SystemFault → String
  | noSuchFile => "No such file or directory"
  | notADirectory => "Not a directory"
  | isADirectory => "Is a directory"
  | noSpace => "No space left on device"

/-- The kind of the fault. -/
def kind : SystemFault → String
  | noSuchFile => "NotFound"
  | notADirectory => "NotADirectory"
  | isADirectory => "IsADirectory"
  | noSpace => "StorageFull"

end SystemFault

namespace IoFault

/-- The fault in words. -/
def message : IoFault → String
  | shortRead => "failed to fill whole buffer"
  | tornLength => "unexpected end of file"
  | sinkFull => "failed to write whole buffer"
  | sourceFailed => "reader failed"
  | notText => "stream did not contain valid UTF-8"
  | notOpen => "metadata file is not open"
  | system fault => fault.text ++ " (os error " ++ toString fault.code ++ ")"

/-- A fault with a kind and a message, spelled out. -/
def labelled (form field kind message : String) : String :=
  form ++ " \x7b kind: " ++ kind ++ ", " ++ field ++ ": " ++ Text.quoted message ++ " \x7d"

/-- The fault with its parts. -/
def detail (fault : IoFault) : String :=
  match fault with
  | shortRead => labelled "Error" "message" "UnexpectedEof" fault.message
  | tornLength => "Kind(UnexpectedEof)"
  | sinkFull => labelled "Error" "message" "WriteZero" fault.message
  | sourceFailed => labelled "Custom" "error" "Other" fault.message
  | notText => labelled "Error" "message" "InvalidData" fault.message
  | notOpen => labelled "Custom" "error" "Other" fault.message
  | system cause =>
    "Os \x7b code: " ++ toString cause.code ++ ", kind: " ++ cause.kind ++ ", message: " ++
      Text.quoted cause.text ++ " \x7d"

end IoFault

/-! ### Archives and dump directories -/

/-- What can go wrong. -/
inductive Fault where
  /-- The stream begins with other bytes than an archive. -/
  | formatMismatch (found : UInt32)
  | decode (cause : Bson.DecodeFault)
  | io (cause : IoFault)
  | invalidBlockSize (size : Int32)
  /-- The terminator came before the header. -/
  | missingHeader
  /-- The stream ended where a block or the terminator had to begin. -/
  | truncated
  | notADirectory (path : String)
  | noSuchDirectory (database : String)
  | noSuchFile (fullName : String)
  /-- The metadata file of an intent is not held in memory. -/
  | foreignMetadataFile (fullName : String)
  deriving DecidableEq, Repr

namespace Fault

/-- A word of 32 bits as eight digits in base sixteen. -/
def hexWord (n : UInt32) : String :=
  let digits := Text.hexDigits n.toNat
  "0x" ++ String.ofList (List.replicate (8 - digits.length) '0' ++ digits)

/-- The fault in words. -/
def message : Fault → String
  | formatMismatch found =>
    "stream does not appear to be a dump archive (magic number " ++ hexWord found ++ ")"
  | decode cause => "malformed prelude document: " ++ cause.message
  | io cause => "IO error: " ++ cause.message
  | invalidBlockSize size => "invalid block size: " ++ toString size.toInt
  | missingHeader => "block sequence has no header document"
  | truncated => "prelude ended before its terminator"
  | notADirectory path => "not a directory: " ++ path
  | noSuchDirectory database => "no such directory in archive: " ++ Text.quoted database
  | noSuchFile fullName => "no such file in archive: " ++ Text.quoted fullName
  | foreignMetadataFile fullName =>
    "metadata file for " ++ Text.quoted fullName ++ " is not an in-memory archive buffer"

/-- A fault with one named part, spelled out. -/
def withPart (name part value : String) : String :=
  name ++ " \x7b " ++ part ++ ": " ++ value ++ " \x7d"

/-- The fault with its parts. -/
def detail : Fault → String
  | formatMismatch found => withPart "FormatMismatch" "found" (toString found.toNat)
  | decode cause => "Decode(" ++ cause.message ++ ")"
  | io cause => "Io(" ++ cause.detail ++ ")"
  | invalidBlockSize size => "InvalidBlockSize(" ++ toString size.toInt ++ ")"
  | missingHeader => "MissingHeader"
  | truncated => "TruncatedPrelude"
  | notADirectory path => withPart "NotADirectory" "path" (Text.quoted path)
  | noSuchDirectory database => withPart "NoSuchEntry" "database" (Text.quoted database)
  | noSuchFile fullName => withPart "NoSuchFile" "namespace" (Text.quoted fullName)
  | foreignMetadataFile fullName =>
    withPart "UnexpectedMetadataFile" "namespace" (Text.quoted fullName)

end Fault

end DumpCatalog
