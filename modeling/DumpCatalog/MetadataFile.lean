import DumpCatalog.Catalog.Basic
import DumpCatalog.Disk.Basic

/-! # Metadata files

The metadata text of a namespace comes from memory, from a catalog, or from a file on disk. It is
read in sessions: a file is opened, read from front to back, and closed. Text in memory is always
open and is read once. -/

namespace DumpCatalog

/-- What an open file still has to give. A directory opens like a file, but no read of it
succeeds. -/
inductive Session where
  | bytes (rest : Bytes)
  | directory
  deriving DecidableEq, Repr

namespace Session

/-- Reads at most `room` bytes. -/
def read (session : Session) (room : Nat) : Except IoFault Bytes × Session :=
  match session with
  | .bytes rest => (.ok (rest.take room), .bytes (rest.drop room))
  | .directory => (.error (.system .isADirectory), .directory)

/-- Reads all that is left as text. What is no text is taken all the same. -/
def readText (session : Session) : Except IoFault String × Session :=
  match session with
  | .bytes rest =>
    match Text.ofBytes? rest with
    | some text => (.ok text, .bytes [])
    | none => (.error .notText, .bytes [])
  | .directory => (.error (.system .isADirectory), .directory)

end Session

/-- A metadata file, with its session if it is open. -/
inductive MetadataFile where
  | memory (text : String) (session : Session)
  | stored (catalog : Catalog) (database collection : String) (session : Option Session)
  | disk (path : String) (session : Option Session)
  deriving DecidableEq, Repr

namespace Catalog

/-- The metadata text of a collection's first record. -/
def metadata? (catalog : Catalog) (database collection : String) : Option String :=
  if collection.isEmpty then none
  else do
    let records ← catalog.recordsIn? database
    let record ← records.find? fun record => record.collection = collection
    return record.metadata

end Catalog

namespace MetadataFile

/-- Text in memory. -/
def ofText (text : String) : MetadataFile := .memory text (.bytes (Text.toBytes text))

/-- The metadata of a collection in a catalog, closed. -/
def ofCatalog (catalog : Catalog) (database collection : String) : MetadataFile :=
  .stored catalog database collection none

/-- A file on disk, closed. -/
def ofPath (path : String) : MetadataFile := .disk path none

/-- The session of an open file. -/
def session? : MetadataFile → Option Session
  | .memory _ session => some session
  | .stored _ _ _ session => session
  | .disk _ session => session

/-- The file in another session. -/
def withSession (file : MetadataFile) (session : Session) : MetadataFile :=
  match file with
  | .memory text _ => .memory text session
  | .stored catalog database collection _ => .stored catalog database collection (some session)
  | .disk path _ => .disk path (some session)

/-- Whether the file is open. -/
def isOpen (file : MetadataFile) : Bool := file.session?.isSome

/-- The whole text of a file that is held in memory, whatever has been read of it. -/
def heldText? : MetadataFile → Option String
  | .memory text _ => some text
  | _ => none

/-- The session that opening a path begins. -/
def openPath (system : Disk) (path : String) : Except SystemFault Session := do
  match ← system.lookup path with
  | .file content => return .bytes content
  | .directory _ => return .directory

/-- Begins a session at the front of the file; text in memory goes on where it was. -/
def openOn (system : Disk) (file : MetadataFile) : Except Fault Unit × MetadataFile :=
  match file with
  | .memory .. => (.ok (), file)
  | .stored catalog database collection _ =>
    match catalog.metadata? database collection with
    | some text => (.ok (), file.withSession (.bytes (Text.toBytes text)))
    | none => (.error (.noSuchFile (namespaceOf database collection)), file)
  | .disk path _ =>
    match openPath system path with
    | .ok session => (.ok (), file.withSession session)
    | .error fault => (.error (.io (.system fault)), file)

/-- Ends the session; text in memory stays open. -/
def close : MetadataFile → MetadataFile
  | .memory text session => .memory text session
  | .stored catalog database collection _ => .stored catalog database collection none
  | .disk path _ => .disk path none

/-- Reads at most `room` bytes of an open file. -/
def read (file : MetadataFile) (room : Nat) : Except IoFault Bytes × MetadataFile :=
  match file.session? with
  | none => (.error .notOpen, file)
  | some session =>
    let (result, later) := session.read room
    (result, file.withSession later)

/-- Reads all that is left of an open file as text. -/
def readText (file : MetadataFile) : Except IoFault String × MetadataFile :=
  match file.session? with
  | none => (.error .notOpen, file)
  | some session =>
    let (result, later) := session.readText
    (result, file.withSession later)

/-- Opens the file, reads its text, and closes it again. After a fault it stays as it is. -/
def readWhole (system : Disk) (file : MetadataFile) : Except Fault String × MetadataFile :=
  match file.openOn system with
  | (.error fault, file) => (.error fault, file)
  | (.ok (), file) =>
    match file.readText with
    | (.error fault, file) => (.error (.io fault), file)
    | (.ok text, file) => (.ok text, file.close)

end MetadataFile

end DumpCatalog
