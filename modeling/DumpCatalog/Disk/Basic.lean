import DumpCatalog.Disk.Entry
import DumpCatalog.Path

/-! # Disks

A disk is a tree of entries with a working directory in it. Paths are followed component by
component, as the system does it: every component has to be looked up in a directory, an empty
component or a single point stays there, and a double point goes up; the top is above itself. -/

namespace DumpCatalog

/-- What is at the top, and where relative paths begin. -/
structure Disk where
  entries : Entries
  working : List FileName

namespace Disk

/-- A disk with nothing on it. -/
def empty : Disk := ⟨[], []⟩

/-- The directory at the top. -/
def top (disk : Disk) : Entry := .directory disk.entries

/-- What is at the end of a chain of names from the top. -/
def entryAt (disk : Disk) (names : List FileName) : Except SystemFault Entry :=
  disk.top.descend (names.map (·.text))

/-- Follows one component. -/
def step (disk : Disk) (names : List FileName) (component : String) :
    Except SystemFault (List FileName) := do
  match ← disk.entryAt names with
  | .file _ => throw .notADirectory
  | .directory entries =>
    if component = "" ∨ component = "." then return names
    else if component = ".." then return names.dropLast
    else
      match Entries.get? entries component with
      | some (name, _) => return names ++ [name]
      | none => throw .noSuchFile

/-- Where a path begins. -/
def start (disk : Disk) (path : String) : List FileName :=
  if Path.isAbsolute path then [] else disk.working

/-- The chain of names to which a path leads. -/
def locate (disk : Disk) (path : String) : Except SystemFault (List FileName) :=
  if path = "" then .error .noSuchFile
  else (Path.components path).foldlM disk.step (disk.start path)

/-- What a path leads to. -/
def lookup (disk : Disk) (path : String) : Except SystemFault Entry := do
  disk.entryAt (← disk.locate path)

/-! ### Changing -/

/-- The disk with an entry at a chain of names that is made from the one there was. -/
def alter (disk : Disk) (names : List FileName) (make : Option Entry → Entry) : Disk :=
  { disk with entries := (Entry.alter names make (some disk.top)).entries }

/-- The disk with a file. -/
def putFile (disk : Disk) (names : List FileName) (content : Bytes) : Disk :=
  disk.alter names fun _ => .file content

/-- The disk with a directory, which keeps what is in it. -/
def putDirectory (disk : Disk) (names : List FileName) : Disk :=
  disk.alter names fun found => .directory ((found.map Entry.entries).getD [])

/-- The disk without what is at a chain of names. -/
def remove (disk : Disk) (names : List FileName) : Disk :=
  { disk with entries := (disk.top.remove names).entries }

/-- Where a file is made that is opened for writing: its directory has to be there, and it may not
be a directory itself. A path that ends in a separator or in points asks for a directory. -/
def locateNew (disk : Disk) (path : String) : Except SystemFault (List FileName) := do
  if path = "" then throw .noSuchFile
  let components := Path.components path
  let named := (components.reverse.dropWhile (·.isEmpty)).reverse
  match named.getLast? with
  | none => throw .isADirectory
  | some last =>
    let names ← named.dropLast.foldlM disk.step (disk.start path)
    match ← disk.entryAt names with
    | .file _ => throw .notADirectory
    | .directory entries =>
      if named.length < components.length then throw .isADirectory
      else
        match FileName.ofText? last, Entries.get? entries last with
        | none, _ => throw .isADirectory
        | some _, some (_, .directory _) => throw .isADirectory
        | some name, _ => return names ++ [name]

end Disk

end DumpCatalog
