import DumpCatalog.Command.Basic
import DumpCatalog.Command.Report
import DumpCatalog.Disk.Archive
import DumpCatalog.Json.Layout
import DumpCatalog.OutputFile
import DumpCatalog.Packing

/-! # Running commands

A command reads the disk and the standard input and leaves an exit code, what it printed, and the
disk as it is then. A fault ends it with code 1, a command line that asks for nothing with code 2.
An output file is made, or emptied, before the dump directory is looked at, and it may take no more
than some bytes.

Of the system's faults there are those of a path that leads nowhere, through a file or to a
directory, and the one of a file that takes no more. Nobody is refused permission to read or to
write, a file can always be made where there is a directory for it, and the standard output takes
everything. -/

namespace DumpCatalog

/-- What commands work on: a disk, a standard input, and how many bytes the disk takes in an output
file; without a limit, every byte. -/
structure Surroundings where
  disk : Disk
  input : Bytes
  room : Option Nat

/-- What a command leaves behind. -/
structure Result where
  code : Nat
  output : Bytes
  errors : String
  disk : Disk
  events : List Event

namespace Command

/-- The path that stands for the standard input or output. -/
def isDash (path : String) : Bool := Path.isJust "-" path

/-- The end of a command that failed. -/
def failed (disk : Disk) (events : List Event) (detail : String) : Result :=
  ⟨1, [], Report.lines ["Error: " ++ detail], disk, events⟩

/-- The end of a command that prints text. -/
def printed (disk : Disk) (logged : Logged String) : Result :=
  match logged.outcome with
  | .ok text => ⟨0, Text.toBytes text, "", disk, logged.events⟩
  | .error fault => failed disk logged.events fault.detail

/-- The catalog of the archive that a path stands for. -/
def openCatalog (surroundings : Surroundings) (path : String) : Logged Catalog :=
  if isDash path then (Catalog.read (Source.ofBytes surroundings.input)).1
  else surroundings.disk.openCatalog path

/-- Packs a directory to the standard output. -/
def packToOutput (disk : Disk) (directory : String) (concurrency : Int32) : Result :=
  let (packed, sink) := (DumpDirectory.mk disk directory).pack concurrency (Sink.empty none)
  match packed.outcome with
  | .error fault => failed disk packed.events fault.detail
  | .ok catalog =>
    ⟨0, sink.held, Report.lines [Report.packed directory catalog.size], disk, packed.events⟩

/-- Packs a directory to a file. The file is closed in any case, and what was gathered for it goes on
to it as far as it takes it. -/
def packToFile (disk : Disk) (room : Option Nat) (directory output : String) (concurrency : Int32) :
    Result :=
  match disk.locateNew output with
  | .error fault => failed disk [] (IoFault.system fault).detail
  | .ok names =>
    let (packed, written) := (DumpDirectory.mk (disk.putFile names []) directory).packBy concurrency
      (OutputFile.empty room) OutputFile.writeAll
    let left := disk.putFile names written.closed.held
    match packed.outcome with
    | .error fault => failed left packed.events fault.detail
    | .ok catalog =>
      match written.flush.1 with
      | .error fault => failed left packed.events fault.detail
      | .ok () =>
        ⟨0, [], Report.lines ["Created: " ++ output, Report.packed directory catalog.size], left,
          packed.events⟩

/-- The metadata of a namespace, as it is stored or with its layout put in order. -/
def showMetadata (catalog : Catalog) (fullName : String) (raw : Bool) : Except Fault String := do
  let (database, collection) := splitNamespace fullName
  let text ← catalog.metadataText database collection
  return Report.lines [if raw then text else Json.reformat text]

/-- Runs a command. -/
def run (surroundings : Surroundings) : Command → Result
  | .pack directory output concurrency =>
    if isDash output then packToOutput surroundings.disk directory concurrency
    else packToFile surroundings.disk surroundings.room directory output concurrency
  | .list input => printed surroundings.disk do
    let catalog ← openCatalog surroundings input
    return Report.listing (← Logged.ofExcept catalog.listing)
  | .info input => printed surroundings.disk do
    return Report.summary input (← openCatalog surroundings input)
  | .metadata input fullName raw => printed surroundings.disk do
    let catalog ← openCatalog surroundings input
    Logged.ofExcept (showMetadata catalog fullName raw)

/-- Runs what a command line asks for. -/
def runArguments (surroundings : Surroundings) (args : List String) : Result :=
  match ofArguments? args with
  | some invocation => run surroundings invocation.command
  | none => ⟨2, [], "", surroundings.disk, []⟩

end Command

end DumpCatalog
