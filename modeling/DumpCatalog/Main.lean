import DumpCatalog.Command.Run

/-! # The program

Loads what a command names from the system, runs the command, and carries out what it leaves
behind. Everything is decided in the command itself. -/

namespace DumpCatalog.Program

/-- The names in a path. -/
def namesOf (path : String) : List FileName :=
  (Path.components path).filterMap FileName.ofText?

/-- The path from the top to the end of a chain of names. -/
def absolutePath (names : List FileName) : String :=
  "/" ++ String.intercalate "/" (names.map (·.text))

/-- Loads what is at the end of a chain of names, itself alone or with all below it. -/
partial def load (deep : Bool) (disk : Disk) (names : List FileName) : IO Disk := do
  let place := (← IO.currentDir) / absolutePath names
  if ← place.isDir then
    let mut disk := disk.putDirectory names
    if deep then
      for entry in ← place.readDir do
        if let some name := FileName.ofText? entry.fileName then
          disk ← load deep disk (names ++ [name])
    return disk
  else if ← place.pathExists then
    return disk.putFile names (← IO.FS.readBinFile place).data.toList
  else return disk

/-- Loads a path, with the directories on the way to it. -/
def loadPath (deep : Bool) (disk : Disk) (path : String) : IO Disk := do
  let mut disk := disk
  let mut names := disk.start path
  for component in Path.components path do
    if component == ".." then names := names.dropLast
    else if let some name := FileName.ofText? component then names := names ++ [name]
    disk ← load false disk names
  if deep then load true disk names else return disk

/-- Loads what a command looks at. -/
def loadFor (disk : Disk) : Command → IO Disk
  | .pack directory output _ => do loadPath false (← loadPath true disk directory) output
  | .list input | .info input | .metadata input _ _ => loadPath false disk input

/-- Reads a stream to its end. -/
partial def readToEnd (stream : IO.FS.Stream) (front : Bytes) : IO Bytes := do
  let piece ← stream.read 65536
  if piece.isEmpty then return front else readToEnd stream (front ++ piece.data.toList)

/-- The standard input, if a command reads it. -/
def inputFor (command : Command) : IO Bytes := do
  let path : String :=
    match command with
    | .pack .. => ""
    | .list input | .info input | .metadata input _ _ => input
  if Command.isDash path then readToEnd (← IO.getStdin) [] else return []

/-- Whether an event is shown. -/
def isShown (verbose : Bool) (event : Event) : Bool := verbose || event.level == .warn

/-- An event on a line. -/
def eventLine (event : Event) : String :=
  event.message ++ String.join (event.fields.map fun (name, text) => " " ++ name ++ "=" ++ text)

/-- Carries out what a command leaves behind. -/
def carryOut (invocation : Invocation) (result : Result) : IO Unit := do
  let errors ← IO.getStderr
  for event in result.events do
    if isShown invocation.verbose event then errors.putStrLn (eventLine event)
  if let .pack _ output _ := invocation.command then
    unless Command.isDash output do
      if let .ok (.file content) := result.disk.lookup output then
        IO.FS.writeBinFile output ⟨content.toArray⟩
  (← IO.getStdout).write ⟨result.output.toArray⟩
  errors.putStr result.errors

end DumpCatalog.Program

open DumpCatalog Program in
def main (args : List String) : IO UInt32 := do
  match Command.ofArguments? args with
  | none =>
    (← IO.getStderr).putStrLn "usage: pack DIR -o OUTPUT | list INPUT | info INPUT | metadata INPUT NAMESPACE"
    return 2
  | some invocation =>
    let here := (← IO.currentDir).toString
    let disk ← loadPath false { Disk.empty with working := namesOf here } here
    let disk ← loadFor disk invocation.command
    let result := Command.run ⟨disk, ← inputFor invocation.command, none⟩ invocation.command
    carryOut invocation result
    return UInt32.ofNat result.code
