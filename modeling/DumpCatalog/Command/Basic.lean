import DumpCatalog.Command.Arguments

/-! # Commands

What can be asked of the program, and how the command line asks it. -/

namespace DumpCatalog

/-- What is to be done. -/
inductive Command where
  | pack (directory output : String) (concurrency : Int32)
  | list (input : String)
  | info (input : String)
  | metadata (input fullName : String) (raw : Bool)
  deriving DecidableEq, Repr

/-- A command, and whether its work is to be followed in detail. -/
structure Invocation where
  command : Command
  verbose : Bool
  deriving DecidableEq, Repr

namespace Command

/-- The switch that every command knows. -/
def verboseForm : OptionForm := ⟨some 'v', "verbose", false⟩

/-- The options of packing. -/
def packForms : List OptionForm :=
  [verboseForm, ⟨some 'o', "output", true⟩, ⟨some 'j', "concurrency", true⟩]

/-- The options of showing metadata. -/
def metadataForms : List OptionForm := [verboseForm, ⟨none, "raw", false⟩]

/-- The command to pack, which needs an output. -/
def packOf? (gathered : Gathered) : Option Command := do
  let [directory] := gathered.operands | none
  let output ← gathered.value? "output"
  let concurrency ← int32? ((gathered.value? "concurrency").getD "1")
  return .pack (← path? directory) (← path? output) concurrency

/-- The command to list. -/
def listOf? (gathered : Gathered) : Option Command := do
  let [input] := gathered.operands | none
  return .list (← path? input)

/-- The command to show the header. -/
def infoOf? (gathered : Gathered) : Option Command := do
  let [input] := gathered.operands | none
  return .info (← path? input)

/-- The command to show metadata. -/
def metadataOf? (gathered : Gathered) : Option Command := do
  let [input, fullName] := gathered.operands | none
  return .metadata (← path? input) fullName (gathered.has "raw")

/-- The options of a command, and how its arguments are read. -/
def byName? (name : String) : Option (List OptionForm × (Gathered → Option Command)) :=
  if name = "pack" then some (packForms, packOf?)
  else if name = "list" then some ([verboseForm], listOf?)
  else if name = "info" then some ([verboseForm], infoOf?)
  else if name = "metadata" then some (metadataForms, metadataOf?)
  else none

/-- What a command line asks for, if it is one. -/
def ofArguments? (args : List String) : Option Invocation := do
  let front ← gatherOnce [verboseForm] true args
  let name :: args := front.rest | none
  let (forms, read) ← byName? name
  let gathered ← gatherOnce forms false args
  let command ← read gathered
  return ⟨command, front.has "verbose" || gathered.has "verbose"⟩

end Command

end DumpCatalog
