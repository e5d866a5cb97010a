import DumpCatalog.Catalog.Stream
import DumpCatalog.Disk.DumpTree
import DumpCatalog.Plan.Catalog

/-! # Packing a dump directory

The catalog of a dump directory: its plan is discovered, all metadata files are read into memory,
and only when the catalog is whole is it written. Data files are sized, not read. -/

namespace DumpCatalog

namespace DumpDirectory

variable (directory : DumpDirectory)

/-- The text of a file, by its path from the root. -/
def text (relative : String) : Except Fault String :=
  match directory.content relative with
  | .error fault => .error (.io (.system fault))
  | .ok content =>
    match Text.ofBytes? content with
    | some text => .ok text
    | none => .error (.io .notText)

/-- The intent with its metadata held in memory. -/
def hold (intent : Intent) : Except Fault Intent :=
  match intent.metadataPath with
  | none => .ok intent
  | some path => do return { intent with file := some (.ofText (← directory.text path)) }

/-- The plan of the directory with all metadata held in memory. -/
def heldPlan : Logged Plan := do
  let plan ← directory.tree.plan
  return ⟨← Logged.ofExcept (plan.intents.mapM directory.hold)⟩

/-- The catalog of the directory. -/
def catalog (concurrentCollections : Int32) : Logged Catalog := do
  Catalog.ofPlan (← directory.heldPlan) concurrentCollections

/-- Sends the catalog of the directory to where it is written. Nothing is sent before the catalog is
whole. -/
def packBy {σ : Type} (concurrentCollections : Int32) (place : σ)
    (send : σ → List Bytes → Except IoFault Unit × σ) : Logged Catalog × σ :=
  let made := directory.catalog concurrentCollections
  match made.outcome with
  | .error _ => (made, place)
  | .ok catalog =>
    let (written, later) := catalog.writeBy place send
    (do
      let catalog ← made
      written
      Logged.report (.directoryPacked directory.path catalog.size)
      return catalog,
     later)

/-- Writes the catalog of the directory to a sink. -/
def pack (concurrentCollections : Int32) (sink : Sink) : Logged Catalog × Sink :=
  directory.packBy concurrentCollections sink Sink.writeAll

end DumpDirectory

end DumpCatalog
