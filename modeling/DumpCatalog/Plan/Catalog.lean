import DumpCatalog.Catalog.DumpTree
import DumpCatalog.Plan.Discovery

/-! # Between plans and catalogs

The catalog of a dump is made from its plan, and the plan of a restore is discovered in the catalog.
A catalog can only be made from metadata that is held in memory. -/

namespace DumpCatalog

/-- The metadata text of an intent: none is empty, and a file has to be held in memory. -/
def Intent.heldMetadata (intent : Intent) : Except Fault String :=
  match intent.file with
  | none => .ok ""
  | some file =>
    match file.heldText? with
    | some text => .ok text
    | none => .error (.foreignMetadataFile intent.fullName)

/-- The record of an intent. -/
def Intent.record (intent : Intent) : Except Fault Record := do
  return ⟨intent.database, intent.collection, ← intent.heldMetadata, intent.size⟩

namespace Catalog

/-- Adds the record of an intent. -/
def addIntent (catalog : Catalog) (intent : Intent) : Logged Catalog := do
  catalog.addReported (← Logged.ofExcept intent.record)

/-- The catalog of a plan, in the plan's order. -/
def ofPlan (plan : Plan) (concurrentCollections : Int32) : Logged Catalog :=
  plan.intents.foldlM addIntent (new (Header.new concurrentCollections))

/-- The intent with a file in the catalog, if it has metadata. -/
def withStoredFile (catalog : Catalog) (intent : Intent) : Intent :=
  if intent.metadataPath.isSome then
    { intent with file := some (.ofCatalog catalog intent.database intent.collection) }
  else intent

/-- The plan to restore what the catalog lists, with metadata to be read from the catalog. -/
def restorePlan (catalog : Catalog) : Logged Plan := do
  let plan ← catalog.tree.plan
  return ⟨plan.intents.map catalog.withStoredFile⟩

/-- All that the catalog lists. -/
def listing (catalog : Catalog) : Except Fault (List Listed) := catalog.tree.listing

/-- The metadata text of a collection, read in a session of its own. -/
def metadataText (catalog : Catalog) (database collection : String) : Except Fault String :=
  ((MetadataFile.ofCatalog catalog database collection).readWhole .empty).1

end Catalog

end DumpCatalog
