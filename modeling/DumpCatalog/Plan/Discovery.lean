import DumpCatalog.Catalog.DumpTree
import DumpCatalog.Logged
import DumpCatalog.Plan.Basic

/-! # Plans from dump trees

A plan is discovered by walking a dump tree: a directory at the top level is a database, and the
names of the files in it tell collections and kinds apart. Of the files at the top level only those
of the log of operations are taken. What is passed over is reported. -/

namespace DumpCatalog

/-- The text without what it ends in. -/
def withoutSuffix? (suffix text : String) : Option String :=
  if suffix.toList.isSuffixOf text.toList then
    some (String.ofList (text.toList.take (text.length - suffix.length)))
  else none

/-- What a file of a dump holds. -/
inductive FileKind where
  | data
  | metadata
  deriving DecidableEq, Repr

/-- The collection of a file of a dump, and what the file holds. -/
def FileKind.ofName? (name : String) : Option (String × FileKind) :=
  match withoutSuffix? metadataSuffix name with
  | some collection => some (collection, .metadata)
  | none => (withoutSuffix? dataSuffix name).map fun collection => (collection, .data)

namespace DumpTree

variable {Node : Type} (tree : DumpTree Node)

/-- The intent of a file, by its name; a name that is all suffix gives none. -/
def intentOf? (database : String) (node : Node) : Option Intent :=
  match FileKind.ofName? (tree.name node) with
  | none => none
  | some (collection, kind) =>
    if collection.isEmpty then none
    else some <| match kind with
      | .data =>
        { Intent.new database collection with
          dataPath := some (tree.path node), size := tree.size node }
      | .metadata =>
        { Intent.new database collection with metadataPath := some (tree.path node) }

/-- Takes a node of a database's directory into the plan. -/
def planInDatabase (database : String) (plan : Plan) (node : Node) : Logged Plan :=
  if tree.isDirectory node then do
    Logged.report (.nestedDirectory (tree.path node))
    return plan
  else
    match tree.intentOf? database node with
    | some intent => return plan.put intent
    | none => do
      Logged.report (.unknownFile (tree.path node))
      return plan

/-- Takes a node of the top level into the plan. -/
def planAtTop (plan : Plan) (node : Node) : Logged Plan :=
  if tree.isDirectory node then do
    let nodes ← Logged.ofExcept (tree.children node)
    nodes.foldlM (tree.planInDatabase (tree.name node)) plan
  else
    match (tree.intentOf? "" node).filter Intent.isOplog with
    | some intent => return plan.put intent
    | none => do
      Logged.report (.strayFile (tree.path node))
      return plan

/-- The plan for the tree below a node. -/
def planFrom (node : Node) : Logged Plan := do
  let nodes ← Logged.ofExcept (tree.children node)
  let plan ← nodes.foldlM tree.planAtTop Plan.empty
  Logged.report (.planMade plan.size)
  return plan

/-- The plan for a whole tree. -/
def plan : Logged Plan := tree.planFrom tree.root

end DumpTree

end DumpCatalog
