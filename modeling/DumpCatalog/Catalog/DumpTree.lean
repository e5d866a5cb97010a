import DumpCatalog.Catalog.Basic
import DumpCatalog.DumpTree
import DumpCatalog.Path

/-! # A catalog as a dump tree

The tree that the catalog's dump had: files of the top level first, then one directory per database
with a data file, and a metadata file where there is metadata, for each collection. A node is the
key of what it stands for; nothing else is kept, and every question is answered by the catalog. -/

namespace DumpCatalog

/-- How the names of data files end. -/
def dataSuffix : String := ".bson"

/-- How the names of metadata files end. -/
def metadataSuffix : String := ".metadata.json"

/-- The key of a node: a file has a collection, a directory has none, and the root has no database
either. -/
structure CatalogNode where
  database : String
  collection : String
  isMetadata : Bool
  deriving DecidableEq, Repr

namespace CatalogNode

/-- The root of the tree. -/
def root : CatalogNode := ⟨"", "", false⟩

/-- The directory of a database. -/
def ofDatabase (database : String) : CatalogNode := ⟨database, "", false⟩

/-- The data file of a record. -/
def dataOf (record : Record) : CatalogNode := ⟨record.database, record.collection, false⟩

/-- The metadata file of a record. -/
def metadataOf (record : Record) : CatalogNode := ⟨record.database, record.collection, true⟩

/-- Whether a node is the root. -/
def isRoot (node : CatalogNode) : Bool := node.database.isEmpty && node.collection.isEmpty

/-- Whether a node is a directory. -/
def isDirectory (node : CatalogNode) : Bool := node.collection.isEmpty

/-- The name of a node. -/
def name (node : CatalogNode) : String :=
  if node.isDirectory then node.database
  else node.collection ++ if node.isMetadata then metadataSuffix else dataSuffix

/-- The path of a node from the root. -/
def path (node : CatalogNode) : String :=
  if node.isDirectory || node.database.isEmpty then node.name
  else Path.join node.database node.name

/-- The directory that a node is in. -/
def parent (node : CatalogNode) : CatalogNode :=
  if node.isDirectory then root else ofDatabase node.database

/-- How many directories are nested from a node on. -/
def height (node : CatalogNode) : Nat :=
  if node.isDirectory then if node.database.isEmpty then 2 else 1 else 0

end CatalogNode

/-- The files of a record. A record without a collection has none: it would be taken for its
database's directory. -/
def Record.nodes (record : Record) : List CatalogNode :=
  if record.collection.isEmpty then []
  else if record.metadata.isEmpty then [CatalogNode.dataOf record]
  else [CatalogNode.dataOf record, CatalogNode.metadataOf record]

namespace Catalog

/-- The size of a node: that of the first record with its key. -/
def nodeSize (catalog : Catalog) (node : CatalogNode) : Int64 :=
  if node.isDirectory || node.isMetadata then 0
  else ((catalog.find? node.database node.collection).map Record.size).getD 0

/-- The nodes in a directory. -/
def children (catalog : Catalog) (node : CatalogNode) : Except Fault (List CatalogNode) :=
  if node.isDirectory then
    if node.database.isEmpty then
      .ok (((catalog.recordsIn? "").getD []).flatMap Record.nodes ++
        (catalog.databases.filter fun database => !database.isEmpty).map CatalogNode.ofDatabase)
    else
      match catalog.recordsIn? node.database with
      | some records => .ok (records.flatMap Record.nodes)
      | none => .error (.noSuchDirectory node.database)
  else .error (.notADirectory node.path)

theorem isDirectory_of_mem_nodes {record : Record} {node : CatalogNode}
    (h : node ∈ record.nodes) : node.isDirectory = false := by
  unfold Record.nodes at h
  split at h
  · cases h
  · next full =>
    have full : record.collection.isEmpty = false := by simpa using full
    split at h
    · simp only [List.mem_singleton] at h; subst h; exact full
    · simp only [List.mem_cons, List.not_mem_nil, or_false] at h
      rcases h with rfl | rfl <;> exact full

theorem height_lt {catalog : Catalog} {node child : CatalogNode} {nodes : List CatalogNode}
    (h : catalog.children node = .ok nodes) (member : child ∈ nodes)
    (directory : child.isDirectory = true) : child.height < node.height := by
  have noFile : ∀ records : List Record, child ∉ records.flatMap Record.nodes := by
    intro records inside
    obtain ⟨record, _, inside⟩ := List.mem_flatMap.1 inside
    rw [isDirectory_of_mem_nodes inside] at directory
    cases directory
  unfold children at h
  split at h
  · next hd =>
    split at h
    · next hr =>
      cases h
      rcases List.mem_append.1 member with inside | inside
      · exact absurd inside (noFile _)
      · obtain ⟨database, known, rfl⟩ := List.mem_map.1 inside
        have := (List.mem_filter.1 known).2
        simp_all [CatalogNode.height, CatalogNode.ofDatabase]
    · split at h
      · cases h; exact absurd member (noFile _)
      · cases h
  · cases h

/-- The tree of a catalog. -/
def tree (catalog : Catalog) : DumpTree CatalogNode where
  root := CatalogNode.root
  name := CatalogNode.name
  path := CatalogNode.path
  size := catalog.nodeSize
  isDirectory := CatalogNode.isDirectory
  stat := .ok
  children := catalog.children
  parent := CatalogNode.parent
  height := CatalogNode.height
  height_lt := height_lt

end Catalog

end DumpCatalog
