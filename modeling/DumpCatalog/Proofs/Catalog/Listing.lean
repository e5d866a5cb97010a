import DumpCatalog.Proofs.Catalog.Restoring
import DumpCatalog.Proofs.DumpTree.Moves

/-! # Catalogs: what is reached, and what is listed

From the root of the tree of a catalog one comes to the directories of its databases and the files
of its records, and to nothing else (`Catalog.places_of_reaches`): nodes are made up from keys, but
only from keys that are there. So a directory that is reached can be listed, a walk over the whole
tree does not fail, and it lists the files of the records in their order, database by database
(`Catalog.listing_ofRecords`). -/

namespace DumpCatalog

/-! ### Keys of nodes -/

namespace CatalogNode

variable {node : CatalogNode}

theorem parent_of_directory (directory : node.isDirectory = true) : node.parent = root :=
  if_pos directory

theorem parent_of_file (file : node.isDirectory = false) :
    node.parent = ofDatabase node.database := by
  rw [parent, file, if_neg (by simp)]

theorem isDirectory_parent (node : CatalogNode) : node.parent.isDirectory = true := by
  rw [parent]
  split
  · rfl
  · rfl

theorem parent_parent (node : CatalogNode) : node.parent.parent = root :=
  parent_of_directory (isDirectory_parent node)

theorem path_eq_join (node : CatalogNode) : node.path = Path.join node.parent.path node.name := by
  have above (database : String) : (ofDatabase database).path = database := rfl
  rw [path]
  by_cases directory : node.isDirectory = true
  · rw [parent_of_directory directory, directory, Bool.true_or, if_pos rfl]
    exact (Path.join_empty _).symm
  · rw [Bool.not_eq_true] at directory
    rw [parent_of_file directory, above, directory, Bool.false_or]
    split
    · next top =>
      rw [String.isEmpty_iff.mp top, Path.join_empty]
    · rfl

end CatalogNode

namespace Catalog

variable {catalog : Catalog} {node : CatalogNode}

/-! ### Places -/

/-- **The nodes that are there**: the root, the directories of databases that have a name, and the
files of records. -/
inductive Places (catalog : Catalog) : CatalogNode → Prop
  | root : catalog.Places .root
  | directory {database : String} (known : database ∈ catalog.databases)
      (named : (!database.isEmpty) = true) : catalog.Places (.ofDatabase database)
  | file {record : Record} {node : CatalogNode} (member : record ∈ catalog.records)
      (inside : node ∈ record.nodes) : catalog.Places node

theorem children_of_file (file : node.isDirectory = false) :
    catalog.tree.children node = .error (.notADirectory node.path) := by
  show catalog.children node = _
  rw [children, file, if_neg (by simp)]

theorem places_ofDatabase (h : catalog.Grouped) {record : Record}
    (member : record ∈ catalog.records) : catalog.Places (.ofDatabase record.database) := by
  by_cases top : record.database = ""
  · rw [top]
    exact .root
  · exact .directory (h.mem_databases.mpr (List.mem_map_of_mem member)) (by simpa using top)

theorem places_of_mem_nodesOf {database : String}
    (member : node ∈ (catalog.recordsOf database).flatMap Record.nodes) :
    catalog.Places node ∧ node.parent = .ofDatabase database := by
  obtain ⟨record, among, inside⟩ := List.mem_flatMap.mp member
  obtain ⟨known, rfl⟩ := mem_recordsOf.mp among
  refine ⟨.file known inside, ?_⟩
  rw [CatalogNode.parent_of_file (isDirectory_of_mem_nodes inside), (database_of_mem_nodes inside).1]

/-- **What is listed in a directory is there**, and the directory is its parent. -/
theorem Places.child (h : catalog.Grouped) (places : catalog.Places node)
    {nodes : List CatalogNode} (listed : catalog.tree.children node = .ok nodes)
    {child : CatalogNode} (member : child ∈ nodes) :
    catalog.Places child ∧ child.parent = node := by
  cases places with
  | root =>
    rw [children_root h] at listed
    cases listed
    rcases List.mem_append.mp member with file | directory
    · exact places_of_mem_nodesOf file
    · obtain ⟨database, known, rfl⟩ := List.mem_map.mp directory
      obtain ⟨known, named⟩ := List.mem_filter.mp known
      exact ⟨.directory known named, rfl⟩
  | directory known named =>
    rw [children_ofDatabase h known named] at listed
    cases listed
    exact places_of_mem_nodesOf member
  | file _ inside =>
    rw [children_of_file (isDirectory_of_mem_nodes inside)] at listed
    simp at listed

theorem Places.move (h : catalog.Grouped) (places : catalog.Places node) {there : CatalogNode}
    (move : catalog.tree.Move node there) : catalog.Places there := by
  cases move with
  | down listed member => exact (places.child h listed member).1
  | up =>
    show catalog.Places node.parent
    cases places with
    | root => exact .root
    | directory => exact .root
    | file member inside =>
      rw [CatalogNode.parent_of_file (isDirectory_of_mem_nodes inside),
        (database_of_mem_nodes inside).1]
      exact places_ofDatabase h member
  | stay found =>
    obtain rfl := Except.ok.inj found
    exact places

/-- **What is reached is there.** -/
theorem places_of_reaches (h : catalog.Grouped) (reached : catalog.tree.Reaches node) :
    catalog.Places node :=
  reached.keeps .root fun places move => places.move h move

theorem Places.listed (h : catalog.Grouped) (places : catalog.Places node) :
    (node.isDirectory = true ∧ ∃ nodes, catalog.tree.children node = .ok nodes) ∨
      (node.isDirectory = false ∧
        catalog.tree.children node = .error (.notADirectory node.path)) := by
  cases places with
  | root => exact .inl ⟨rfl, _, children_root h⟩
  | directory known named => exact .inl ⟨rfl, _, children_ofDatabase h known named⟩
  | file _ inside =>
    have file := isDirectory_of_mem_nodes inside
    exact .inr ⟨file, children_of_file file⟩

/-! ### Lines -/

/-- The lines of a record: its data file has the size that is found for its collection, and behind
it comes its metadata file, if it has metadata. A record without a collection has none. -/
def lines (catalog : Catalog) (record : Record) : List Listed :=
  if record.collection = "" then []
  else
    ⟨Path.join record.database (record.collection ++ dataSuffix),
        ((catalog.find? record.database record.collection).map Record.size).getD 0, false⟩ ::
      if record.metadata = "" then []
      else [⟨Path.join record.database (record.collection ++ metadataSuffix), 0, false⟩]

theorem listed_of_file (file : node.isDirectory = false) :
    catalog.tree.listed node =
      ⟨Path.join node.database (node.collection ++ node.kind.suffix), catalog.nodeSize node,
        false⟩ := by
  have path : catalog.tree.path node = node.path := rfl
  have size : catalog.tree.size node = catalog.nodeSize node := rfl
  have directory : catalog.tree.isDirectory node = false := file
  rw [DumpTree.listed, path, size, directory, CatalogNode.path_eq_join,
    CatalogNode.parent_of_file file, CatalogNode.name_of_file file]
  rfl

theorem map_listed_nodes (record : Record) :
    record.nodes.map catalog.tree.listed = catalog.lines record := by
  rw [Record.nodes, lines]
  by_cases full : record.collection = ""
  · simp [full]
  · have file : (CatalogNode.dataOf record).isDirectory = false := by
      simpa [CatalogNode.isDirectory, CatalogNode.dataOf] using full
    have file' : (CatalogNode.metadataOf record).isDirectory = false := file
    have data : catalog.tree.listed (.dataOf record) =
        ⟨Path.join record.database (record.collection ++ dataSuffix),
          ((catalog.find? record.database record.collection).map Record.size).getD 0, false⟩ := by
      rw [listed_of_file file, nodeSize, file]
      rfl
    have metadata : catalog.tree.listed (.metadataOf record) =
        ⟨Path.join record.database (record.collection ++ metadataSuffix), 0, false⟩ := by
      rw [listed_of_file file', nodeSize, file']
      rfl
    by_cases empty : record.metadata = ""
    · simp [full, empty, data]
    · simp [full, empty, data, metadata]

theorem flatMap_listed_nodes (records : List Record) :
    (records.flatMap Record.nodes).flatMap (fun node => [catalog.tree.listed node]) =
      records.flatMap catalog.lines := by
  rw [List.flatMap_assoc]
  refine List.flatMap_congr fun record _ => ?_
  rw [← map_listed_nodes, List.map_eq_flatMap]

/-! ### The listing -/

theorem walk_ofDatabase (h : catalog.Grouped) {database : String}
    (known : database ∈ catalog.databases) (named : (!database.isEmpty) = true) :
    catalog.tree.walk (.ofDatabase database) =
      .ok ((catalog.recordsOf database).flatMap catalog.lines) := by
  rw [← flatMap_listed_nodes]
  refine DumpTree.walk_of_children (children_ofDatabase h known named) fun node member => ?_
  obtain ⟨record, -, inside⟩ := List.mem_flatMap.mp member
  exact DumpTree.walkChild_of_file (isDirectory_of_mem_nodes inside)

/-- The listing has the files at the top level first, and then each database with its files. -/
theorem listing_eq (h : catalog.Grouped) :
    catalog.listing = .ok ((catalog.recordsOf "").flatMap catalog.lines ++
      (catalog.databases.filter fun database => !database.isEmpty).flatMap fun database =>
        ⟨database, 0, true⟩ :: (catalog.recordsOf database).flatMap catalog.lines) := by
  -- the lines that a walk has at a node of the top level
  let linesAt (node : CatalogNode) : List Listed := catalog.tree.listed node ::
    if node.isDirectory then (catalog.recordsOf node.database).flatMap catalog.lines else []
  have each : ∀ node ∈ (catalog.recordsOf "").flatMap Record.nodes ++
      (catalog.databases.filter fun database => !database.isEmpty).map CatalogNode.ofDatabase,
      catalog.tree.walkChild node = .ok (linesAt node) := by
    intro node member
    rcases List.mem_append.mp member with file | directory
    · obtain ⟨record, -, inside⟩ := List.mem_flatMap.mp file
      have file := isDirectory_of_mem_nodes inside
      simp only [linesAt, file, Bool.false_eq_true, if_false]
      exact DumpTree.walkChild_of_file file
    · obtain ⟨database, known, rfl⟩ := List.mem_map.mp directory
      obtain ⟨known, named⟩ := List.mem_filter.mp known
      exact DumpTree.walkChild_of_directory rfl (walk_ofDatabase h known named)
  have walk := DumpTree.walk_of_children (children_root h) each
  have files : ((catalog.recordsOf "").flatMap Record.nodes).flatMap linesAt =
      (catalog.recordsOf "").flatMap catalog.lines := by
    rw [← flatMap_listed_nodes]
    refine List.flatMap_congr fun node member => ?_
    obtain ⟨record, -, inside⟩ := List.mem_flatMap.mp member
    simp only [linesAt, isDirectory_of_mem_nodes inside, Bool.false_eq_true, if_false]
  rw [List.flatMap_append, files, List.flatMap_map] at walk
  exact walk

/-- **The listing of any records.** A walk over the tree of a catalog does not fail. It lists the
files of the records at the top level in their order; then, in the order in which they are first
seen, each database that has a name, and behind it the files of its records in their order. Where
moves lead from the root, each directory can be listed, and each file is refused as no directory by
its path. -/
theorem listing_ofRecords (header : Header) (records : List Record) :
    let catalog := ofRecords header records
    (catalog.listing = .ok
      ((records.filter fun record => record.database = "").flatMap catalog.lines ++
        ((records.map Record.database).eraseDups.filter fun database => database ≠ "").flatMap
          fun database => ⟨database, 0, true⟩ ::
            (records.filter fun record => record.database = database).flatMap catalog.lines)) ∧
    ∀ node, catalog.tree.Reaches node →
      (catalog.tree.isDirectory node = true ∧ ∃ nodes, catalog.tree.children node = .ok nodes) ∨
      (catalog.tree.isDirectory node = false ∧
        catalog.tree.children node = .error (.notADirectory (catalog.tree.path node))) := by
  intro catalog
  have grouped : catalog.Grouped := grouped_ofRecords header records
  have flat : catalog.records = records := records_ofRecords header records
  have named : (fun database : String => decide (database ≠ "")) =
      fun database => !database.isEmpty := by
    funext database
    rw [Bool.eq_iff_iff]
    simp
  refine ⟨?_, fun node reached => (places_of_reaches grouped reached).listed grouped⟩
  have listing := listing_eq grouped
  rw [grouped.databases, flat] at listing
  rw [named, listing]
  simp only [recordsOf, flat]

end Catalog

end DumpCatalog
