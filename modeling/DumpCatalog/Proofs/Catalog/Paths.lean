import DumpCatalog.Proofs.Catalog.Listing
import DumpCatalog.Proofs.Disk.Paths

/-! # Catalogs: entries of the listing by their paths

The nodes that the listing comes by stand in `Catalog.walked` (`Catalog.listing_eq_walked`). When
the records are for distinct collections whose names hold no separators, the listing is unambiguous
(`Catalog.unambiguous_walked`): a file is known by its path, from which its key can be read off
(`CatalogNode.ofPath?`), and it stands behind the directory that it is in and ahead of the next
one. -/

namespace DumpCatalog

/-! ### Keys from paths -/

namespace CatalogNode

/-- The key of the file in the directory of a database, or at the top level, by its name. -/
def ofName? (database name : String) : Option CatalogNode :=
  (FileKind.ofName? name).map fun (collection, kind) => ⟨database, collection, kind = .metadata⟩

/-- The key of a file by its path. -/
def ofPath? (path : String) : Option CatalogNode :=
  match Path.components path with
  | [name] => ofName? "" name
  | [database, name] => ofName? database name
  | _ => none

/-- A node whose names hold no separators. -/
structure Plain (node : CatalogNode) : Prop where
  database : '/' ∉ node.database.toList
  collection : '/' ∉ node.collection.toList

variable {node : CatalogNode}

theorem isDirectory_ofDatabase (database : String) :
    (ofDatabase database).isDirectory = true := rfl

theorem ofName?_name (file : node.isDirectory = false) :
    ofName? node.database node.name = some node := by
  rw [ofName?, FileKind.ofName?_eq_some_iff.mpr (name_of_file file), Option.map_some, kind]
  cases node with
  | mk database collection isMetadata => cases isMetadata <;> rfl

theorem plain_name (plain : node.Plain) (file : node.isDirectory = false) :
    '/' ∉ node.name.toList := by
  have suffix (kind : FileKind) : '/' ∉ kind.suffix.toList := by cases kind <;> decide
  rw [name_of_file file, String.toList_append, List.mem_append, not_or]
  exact ⟨plain.collection, suffix _⟩

theorem components_path (plain : node.Plain) (file : node.isDirectory = false) :
    Path.components node.path =
      if node.database = "" then [node.name] else [node.database, node.name] := by
  have above : (ofDatabase node.database).path = node.database := rfl
  rw [path_eq_join, parent_of_file file, above]
  by_cases top : node.database = ""
  · rw [if_pos top, top, Path.join_empty, Path.components_plain (plain_name plain file)]
  · have closed : node.database.toList.getLast? ≠ some '/' :=
      fun ends => plain.database (List.mem_of_getLast? ends)
    rw [if_neg top, Path.components_join (plain_name plain file) top closed,
      Path.components_plain plain.database]
    rfl

/-- **The key of a file is read off its path.** -/
theorem ofPath?_path (plain : node.Plain) (file : node.isDirectory = false) :
    ofPath? node.path = some node := by
  rw [ofPath?, components_path plain file]
  by_cases top : node.database = ""
  · rw [if_pos top, ← top]
    exact ofName?_name file
  · rw [if_neg top]
    exact ofName?_name file

end CatalogNode

namespace Catalog

variable {catalog : Catalog} {node : CatalogNode}

/-! ### Nodes in the order of the listing -/

/-- The databases that have a name, which are those that have a directory. -/
def named (catalog : Catalog) : List String :=
  catalog.databases.filter fun database => !database.isEmpty

/-- The directory of a database and the files in it. -/
def block (catalog : Catalog) (database : String) : List CatalogNode :=
  .ofDatabase database :: catalog.nodesOf (.ofDatabase database)

/-- The nodes below the root, in the order in which the listing comes by them. -/
def walked (catalog : Catalog) : List CatalogNode :=
  catalog.nodesOf .root ++ catalog.named.flatMap catalog.block

/-- **The listing has a line for each node.** -/
theorem listing_eq_walked (h : catalog.Grouped) :
    catalog.listing = .ok (catalog.walked.map catalog.tree.listed) := by
  have lines (database : String) :
      (catalog.nodesOf (.ofDatabase database)).map catalog.tree.listed =
      (catalog.recordsOf database).flatMap catalog.lines := by
    rw [nodesOf, List.map_flatMap]
    exact List.flatMap_congr fun record _ => map_listed_nodes record
  have top : (catalog.nodesOf .root).map catalog.tree.listed =
      (catalog.recordsOf "").flatMap catalog.lines := lines ""
  rw [listing_eq h, walked, List.map_append, List.map_flatMap, top]
  congr 2
  refine List.flatMap_congr fun database _ => ?_
  rw [block, List.map_cons, lines]
  rfl

theorem file_of_mem_nodesOf {directory : CatalogNode} (member : node ∈ catalog.nodesOf directory) :
    node.isDirectory = false ∧ node.database = directory.database := by
  obtain ⟨record, among, inside⟩ := List.mem_flatMap.mp member
  exact ⟨isDirectory_of_mem_nodes inside,
    (database_of_mem_nodes inside).1.trans (mem_recordsOf.mp among).2⟩

/-- **The listing comes by every node that is reached**, except the root. -/
theorem mem_walked_iff (h : catalog.Grouped) :
    node ∈ catalog.walked ↔ catalog.tree.Reaches node ∧ node ≠ .root := by
  constructor
  · intro member
    rcases List.mem_append.mp member with top | below
    · refine ⟨.single (.down (children_root h) (List.mem_append_left _ top)), ?_⟩
      rintro rfl
      exact absurd (file_of_mem_nodesOf top).1 (by decide)
    · obtain ⟨database, known, inside⟩ := List.mem_flatMap.mp below
      obtain ⟨among, nonempty⟩ := List.mem_filter.mp known
      have directory : catalog.tree.Reaches (.ofDatabase database) :=
        .single (.down (children_root h) (List.mem_append_right _ (List.mem_map_of_mem known)))
      rcases List.mem_cons.mp inside with rfl | file
      · refine ⟨directory, ?_⟩
        intro root
        have empty : database = "" := congrArg CatalogNode.database root
        simp [empty] at nonempty
      · refine ⟨directory.tail (.down (children_ofDatabase h among nonempty) file), ?_⟩
        rintro rfl
        exact absurd (file_of_mem_nodesOf file).1 (by decide)
  · rintro ⟨reached, notRoot⟩
    cases places_of_reaches h reached with
    | root => exact absurd rfl notRoot
    | directory known nonempty =>
      exact List.mem_append_right _ (List.mem_flatMap.mpr
        ⟨_, List.mem_filter.mpr ⟨known, nonempty⟩, List.mem_cons_self⟩)
    | @file record _ member inside =>
      by_cases top : record.database = ""
      · exact List.mem_append_left _ (List.mem_flatMap.mpr
          ⟨record, mem_recordsOf.mpr ⟨member, top⟩, inside⟩)
      · have known := h.mem_databases.mpr (List.mem_map_of_mem member)
        exact List.mem_append_right _ (List.mem_flatMap.mpr
          ⟨record.database, List.mem_filter.mpr ⟨known, by simpa using top⟩,
            List.mem_cons_of_mem _ (List.mem_flatMap.mpr
              ⟨record, mem_recordsOf.mpr ⟨member, rfl⟩, inside⟩)⟩)

/-! ### Files and directories apart -/

theorem filter_file_nodesOf (directory : CatalogNode) :
    (catalog.nodesOf directory).filter (fun node => !node.isDirectory) =
      catalog.nodesOf directory := by
  rw [List.filter_eq_self]
  intro node member
  rw [(file_of_mem_nodesOf member).1]
  rfl

theorem filter_directory_nodesOf (directory : CatalogNode) :
    (catalog.nodesOf directory).filter CatalogNode.isDirectory = [] := by
  rw [List.filter_eq_nil_iff]
  intro node member
  simp [(file_of_mem_nodesOf member).1]

/-- The files in the listing are those of the records that are restored, if the log of operations is
all there is at the top level. -/
theorem filter_file_walked (d : catalog.Distinct) :
    catalog.walked.filter (fun node => !node.isDirectory) =
      catalog.restored.flatMap Record.nodes := by
  have top : (catalog.recordsOf "").filter
      (fun record => record.collection = Intent.oplogCollection) = catalog.recordsOf "" := by
    rw [List.filter_eq_self]
    intro record member
    obtain ⟨among, empty⟩ := mem_recordsOf.mp member
    simpa using d.oplog record among empty
  rw [walked, restored, top, List.filter_append, List.flatMap_append, filter_file_nodesOf,
    List.flatMap_assoc, List.filter_flatMap]
  congr 1
  refine List.flatMap_congr fun database _ => ?_
  rw [block, List.filter_cons, CatalogNode.isDirectory_ofDatabase, if_neg (by simp),
    filter_file_nodesOf]
  rfl

theorem filter_directory_walked :
    catalog.walked.filter CatalogNode.isDirectory = catalog.named.map CatalogNode.ofDatabase := by
  have each (database : String) : (catalog.block database).filter CatalogNode.isDirectory =
      [.ofDatabase database] := by
    rw [block, List.filter_cons, CatalogNode.isDirectory_ofDatabase, if_pos rfl,
      filter_directory_nodesOf]
  rw [walked, List.filter_append, filter_directory_nodesOf, List.nil_append, List.filter_flatMap]
  simp only [each, List.map_eq_flatMap]

theorem nodup_files (h : catalog.Grouped) (d : catalog.Distinct) :
    (catalog.restored.flatMap Record.nodes).Nodup := by
  rw [List.nodup_flatMap]
  refine ⟨fun record _ => ?_, ?_⟩
  · unfold Record.nodes
    split
    · exact List.nodup_nil
    · split
      · exact List.nodup_singleton _
      · simp [CatalogNode.dataOf, CatalogNode.metadataOf]
  · refine (List.pairwise_map.mp (d.nodup_restored h)).imp fun differ node inside inside' => ?_
    obtain ⟨database, collection⟩ := database_of_mem_nodes inside
    obtain ⟨database', collection'⟩ := database_of_mem_nodes inside'
    refine differ ?_
    rw [Record.fullName, Record.fullName, ← database, ← collection, database', collection']

/-! ### Files behind their directories -/

/-- Every file in the directory of a database stands behind this directory, and no other directory
stands between them. -/
def Follows (nodes : List CatalogNode) : Prop :=
  ∀ before node after, nodes = before ++ node :: after → node.isDirectory = false →
    node.database ≠ "" → ∃ front between, before = front ++ .ofDatabase node.database :: between ∧
      ∀ other ∈ between, other.isDirectory = false

theorem Follows.append {nodes others : List CatalogNode} (h : Follows nodes) (h' : Follows others) :
    Follows (nodes ++ others) := by
  intro before node after split file inside
  rcases List.append_eq_append_iff.mp split with ⟨rest, rfl, same⟩ | ⟨rest, rfl, same⟩
  · -- the file is among the later nodes
    obtain ⟨front, between, rfl, files⟩ := h' rest node after same file inside
    exact ⟨nodes ++ front, between, by simp, files⟩
  · cases rest with
    | nil =>
      obtain ⟨front, between, whole, -⟩ := h' [] node after same.symm file inside
      simp at whole
    | cons first rest =>
      obtain ⟨rfl, rfl⟩ := List.cons.inj same
      exact h before node rest rfl file inside

theorem follows_flatMap {databases : List String} {block : String → List CatalogNode}
    (each : ∀ database ∈ databases, Follows (block database)) :
    Follows (databases.flatMap block) := by
  induction databases with
  | nil =>
    intro before node after split
    simp at split
  | cons database databases ih =>
    rw [List.forall_mem_cons] at each
    rw [List.flatMap_cons]
    exact each.1.append (ih each.2)

theorem follows_nodesOf_root : Follows (catalog.nodesOf .root) := by
  intro before node after split file inside
  have member : node ∈ catalog.nodesOf .root := by simp [split]
  exact absurd (file_of_mem_nodesOf member).2 inside

theorem follows_block (database : String) : Follows (catalog.block database) := by
  intro before node after split file inside
  cases before with
  | nil =>
    obtain ⟨rfl, -⟩ := List.cons.inj split
    rw [CatalogNode.isDirectory_ofDatabase] at file
    cases file
  | cons first between =>
    obtain ⟨rfl, files⟩ := List.cons.inj split
    have files : catalog.nodesOf (.ofDatabase database) = between ++ node :: after := files
    have member (other : CatalogNode) (among : other ∈ between ++ node :: after) :
        other.isDirectory = false ∧ other.database = database := by
      rw [← files] at among
      exact file_of_mem_nodesOf among
    refine ⟨[], between, ?_, fun other among => (member other (List.mem_append_left _ among)).1⟩
    rw [(member node (by simp)).2]
    rfl

/-! ### Unambiguous listings -/

/-- **Nothing in a listing is ambiguous.** The lines are those of the nodes below the root, no two
files have the same path, and no two directories have; the key of a file can be read off its path;
and a file in the directory of a database stands behind this directory and ahead of the next. -/
structure Unambiguous (catalog : Catalog) (nodes : List CatalogNode) (lines : List Listed) :
    Prop where
  listed : lines = nodes.map catalog.tree.listed
  reached : ∀ node, node ∈ nodes ↔ catalog.tree.Reaches node ∧ node ≠ .root
  files : ((lines.filter fun line => !line.isDirectory).map Listed.path).Nodup
  directories : ((lines.filter Listed.isDirectory).map Listed.path).Nodup
  key : ∀ node ∈ nodes, node.isDirectory = false →
    CatalogNode.ofPath? (catalog.tree.path node) = some node
  behind : Follows nodes

/-- **The listing of distinct records with plain names is unambiguous.** -/
theorem unambiguous_walked (h : catalog.Grouped) (d : catalog.Distinct)
    (plain : ∀ record ∈ catalog.records,
      '/' ∉ record.database.toList ∧ '/' ∉ record.collection.toList) :
    catalog.Unambiguous catalog.walked (catalog.walked.map catalog.tree.listed) := by
  have key (node : CatalogNode) (member : node ∈ catalog.restored.flatMap Record.nodes) :
      CatalogNode.ofPath? node.path = some node := by
    obtain ⟨record, among, inside⟩ := List.mem_flatMap.mp member
    obtain ⟨database, collection⟩ := database_of_mem_nodes inside
    obtain ⟨plainDatabase, plainCollection⟩ := plain record ((d.mem_restored h).mp among)
    rw [← database] at plainDatabase
    rw [← collection] at plainCollection
    exact CatalogNode.ofPath?_path ⟨plainDatabase, plainCollection⟩
      (isDirectory_of_mem_nodes inside)
  refine ⟨rfl, fun node => mem_walked_iff h, ?_, ?_, ?_, ?_⟩
  · have files : (catalog.walked.map catalog.tree.listed).filter (fun line => !line.isDirectory) =
        (catalog.restored.flatMap Record.nodes).map catalog.tree.listed := by
      rw [← filter_file_walked d, List.filter_map]
      rfl
    rw [files, List.map_map]
    refine (nodup_files h d).map_on fun node member other member' same => ?_
    have same : node.path = other.path := same
    exact Option.some.inj (by rw [← key node member, same, key other member'])
  · have directories : (catalog.walked.map catalog.tree.listed).filter Listed.isDirectory =
        (catalog.named.map CatalogNode.ofDatabase).map catalog.tree.listed := by
      rw [← filter_directory_walked, List.filter_map]
      rfl
    have paths : ((catalog.named.map CatalogNode.ofDatabase).map catalog.tree.listed).map
        Listed.path = catalog.named := by
      rw [List.map_map, List.map_map]
      exact List.map_id _
    rw [directories, paths]
    exact h.nodup.filter _
  · intro node member file
    refine key node ?_
    rw [← filter_file_walked d]
    exact List.mem_filter.mpr ⟨member, by simp [file]⟩
  · exact follows_nodesOf_root.append (follows_flatMap fun database _ => follows_block database)

end Catalog

end DumpCatalog
