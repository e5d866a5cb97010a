import DumpCatalog.Plan.Catalog
import DumpCatalog.Proofs.Catalog.Groups
import DumpCatalog.Proofs.Plan.Discovery

/-! # Catalogs: what is restored

A walk over the tree of a catalog finds the files of its records (`Catalog.plan_eq`): those of the
log of operations first, and then those of each database. Only other files of the top level are
passed over. When the records are for distinct namespaces, the plan to restore them has one intent
for each record, which tells its size and whether it has metadata
(`Catalog.Distinct.summary_restorePlan`). -/

namespace DumpCatalog

/-- What a plan tells of each namespace: its name, the size of its data, and whether it has
metadata. -/
def Plan.summary (plan : Plan) : List (String × Int64 × Bool) :=
  plan.intents.map fun intent => (intent.fullName, intent.size, intent.metadataPath.isSome)

theorem Plan.map_fst_summary (plan : Plan) :
    plan.summary.map Prod.fst = plan.intents.map Intent.fullName := by
  rw [summary, List.map_map]
  rfl

namespace CatalogNode

/-- What the file of a node holds. -/
def kind (node : CatalogNode) : FileKind := if node.isMetadata then .metadata else .data

@[simp] theorem kind_dataOf (record : Record) : (dataOf record).kind = .data := rfl

@[simp] theorem kind_metadataOf (record : Record) : (metadataOf record).kind = .metadata := rfl

theorem name_of_file {node : CatalogNode} (file : node.isDirectory = false) :
    node.name = node.collection ++ node.kind.suffix := by
  rw [name, if_neg (by simp [file]), kind]
  cases node.isMetadata with
  | true => rfl
  | false => rfl

end CatalogNode

theorem database_of_mem_nodes {record : Record} {node : CatalogNode} (h : node ∈ record.nodes) :
    node.database = record.database ∧ node.collection = record.collection := by
  unfold Record.nodes at h
  split at h
  · simp at h
  · split at h
    · rw [List.mem_singleton] at h
      subst h
      exact ⟨rfl, rfl⟩
    · rcases List.mem_cons.mp h with rfl | h
      · exact ⟨rfl, rfl⟩
      · rw [List.mem_singleton] at h
        subst h
        exact ⟨rfl, rfl⟩

namespace Catalog

variable {catalog : Catalog}

/-! ### Intents of records -/

/-- The intent of the file of a node. -/
def nodeIntent (catalog : Catalog) (node : CatalogNode) : Intent :=
  node.kind.intent node.database node.collection node.path (catalog.nodeSize node)

/-- The intents of the files of a record. -/
def recordIntents (catalog : Catalog) (record : Record) : List Intent :=
  record.nodes.map catalog.nodeIntent

theorem intentOf?_tree {node : CatalogNode} (file : node.isDirectory = false) :
    catalog.tree.intentOf? node.database node = some (catalog.nodeIntent node) :=
  DumpTree.intentOf?_of_name (CatalogNode.name_of_file file)
    (by simpa [CatalogNode.isDirectory] using file) node.database

theorem foundIn_tree {node : CatalogNode} (file : node.isDirectory = false) :
    catalog.tree.foundIn node.database node = [catalog.nodeIntent node] := by
  have isFile : catalog.tree.isDirectory node = false := file
  rw [DumpTree.foundIn, isFile, if_neg (by simp), intentOf?_tree file]
  rfl

theorem flatMap_foundIn (record : Record) :
    record.nodes.flatMap (catalog.tree.foundIn record.database) = catalog.recordIntents record := by
  rw [recordIntents, List.map_eq_flatMap]
  refine List.flatMap_congr fun node member => ?_
  rw [← (database_of_mem_nodes member).1]
  exact foundIn_tree (isDirectory_of_mem_nodes member)

theorem skippedIn_tree {node : CatalogNode} (file : node.isDirectory = false) :
    catalog.tree.skippedIn node.database node = [] := by
  have isFile : catalog.tree.isDirectory node = false := file
  rw [DumpTree.skippedIn, isFile, if_neg (by simp), intentOf?_tree file, if_pos (by rfl)]

theorem filter_intentOf?_tree {record : Record} {node : CatalogNode} (top : record.database = "")
    (member : node ∈ record.nodes) :
    (catalog.tree.intentOf? "" node).filter Intent.isOplog =
      if record.collection = Intent.oplogCollection then some (catalog.nodeIntent node)
      else none := by
  obtain ⟨database, collection⟩ := database_of_mem_nodes member
  have found := @intentOf?_tree catalog node (isDirectory_of_mem_nodes member)
  rw [database, top] at found
  have oplog : (catalog.nodeIntent node).isOplog =
      decide (record.collection = Intent.oplogCollection) := by
    rw [Bool.eq_iff_iff, Intent.isOplog_iff]
    simp [nodeIntent, database, collection, top]
  rw [found, Option.filter_some, oplog]
  simp only [decide_eq_true_eq]

/-- What a walk finds of a record at the top level, where it takes the log of operations only. -/
theorem flatMap_foundAtTop (below : CatalogNode → List CatalogNode) {record : Record}
    (top : record.database = "") :
    record.nodes.flatMap (catalog.tree.foundAtTop below) =
      if record.collection = Intent.oplogCollection then catalog.recordIntents record else [] := by
  have each : ∀ node ∈ record.nodes, catalog.tree.foundAtTop below node =
      if record.collection = Intent.oplogCollection then [catalog.nodeIntent node] else [] := by
    intro node member
    have isFile : catalog.tree.isDirectory node = false := isDirectory_of_mem_nodes member
    rw [DumpTree.foundAtTop, isFile, if_neg (by simp), filter_intentOf?_tree top member]
    split
    · rfl
    · rfl
  rw [recordIntents, List.map_eq_flatMap, List.flatMap_congr each]
  by_cases log : record.collection = Intent.oplogCollection
  · simp [log]
  · simp [log]

theorem flatMap_skippedAtTop (below : CatalogNode → List CatalogNode) {record : Record}
    (top : record.database = "") :
    record.nodes.flatMap (catalog.tree.skippedAtTop below) =
      if record.collection = Intent.oplogCollection then []
      else record.nodes.map fun node => .strayFile node.path := by
  have each : ∀ node ∈ record.nodes, catalog.tree.skippedAtTop below node =
      if record.collection = Intent.oplogCollection then [] else [.strayFile node.path] := by
    intro node member
    have isFile : catalog.tree.isDirectory node = false := isDirectory_of_mem_nodes member
    rw [DumpTree.skippedAtTop, isFile, if_neg (by simp), filter_intentOf?_tree top member]
    split
    · rfl
    · rfl
  rw [List.map_eq_flatMap, List.flatMap_congr each]
  by_cases log : record.collection = Intent.oplogCollection
  · simp [log]
  · simp [log]

/-! ### The plan of a catalog -/

/-- The records of a database, in order. -/
def recordsOf (catalog : Catalog) (database : String) : List Record :=
  catalog.records.filter fun record => record.database = database

theorem mem_recordsOf {database : String} {record : Record} :
    record ∈ catalog.recordsOf database ↔
      record ∈ catalog.records ∧ record.database = database := by
  simp [recordsOf]

/-- The records whose files are taken into a plan, in the order in which a walk comes to them. -/
def restored (catalog : Catalog) : List Record :=
  (catalog.recordsOf "").filter (fun record => record.collection = Intent.oplogCollection) ++
    (catalog.databases.filter fun database => !database.isEmpty).flatMap catalog.recordsOf

/-- The records at the top level whose files are passed over: all but those of the log of
operations. -/
def passedOver (catalog : Catalog) : List Record :=
  (catalog.recordsOf "").filter fun record => record.collection ≠ Intent.oplogCollection

theorem mem_restored_iff (h : catalog.Grouped) {record : Record} :
    record ∈ catalog.restored ↔ record ∈ catalog.records ∧
      (record.database = "" → record.collection = Intent.oplogCollection) := by
  rw [restored, List.mem_append, List.mem_filter, List.mem_flatMap, decide_eq_true_eq]
  constructor
  · rintro (⟨top, log⟩ | ⟨database, known, inside⟩)
    · exact ⟨(mem_recordsOf.mp top).1, fun _ => log⟩
    · obtain ⟨member, rfl⟩ := mem_recordsOf.mp inside
      have named := (List.mem_filter.mp known).2
      exact ⟨member, fun top => (by simp [top] at named)⟩
  · rintro ⟨member, log⟩
    by_cases top : record.database = ""
    · exact .inl ⟨mem_recordsOf.mpr ⟨member, top⟩, log top⟩
    · have known := h.mem_databases.mpr (List.mem_map_of_mem member)
      exact .inr ⟨record.database, List.mem_filter.mpr ⟨known, by simpa using top⟩,
        mem_recordsOf.mpr ⟨member, rfl⟩⟩

/-- The nodes in the directory of a database. -/
def nodesOf (catalog : Catalog) (node : CatalogNode) : List CatalogNode :=
  (catalog.recordsOf node.database).flatMap Record.nodes

theorem children_root (h : catalog.Grouped) :
    catalog.tree.children CatalogNode.root =
      .ok ((catalog.recordsOf "").flatMap Record.nodes ++
        (catalog.databases.filter fun database => !database.isEmpty).map
          CatalogNode.ofDatabase) := by
  show catalog.children CatalogNode.root = _
  rw [children, if_pos (by decide), if_pos (by decide), h.getD_recordsIn?]
  rfl

theorem children_ofDatabase (h : catalog.Grouped) {database : String}
    (known : database ∈ catalog.databases) (named : (!database.isEmpty) = true) :
    catalog.tree.children (CatalogNode.ofDatabase database) =
      .ok (catalog.nodesOf (CatalogNode.ofDatabase database)) := by
  have nonempty : (CatalogNode.ofDatabase database).database.isEmpty = false := by
    show database.isEmpty = false
    simpa using named
  have isDir : (CatalogNode.ofDatabase database).isDirectory = true := rfl
  have found : catalog.recordsIn? (CatalogNode.ofDatabase database).database =
      some (catalog.recordsOf database) := by
    rw [h.recordsIn?_eq]
    exact if_pos (h.mem_databases.mp known)
  show catalog.children (CatalogNode.ofDatabase database) = _
  rw [children, if_pos isDir, if_neg (by simp [nonempty]), found]
  rfl

theorem foundAtTop_ofDatabase (database : String) :
    catalog.tree.foundAtTop catalog.nodesOf (CatalogNode.ofDatabase database) =
      (catalog.recordsOf database).flatMap catalog.recordIntents := by
  have isDir : catalog.tree.isDirectory (CatalogNode.ofDatabase database) = true := rfl
  have name : catalog.tree.name (CatalogNode.ofDatabase database) = database := rfl
  have nodes : catalog.nodesOf (CatalogNode.ofDatabase database) =
      (catalog.recordsOf database).flatMap Record.nodes := rfl
  rw [DumpTree.foundAtTop, if_pos isDir, name, nodes, List.flatMap_assoc]
  refine List.flatMap_congr fun record inside => ?_
  rw [← (mem_recordsOf.mp inside).2]
  exact flatMap_foundIn record

theorem skippedAtTop_ofDatabase (database : String) :
    catalog.tree.skippedAtTop catalog.nodesOf (CatalogNode.ofDatabase database) = [] := by
  have isDir : catalog.tree.isDirectory (CatalogNode.ofDatabase database) = true := rfl
  rw [DumpTree.skippedAtTop, if_pos isDir, List.flatMap_eq_nil_iff]
  intro node member
  obtain ⟨record, inside, member⟩ := List.mem_flatMap.mp member
  have same : node.database = database :=
    (database_of_mem_nodes member).1.trans (mem_recordsOf.mp inside).2
  rw [show catalog.tree.name (CatalogNode.ofDatabase database) = node.database from same.symm]
  exact skippedIn_tree (isDirectory_of_mem_nodes member)

/-- **The plan of a catalog is made of the intents of its records**, those of the log of operations
first and then those of each database. The other files of the top level are reported. -/
theorem plan_eq (h : catalog.Grouped) :
    catalog.tree.plan =
      ⟨(catalog.passedOver.flatMap Record.nodes).map (fun node => .strayFile node.path) ++
          [.planMade (Plan.ofIntents (catalog.restored.flatMap catalog.recordIntents)).size],
        .ok (Plan.ofIntents (catalog.restored.flatMap catalog.recordIntents))⟩ := by
  have walk := catalog.tree.planFrom_eq catalog.nodesOf (children_root h) (by
    intro child member isDir
    rcases List.mem_append.mp member with file | directory
    · obtain ⟨record, -, inside⟩ := List.mem_flatMap.mp file
      have isFile : catalog.tree.isDirectory child = false := isDirectory_of_mem_nodes inside
      rw [isFile] at isDir
      cases isDir
    · obtain ⟨database, known, rfl⟩ := List.mem_map.mp directory
      obtain ⟨known, named⟩ := List.mem_filter.mp known
      exact children_ofDatabase h known named)
  have top : ((catalog.recordsOf "").flatMap Record.nodes).flatMap
      (catalog.tree.foundAtTop catalog.nodesOf) =
        ((catalog.recordsOf "").filter fun record =>
          record.collection = Intent.oplogCollection).flatMap catalog.recordIntents := by
    rw [List.flatMap_assoc, flatMap_filter]
    refine List.flatMap_congr fun record inside => ?_
    rw [flatMap_foundAtTop _ (mem_recordsOf.mp inside).2]
    simp only [decide_eq_true_eq]
  have below : ((catalog.databases.filter fun database => !database.isEmpty).map
      CatalogNode.ofDatabase).flatMap (catalog.tree.foundAtTop catalog.nodesOf) =
        ((catalog.databases.filter fun database => !database.isEmpty).flatMap
          catalog.recordsOf).flatMap catalog.recordIntents := by
    rw [List.flatMap_map, List.flatMap_assoc]
    exact List.flatMap_congr fun database _ => foundAtTop_ofDatabase database
  have stray : ((catalog.recordsOf "").flatMap Record.nodes).flatMap
      (catalog.tree.skippedAtTop catalog.nodesOf) =
        (catalog.passedOver.flatMap Record.nodes).map fun node => .strayFile node.path := by
    rw [List.flatMap_assoc, passedOver, List.map_flatMap, flatMap_filter]
    refine List.flatMap_congr fun record inside => ?_
    rw [flatMap_skippedAtTop _ (mem_recordsOf.mp inside).2]
    simp only [ne_eq, decide_not, Bool.not_eq_true', decide_eq_false_iff_not, ite_not]
  have none : ((catalog.databases.filter fun database => !database.isEmpty).map
      CatalogNode.ofDatabase).flatMap (catalog.tree.skippedAtTop catalog.nodesOf) = [] := by
    rw [List.flatMap_map, List.flatMap_eq_nil_iff]
    exact fun database _ => skippedAtTop_ofDatabase database
  refine Eq.trans walk ?_
  rw [restored, List.flatMap_append, List.flatMap_append, List.flatMap_append, top, below, stray,
    none, List.append_nil]

theorem outcome_restorePlan (h : catalog.Grouped) :
    catalog.restorePlan.outcome =
      .ok ⟨(Plan.ofIntents (catalog.restored.flatMap catalog.recordIntents)).intents.map
        catalog.withStoredFile⟩ := by
  rw [restorePlan, Logged.outcome_bind, plan_eq h]
  rfl

/-! ### Records for distinct namespaces -/

/-- The records are for distinct collections, of which only the log of operations is without a
database. -/
structure Distinct (catalog : Catalog) : Prop where
  unique : (catalog.records.map Record.fullName).Nodup
  full : ∀ record ∈ catalog.records, record.collection ≠ ""
  oplog : ∀ record ∈ catalog.records, record.database = "" →
    record.collection = Intent.oplogCollection

theorem Distinct.mem_restored (d : catalog.Distinct) (h : catalog.Grouped) {record : Record} :
    record ∈ catalog.restored ↔ record ∈ catalog.records := by
  rw [mem_restored_iff h]
  exact and_iff_left_of_imp (d.oplog record)

theorem Distinct.nodup_restored (d : catalog.Distinct) (h : catalog.Grouped) :
    (catalog.restored.map Record.fullName).Nodup := by
  have records : catalog.records.Nodup := List.Nodup.of_map _ d.unique
  have distinct : catalog.restored.Nodup := by
    rw [restored, List.nodup_append]
    refine ⟨(records.filter _).filter _, ?_, ?_⟩
    · rw [List.nodup_flatMap]
      refine ⟨fun database _ => records.filter _, (h.nodup.filter _).imp fun differ => ?_⟩
      intro record inside inside'
      exact differ ((mem_recordsOf.mp inside).2.symm.trans (mem_recordsOf.mp inside').2)
    · rintro record top _ below rfl
      obtain ⟨database, known, inside⟩ := List.mem_flatMap.mp below
      have empty := (mem_recordsOf.mp (List.mem_filter.mp top).1).2
      rw [(mem_recordsOf.mp inside).2] at empty
      have named := (List.mem_filter.mp known).2
      simp [empty] at named
  refine distinct.map_on fun record member other member' same => ?_
  exact List.inj_on_of_nodup_map d.unique ((d.mem_restored h).mp member)
    ((d.mem_restored h).mp member') same

theorem exists_find? {record : Record} (member : record ∈ catalog.records) :
    ∃ found, catalog.find? record.database record.collection = some found := by
  cases found : catalog.find? record.database record.collection with
  | some other => exact ⟨other, rfl⟩
  | none =>
    have absent := List.find?_eq_none.mp found record member
    simp at absent

theorem nodeSize_dataOf {record found : Record} (full : record.collection ≠ "")
    (h : catalog.find? record.database record.collection = some found) :
    catalog.nodeSize (CatalogNode.dataOf record) = found.size := by
  have file : (CatalogNode.dataOf record).isDirectory = false := by
    simpa [CatalogNode.isDirectory, CatalogNode.dataOf] using full
  have key : catalog.find? (CatalogNode.dataOf record).database
      (CatalogNode.dataOf record).collection = some found := h
  rw [nodeSize, file, key]
  rfl

theorem Distinct.find?_eq (d : catalog.Distinct) {record : Record}
    (member : record ∈ catalog.records) :
    catalog.find? record.database record.collection = some record := by
  obtain ⟨other, found⟩ := exists_find? member
  have same := List.find?_some found
  simp only [Bool.and_eq_true, decide_eq_true_eq] at same
  have name : other.fullName = record.fullName := by
    rw [Record.fullName, Record.fullName, same.1, same.2]
  rw [found, List.inj_on_of_nodup_map d.unique (List.mem_of_find?_eq_some found) member name]

theorem summary_of_mergeOf {record : Record} {intent : Intent} (full : record.collection ≠ "")
    (merged : intent.MergeOf (catalog.recordIntents record)) :
    intent.fullName = record.fullName ∧
      intent.size = catalog.nodeSize (CatalogNode.dataOf record) ∧
      intent.metadataPath.isSome = !record.metadata.isEmpty := by
  obtain ⟨first, later, whole, rfl⟩ := merged
  rw [recordIntents, Record.nodes, if_neg (by simpa using full)] at whole
  cases empty : record.metadata.isEmpty with
  | true =>
    rw [empty, if_pos rfl] at whole
    obtain ⟨rfl, rfl⟩ := List.cons.inj whole
    exact ⟨rfl, rfl, rfl⟩
  | false =>
    rw [empty, if_neg (by simp)] at whole
    obtain ⟨rfl, rest⟩ := List.cons.inj whole
    obtain rfl := rest
    exact ⟨rfl, rfl, rfl⟩

theorem recordIntents_ne_nil {record : Record} (full : record.collection ≠ "") :
    catalog.recordIntents record ≠ [] := by
  rw [recordIntents, Record.nodes, if_neg (by simpa using full)]
  split
  · exact List.cons_ne_nil _ _
  · exact List.cons_ne_nil _ _

theorem names_of_mem_recordIntents {record : Record} {intent : Intent}
    (h : intent ∈ catalog.recordIntents record) :
    intent.database = record.database ∧ intent.collection = record.collection := by
  obtain ⟨node, member, rfl⟩ := List.mem_map.mp h
  obtain ⟨database, collection⟩ := database_of_mem_nodes member
  simp [nodeIntent, database, collection]

theorem fullName_of_mem_recordIntents {record : Record} {intent : Intent}
    (h : intent ∈ catalog.recordIntents record) : intent.fullName = record.fullName := by
  obtain ⟨database, collection⟩ := names_of_mem_recordIntents h
  rw [Intent.fullName, Record.fullName, database, collection]

/-- **The plan to restore distinct records tells of each of them** its size and whether it has
metadata. -/
theorem Distinct.summary_restorePlan (d : catalog.Distinct) (h : catalog.Grouped) :
    ∃ plan, catalog.restorePlan.outcome = .ok plan ∧
      plan.summary = catalog.restored.map fun record =>
        (record.fullName, record.size, !record.metadata.isEmpty) := by
  have full (record : Record) (member : record ∈ catalog.restored) : record.collection ≠ "" :=
    d.full record ((d.mem_restored h).mp member)
  have merged := Plan.forall₂_ofIntents (catalog.restored.flatMap catalog.recordIntents)
  rw [groups_flatMap (fun record member => recordIntents_ne_nil (full record member))
    (fun record _ intent inside => fullName_of_mem_recordIntents inside),
    groups_of_nodup (d.nodup_restored h), List.map_map, List.forall₂_map_right_iff] at merged
  refine ⟨_, outcome_restorePlan h, ?_⟩
  have kept (intent : Intent) : (catalog.withStoredFile intent).fullName = intent.fullName ∧
      (catalog.withStoredFile intent).size = intent.size ∧
      (catalog.withStoredFile intent).metadataPath = intent.metadataPath := by
    rw [withStoredFile]
    split
    · exact ⟨rfl, rfl, rfl⟩
    · exact ⟨rfl, rfl, rfl⟩
  rw [Plan.summary, List.map_map, ← List.forall₂_eq_eq_eq, List.forall₂_map_left_iff,
    List.forall₂_map_right_iff]
  refine forall₂_imp_of_mem merged fun intent record member merged => ?_
  rw [Function.comp_apply, List.flatMap_singleton] at merged
  obtain ⟨name, size, metadata⟩ := summary_of_mergeOf (full record member) merged
  show (_, _, _) = (_, _, _)
  rw [(kept intent).1, (kept intent).2.1, (kept intent).2.2, name, size, metadata,
    nodeSize_dataOf (full record member) (d.find?_eq ((d.mem_restored h).mp member))]

end Catalog

end DumpCatalog
