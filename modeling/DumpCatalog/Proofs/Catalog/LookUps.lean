import DumpCatalog.Proofs.Catalog.Listing
import DumpCatalog.Proofs.Catalog.Origins

/-! # Catalogs: the two look-ups

`Catalog.find?` goes through the flat list of records, while metadata is looked up in the group of a
database. Both come to the record that was added first for a collection (`find?_eq_some_iff`,
`Grouped.find?_eq`). So there is one record for each collection by which all questions are answered,
and there is none only if no record was added (`lookUps_agree`). -/

namespace DumpCatalog.Catalog

variable {catalog : Catalog} {database collection : String} {first : Record}

/-! ### The record that is found -/

/-- **The record that was added first for a collection.** -/
structure Earliest (catalog : Catalog) (database collection : String) (first : Record) : Prop where
  database_eq : first.database = database
  collection_eq : first.collection = collection
  before : ∃ before after, catalog.records = before ++ first :: after ∧
    ∀ other ∈ before, other.database = database → other.collection ≠ collection

theorem find?_eq_some_iff :
    catalog.find? database collection = some first ↔
      catalog.Earliest database collection first := by
  rw [find?, List.find?_eq_some_iff_append]
  constructor
  · rintro ⟨same, before, after, split, differ⟩
    simp only [Bool.and_eq_true, decide_eq_true_eq] at same
    refine ⟨same.1, same.2, before, after, split, fun other member database' collection' => ?_⟩
    have := differ other member
    simp [database', collection'] at this
  · rintro ⟨rfl, rfl, before, after, split, differ⟩
    refine ⟨by simp, before, after, split, fun other member => ?_⟩
    by_cases database' : other.database = first.database
    · simpa [database'] using differ other member database'
    · simp [database']

theorem exists_find?_iff :
    (∃ first, catalog.find? database collection = some first) ↔
      ∃ record ∈ catalog.records, record.database = database ∧
        record.collection = collection := by
  rw [← Option.isSome_iff_exists, find?, List.find?_isSome]
  simp

/-- **The flat list and the group of a database lead to the same record.** -/
theorem Grouped.find?_eq (h : catalog.Grouped) (database collection : String) :
    catalog.find? database collection =
      (catalog.recordsIn? database).bind fun records =>
        records.find? fun record => record.collection = collection := by
  rw [h.recordsIn?_eq]
  split
  · have same : (fun record : Record =>
        decide (record.database = database) && decide (record.collection = collection)) =
          fun record => decide (record.database = database ∧ record.collection = collection) := by
      funext record
      rw [Bool.decide_and]
    rw [Option.bind_some, List.find?_filter, find?, same]
    simp
  · next unknown =>
    rw [Option.bind_none, find?, List.find?_eq_none]
    intro record member same
    simp only [Bool.and_eq_true, decide_eq_true_eq] at same
    exact unknown (List.mem_map.mpr ⟨record, member, same.1⟩)

/-! ### Metadata that is read -/

/-- **Metadata is that of the record that is found**, and a collection without a name has none. -/
theorem Grouped.metadata?_eq (h : catalog.Grouped) (database collection : String) :
    catalog.metadata? database collection =
      if collection = "" then none
      else (catalog.find? database collection).map Record.metadata := by
  rw [metadata?, h.find?_eq]
  by_cases empty : collection = ""
  · rw [if_pos (by simpa using empty), if_pos empty]
  · rw [if_neg (by simpa using empty), if_neg empty]
    cases catalog.recordsIn? database with
    | none => rfl
    | some records =>
      show (records.find? _).bind _ = (records.find? _).map _
      rw [Option.map_eq_bind]
      rfl

theorem metadata?_of_find? (h : catalog.Grouped) (full : collection ≠ "")
    (found : catalog.find? database collection = some first) :
    catalog.metadata? database collection = some first.metadata := by
  rw [h.metadata?_eq, if_neg full, found]
  rfl

theorem Grouped.metadata?_eq_some_iff (h : catalog.Grouped) {text : String} :
    catalog.metadata? database collection = some text ↔
      collection ≠ "" ∧ ∃ first, catalog.Earliest database collection first ∧
        first.metadata = text := by
  rw [h.metadata?_eq]
  by_cases empty : collection = ""
  · simp [empty]
  · simp [empty, find?_eq_some_iff]

theorem Grouped.exists_metadata?_iff (h : catalog.Grouped) :
    (∃ text, catalog.metadata? database collection = some text) ↔
      collection ≠ "" ∧ ∃ record ∈ catalog.records, record.database = database ∧
        record.collection = collection := by
  rw [← exists_find?_iff]
  simp only [h.metadata?_eq_some_iff, find?_eq_some_iff]
  simp

theorem readWhole_ofCatalog {text : String}
    (known : catalog.metadata? database collection = some text) (system : Disk) :
    ((MetadataFile.ofCatalog catalog database collection).readWhole system).1 = .ok text := by
  have opened : (MetadataFile.ofCatalog catalog database collection).openOn system =
      (.ok (), .stored catalog database collection (some (.bytes (Text.toBytes text)))) := by
    rw [MetadataFile.ofCatalog, MetadataFile.openOn, known]
    rfl
  have read : (MetadataFile.stored catalog database collection
      (some (.bytes (Text.toBytes text)))).readText =
        (.ok text, .stored catalog database collection (some (.bytes []))) := by
    simp only [MetadataFile.readText, MetadataFile.session?, Session.readText,
      Text.ofBytes?_toBytes, MetadataFile.withSession]
  rw [MetadataFile.readWhole, opened]
  dsimp only
  rw [read]

theorem readWhole_ofCatalog_of_none (unknown : catalog.metadata? database collection = none)
    (system : Disk) :
    ((MetadataFile.ofCatalog catalog database collection).readWhole system).1 =
      .error (.noSuchFile (namespaceOf database collection)) := by
  have refused : (MetadataFile.ofCatalog catalog database collection).openOn system =
      (.error (.noSuchFile (namespaceOf database collection)),
        .ofCatalog catalog database collection) := by
    rw [MetadataFile.ofCatalog, MetadataFile.openOn, unknown]
  rw [MetadataFile.readWhole, refused]

/-! ### One record for all questions -/

/-- **What a collection resolves to.** The flat list and the group of its database lead to the same
record, which is the one that was added first. Metadata can be read exactly when the collection has
a name and a record; it is then the text of this record, and else the collection is refused by its
full name. -/
structure Resolves (catalog : Catalog) (database collection : String) : Prop where
  flat : catalog.find? database collection =
    (catalog.recordsIn? database).bind fun records =>
      records.find? fun record => record.collection = collection
  earliest : ∀ first, catalog.find? database collection = some first ↔
    catalog.Earliest database collection first
  readable_iff : (∃ text, catalog.metadataText database collection = .ok text) ↔
    collection ≠ "" ∧ ∃ record ∈ catalog.records, record.database = database ∧
      record.collection = collection
  text : collection ≠ "" → ∀ first, catalog.Earliest database collection first →
    catalog.metadataText database collection = .ok first.metadata
  refused : (∀ text, catalog.metadataText database collection ≠ .ok text) →
    catalog.metadataText database collection =
      .error (.noSuchFile (namespaceOf database collection))

theorem metadataText_of_find? (h : catalog.Grouped) (full : collection ≠ "")
    (found : catalog.find? database collection = some first) :
    catalog.metadataText database collection = .ok first.metadata :=
  readWhole_ofCatalog (metadata?_of_find? h full found) .empty

theorem metadataText_eq_ok_iff {text : String} :
    catalog.metadataText database collection = .ok text ↔
      catalog.metadata? database collection = some text := by
  cases known : catalog.metadata? database collection with
  | some other => simp [metadataText, readWhole_ofCatalog known]
  | none => simp [metadataText, readWhole_ofCatalog_of_none known]

theorem Grouped.resolves (h : catalog.Grouped) (database collection : String) :
    catalog.Resolves database collection := by
  refine ⟨h.find?_eq database collection, fun first => find?_eq_some_iff, ?_, ?_, ?_⟩
  · simp only [metadataText_eq_ok_iff]
    exact h.exists_metadata?_iff
  · intro full first earliest
    exact metadataText_of_find? h full (find?_eq_some_iff.mpr earliest)
  · intro unreadable
    refine readWhole_ofCatalog_of_none ?_ .empty
    rw [Option.eq_none_iff_forall_ne_some]
    exact fun text known => unreadable text (metadataText_eq_ok_iff.mpr known)

/-- The size that a file of the tree shows and the metadata of its collection are of one record. -/
theorem exists_earliest_of_reaches (h : catalog.Grouped) {node : CatalogNode}
    (reached : catalog.tree.Reaches node) (file : catalog.tree.isDirectory node = false) :
    ∃ first, catalog.Earliest node.database node.collection first ∧
      catalog.tree.size node = (if node.isMetadata then 0 else first.size) ∧
      ∀ system, ((MetadataFile.ofCatalog catalog node.database node.collection).readWhole
        system).1 = .ok first.metadata := by
  have isFile : node.isDirectory = false := file
  have full : node.collection ≠ "" := by simpa [CatalogNode.isDirectory] using isFile
  have found : ∃ first, catalog.find? node.database node.collection = some first := by
    cases places_of_reaches h reached with
    | root => simp [CatalogNode.root] at full
    | directory => simp [CatalogNode.ofDatabase] at full
    | file member inside =>
      obtain ⟨database, collection⟩ := database_of_mem_nodes inside
      rw [database, collection]
      exact exists_find? member
  obtain ⟨first, found⟩ := found
  refine ⟨first, find?_eq_some_iff.mp found, ?_,
    readWhole_ofCatalog (metadata?_of_find? h full found)⟩
  show catalog.nodeSize node = _
  rw [nodeSize, isFile, found, Bool.false_or]
  rfl

/-- **Both look-ups resolve to the same record**, whichever collection is asked for: the one that was
added first, if there is any. So the size that a file of the tree shows and the metadata that is
read for its collection are always of one and the same record. -/
theorem lookUps_agree (origin : catalog.Built ∨ ∃ source, (read source).1.outcome = .ok catalog) :
    (∀ database collection, catalog.Resolves database collection) ∧
    ∀ node, catalog.tree.Reaches node → catalog.tree.isDirectory node = false →
      ∃ first, catalog.Earliest node.database node.collection first ∧
        catalog.tree.size node = (if node.isMetadata then 0 else first.size) ∧
        ∀ system, ((MetadataFile.ofCatalog catalog node.database node.collection).readWhole
          system).1 = .ok first.metadata := by
  have grouped := grouped_of_origin origin
  exact ⟨grouped.resolves, fun node => exists_earliest_of_reaches grouped⟩

/-- A catalog with two records for one collection, one for a collection of the same name at the top
level, and one for a database alone. -/
def overlapping : Catalog :=
  ofRecords (Header.new 1) [⟨"db", "c", "first", 1⟩, ⟨"", "c", "top", 2⟩, ⟨"db", "", "", 0⟩,
    ⟨"db", "c", "later", 3⟩]

/-- The first of the two records is the one that is found and read. -/
theorem lookUps_agree_overlapping :
    (overlapping.Built ∨ ∃ source, (read source).1.outcome = .ok overlapping) ∧
      overlapping.find? "db" "c" = some ⟨"db", "c", "first", 1⟩ ∧
      overlapping.metadataText "db" "c" = .ok "first" := by
  have built : overlapping.Built := ⟨_, _, rfl⟩
  have found : overlapping.find? "db" "c" = some ⟨"db", "c", "first", 1⟩ := by decide
  have resolves := (lookUps_agree (.inl built)).1 "db" "c"
  exact ⟨.inl built, found, resolves.text (by decide) _ ((resolves.earliest _).mp found)⟩

end DumpCatalog.Catalog
