import DumpCatalog.Proofs.Catalog.LookUps
import DumpCatalog.Proofs.Catalog.Planning

/-! # Catalogs: what is shown of a record

A node of the tree is the key of a collection, and every question about it is answered by the first
record with this key. So of records for one collection the first is shown in the place of all: its
size for each of their data files (`nodeSize_dataOf`), and its metadata wherever one of them has
metadata (`metadataText_of_find?`, `readWhole_of_restorePlan`). A record is shown as it is exactly when
the first one does not differ in what is shown (`shownAs_iff`). The main statement is
`shownAs_first`. -/

namespace DumpCatalog.Catalog

variable {catalog : Catalog} {record first : Record}

/-- **A record is shown as another one.** The directory of its database lists its files, and the
data file has the size of the other one. If the record has metadata, what is read for its collection
is the metadata of the other one, and so is what the intent for this collection, if there is one,
has attached to it. -/
structure ShownAs (catalog : Catalog) (record shown : Record) : Prop where
  listed : ∃ nodes, catalog.tree.children (CatalogNode.ofDatabase record.database) = .ok nodes ∧
    CatalogNode.dataOf record ∈ nodes ∧
    (record.metadata ≠ "" → CatalogNode.metadataOf record ∈ nodes)
  size : catalog.tree.size (CatalogNode.dataOf record) = shown.size
  text : record.metadata ≠ "" →
    catalog.metadataText record.database record.collection = .ok shown.metadata
  file : record.metadata ≠ "" → ∃ plan, catalog.restorePlan.outcome = .ok plan ∧
    ∀ intent ∈ plan.intents, intent.database = record.database →
      intent.collection = record.collection →
      ∃ file ∈ intent.file, ∀ system, (file.readWhole system).1 = .ok shown.metadata

/-! ### Files that are listed -/

theorem dataOf_mem_nodes (full : record.collection ≠ "") :
    CatalogNode.dataOf record ∈ record.nodes := by
  rw [Record.nodes, if_neg (by simpa using full)]
  split
  · exact List.mem_cons_self ..
  · exact List.mem_cons_self ..

theorem metadataOf_mem_nodes (full : record.collection ≠ "") (filled : record.metadata ≠ "") :
    CatalogNode.metadataOf record ∈ record.nodes := by
  rw [Record.nodes, if_neg (by simpa using full), if_neg (by simpa using filled)]
  exact List.mem_cons_of_mem _ (List.mem_cons_self ..)

theorem exists_children (h : catalog.Grouped) (member : record ∈ catalog.records) :
    ∃ nodes, catalog.tree.children (CatalogNode.ofDatabase record.database) = .ok nodes ∧
      ∀ node ∈ record.nodes, node ∈ nodes := by
  have inside : record ∈ catalog.recordsOf record.database := mem_recordsOf.mpr ⟨member, rfl⟩
  by_cases top : record.database = ""
  · rw [top] at inside ⊢
    refine ⟨_, children_root h, fun node mem => List.mem_append_left _ ?_⟩
    exact List.mem_flatMap.mpr ⟨record, inside, mem⟩
  · have known := h.mem_databases.mpr (List.mem_map_of_mem member)
    refine ⟨_, children_ofDatabase h known (by simpa using top), fun node mem => ?_⟩
    exact List.mem_flatMap.mpr ⟨record, inside, mem⟩

/-! ### Metadata that is attached -/

theorem isSome_metadataPath (h : catalog.Grouped) (member : record ∈ catalog.records)
    (full : record.collection ≠ "") (filled : record.metadata ≠ "") {intent : Intent}
    (planned : intent ∈
      (Plan.ofIntents (catalog.restored.flatMap catalog.recordIntents)).intents)
    (database : intent.database = record.database)
    (collection : intent.collection = record.collection) : intent.metadataPath.isSome = true := by
  obtain ⟨group, known, restores⟩ := exists_of_mem_forall₂ (forall₂_restores h) planned
  obtain ⟨key, -, rfl⟩ := List.mem_map.mp known
  obtain ⟨leader, head, database', collection'⟩ := restores.names
  obtain ⟨inside, name⟩ := mem_groupOf.mp (List.mem_of_mem_head? head)
  -- the record is planned as the first of its group is, and its namespace is the same
  have among : record ∈ groupOf Record.fullName catalog.planned key := by
    rw [database] at database'
    rw [collection] at collection'
    have leads := (mem_planned_iff h).mp inside
    rw [← database', ← collection'] at leads
    refine mem_groupOf.mpr ⟨(mem_planned_iff h).mpr ⟨member, full, leads.2.2⟩, ?_⟩
    rw [← name, Record.fullName, Record.fullName, database', collection']
  have last : (groupOf Record.fullName catalog.planned key).filter
      (fun record => record.metadata ≠ "") ≠ [] :=
    List.ne_nil_of_mem (List.mem_filter.mpr ⟨among, by simpa using filled⟩)
  rw [restores.metadataPath, List.getLast?_eq_some_getLast last]
  rfl

/-- **What is attached to the intent for the collection of a record with metadata** is the metadata
of the record that is found. -/
theorem readWhole_of_restorePlan (h : catalog.Grouped) (member : record ∈ catalog.records)
    (full : record.collection ≠ "") (filled : record.metadata ≠ "")
    (found : catalog.find? record.database record.collection = some first) :
    ∃ plan, catalog.restorePlan.outcome = .ok plan ∧
      ∀ intent ∈ plan.intents, intent.database = record.database →
        intent.collection = record.collection →
        ∃ file ∈ intent.file, ∀ system, (file.readWhole system).1 = .ok first.metadata := by
  refine ⟨_, outcome_restorePlan h, fun intent inside database collection => ?_⟩
  obtain ⟨before, planned, rfl⟩ := List.mem_map.mp inside
  have names : (catalog.withStoredFile before).database = before.database ∧
      (catalog.withStoredFile before).collection = before.collection := by
    rw [withStoredFile]
    split
    · exact ⟨rfl, rfl⟩
    · exact ⟨rfl, rfl⟩
  rw [names.1] at database
  rw [names.2] at collection
  have attached : (catalog.withStoredFile before).file =
      some (.ofCatalog catalog record.database record.collection) := by
    rw [withStoredFile, if_pos (isSome_metadataPath h member full filled planned database collection),
      database, collection]
  exact ⟨_, attached, readWhole_ofCatalog (metadata?_of_find? h full found)⟩

/-! ### What is shown -/

theorem shownAs_of_find? (h : catalog.Grouped) (member : record ∈ catalog.records)
    (full : record.collection ≠ "")
    (found : catalog.find? record.database record.collection = some first) :
    catalog.ShownAs record first where
  listed := by
    obtain ⟨nodes, children, all⟩ := exists_children h member
    exact ⟨nodes, children, all _ (dataOf_mem_nodes full),
      fun filled => all _ (metadataOf_mem_nodes full filled)⟩
  size := nodeSize_dataOf full found
  text := fun _ => metadataText_of_find? h full found
  file := fun filled => readWhole_of_restorePlan h member full filled found

/-- **A record is shown as any other that does not differ in what is shown of the one that is
found.** -/
theorem shownAs_iff (h : catalog.Grouped) (member : record ∈ catalog.records)
    (full : record.collection ≠ "")
    (found : catalog.find? record.database record.collection = some first) {shown : Record} :
    catalog.ShownAs record shown ↔
      shown.size = first.size ∧ (record.metadata ≠ "" → shown.metadata = first.metadata) := by
  have shows := shownAs_of_find? h member full found
  constructor
  · intro other
    refine ⟨other.size.symm.trans shows.size, fun filled => ?_⟩
    exact Except.ok.inj ((other.text filled).symm.trans (shows.text filled))
  · rintro ⟨size, metadata⟩
    refine ⟨shows.listed, shows.size.trans size.symm, fun filled => ?_, fun filled => ?_⟩
    · rw [metadata filled]
      exact shows.text filled
    · rw [metadata filled]
      exact shows.file filled

/-- **Every record is shown as the first one for its collection.** So a record is shown as it is
exactly when the first one has the same size and, where the record has metadata, the same
metadata. -/
theorem shownAs_first
    (origin : catalog.Built ∨ ∃ source, (read source).1.outcome = .ok catalog)
    (member : record ∈ catalog.records) (full : record.collection ≠ "") :
    ∃ first, catalog.Earliest record.database record.collection first ∧
      catalog.ShownAs record first ∧
      (catalog.ShownAs record record ↔
        record.size = first.size ∧ (record.metadata ≠ "" → record.metadata = first.metadata)) := by
  have grouped := grouped_of_origin origin
  obtain ⟨first, found⟩ := exists_find? member
  exact ⟨first, find?_eq_some_iff.mp found, shownAs_of_find? grouped member full found,
    shownAs_iff grouped member full found⟩

/-- A record, and another one for the same collection. -/
def firstTwin : Record := ⟨"db", "c", "\x7b\x7d", 1⟩

def secondTwin : Record := ⟨"db", "c", "later", 2⟩

/-- A catalog with both of them. -/
def twins : Catalog := ofRecords (Header.new 1) [firstTwin, secondTwin]

/-- The second record is shown as the first one. -/
theorem shownAs_first_twins :
    secondTwin ∈ twins.records ∧ secondTwin.collection ≠ "" ∧
      ∃ first, twins.Earliest secondTwin.database secondTwin.collection first ∧
        twins.ShownAs secondTwin first ∧
        (twins.ShownAs secondTwin secondTwin ↔ secondTwin.size = first.size ∧
          (secondTwin.metadata ≠ "" → secondTwin.metadata = first.metadata)) :=
  ⟨by decide, by decide, shownAs_first (.inl ⟨_, _, rfl⟩) (by decide) (by decide)⟩

/-- The second record is not shown as it is. -/
theorem not_shownAs_twins :
    ¬ ∀ record ∈ twins.records, record.collection ≠ "" → twins.ShownAs record record := by
  intro all
  have size := (all secondTwin (by decide) (by decide)).size
  exact absurd size (by decide)

end DumpCatalog.Catalog
