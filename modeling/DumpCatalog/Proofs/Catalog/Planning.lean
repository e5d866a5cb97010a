import DumpCatalog.Proofs.Catalog.Restoring

/-! # Catalogs: what a plan has of the records

The records of a catalog may share their namespaces, also across databases, and may have no
collection or no database. Those that have files which a walk takes (`Catalog.planned`) are grouped
by their namespaces, and the plan has one intent for each group. Its data is that of the last record
of the group, and its metadata that of the last one that has any (`Catalog.plan_ofRecords`). -/

namespace DumpCatalog

namespace Catalog

variable {catalog : Catalog}

/-! ### Records that are planned -/

/-- The records of which a plan has intents, in the order in which a walk comes to them: those that
are restored and have a collection, since the others have no files. -/
def planned (catalog : Catalog) : List Record :=
  catalog.restored.filter fun record => record.collection ≠ ""

theorem mem_planned_iff (h : catalog.Grouped) {record : Record} :
    record ∈ catalog.planned ↔ record ∈ catalog.records ∧ record.collection ≠ "" ∧
      (record.database = "" → record.collection = Intent.oplogCollection) := by
  rw [planned, List.mem_filter, mem_restored_iff h, decide_eq_true_eq]
  tauto

theorem flatMap_planned :
    catalog.planned.flatMap catalog.recordIntents =
      catalog.restored.flatMap catalog.recordIntents := by
  rw [planned, flatMap_filter]
  refine List.flatMap_congr fun record _ => ?_
  by_cases full : record.collection = ""
  · simp [full, recordIntents, Record.nodes]
  · simp [full]

/-! ### Intents of a group of records -/

/-- What the intents of records have of a field: for each record what the data file has, and then
what the metadata file has, if there is metadata. -/
theorem filterMap_recordIntents {β : Type} (field : Intent → Option β) {group : List Record}
    (full : ∀ record ∈ group, record.collection ≠ "") :
    (group.flatMap catalog.recordIntents).filterMap field = group.flatMap fun record =>
      (field (catalog.nodeIntent (CatalogNode.dataOf record))).toList ++
        if record.metadata = "" then []
        else (field (catalog.nodeIntent (CatalogNode.metadataOf record))).toList := by
  rw [List.filterMap_eq_flatMap_toList, List.flatMap_assoc]
  refine List.flatMap_congr fun record member => ?_
  have nonempty : record.collection.isEmpty = false := by simpa using full record member
  rw [recordIntents, Record.nodes, nonempty, if_neg (by simp)]
  by_cases empty : record.metadata = ""
  · simp [empty]
  · simp [empty]

/-- **The intent restores a group of records.** It has the names of the first record. It has the
data of the last one, with the size that is found for this record's names, and the metadata of the
last record that has any. -/
structure Restores (catalog : Catalog) (intent : Intent) (group : List Record) : Prop where
  names : ∃ first ∈ group.head?,
    intent.database = first.database ∧ intent.collection = first.collection
  data : ∃ last ∈ group.getLast?, intent.dataPath = some (CatalogNode.dataOf last).path ∧
    ∃ found ∈ catalog.find? last.database last.collection, intent.size = found.size
  metadataPath : intent.metadataPath =
    (group.filter fun record => record.metadata ≠ "").getLast?.map fun record =>
      (CatalogNode.metadataOf record).path
  file : intent.file = none

/-- **What merging the intents of records comes to.** -/
theorem restores_of_mergeOf {group : List Record} {intent : Intent} (nonempty : group ≠ [])
    (known : ∀ record ∈ group, record ∈ catalog.records)
    (full : ∀ record ∈ group, record.collection ≠ "")
    (merged : intent.MergeOf (group.flatMap catalog.recordIntents)) :
    catalog.Restores intent group := by
  obtain ⟨first, later, whole, sums⟩ := merged.fields
  have paths : (group.flatMap catalog.recordIntents).filterMap Intent.dataPath =
      group.map fun record => (CatalogNode.dataOf record).path := by
    rw [filterMap_recordIntents _ full, List.map_eq_flatMap]
    simp [nodeIntent]
  have sizes : (group.flatMap catalog.recordIntents).filterMap Intent.dataSize? =
      group.map fun record => catalog.nodeSize (CatalogNode.dataOf record) := by
    rw [filterMap_recordIntents _ full, List.map_eq_flatMap]
    simp [nodeIntent]
  have metadata : (group.flatMap catalog.recordIntents).filterMap Intent.metadataPath =
      (group.filter fun record => record.metadata ≠ "").map fun record =>
        (CatalogNode.metadataOf record).path := by
    rw [filterMap_recordIntents _ full, List.map_eq_flatMap, flatMap_filter]
    simp [nodeIntent]
  have files : (group.flatMap catalog.recordIntents).filterMap Intent.file = [] := by
    rw [filterMap_recordIntents _ full]
    simp [nodeIntent]
  obtain ⟨last, ends⟩ : ∃ last, group.getLast? = some last :=
    ⟨_, List.getLast?_eq_some_getLast nonempty⟩
  refine ⟨?_, ⟨last, ends, ?_, ?_⟩, ?_, ?_⟩
  · obtain ⟨record, rest, rfl⟩ := List.exists_cons_of_ne_nil nonempty
    refine ⟨record, rfl, ?_⟩
    -- the first intent of the group is one of its first record
    have some : catalog.recordIntents record ≠ [] :=
      recordIntents_ne_nil (full record (List.mem_cons_self ..))
    obtain ⟨start, others, starts⟩ := List.exists_cons_of_ne_nil some
    have inside : start ∈ catalog.recordIntents record := by
      rw [starts]
      exact List.mem_cons_self ..
    rw [List.flatMap_cons, starts, List.cons_append] at whole
    obtain ⟨rfl, -⟩ := List.cons.inj whole
    rw [sums.database, sums.collection]
    exact names_of_mem_recordIntents inside
  · rw [sums.dataPath, Intent.lastOf, paths, List.getLast?_map, ends]
    rfl
  · have member : last ∈ group := List.mem_of_getLast? ends
    obtain ⟨found, is⟩ := exists_find? (known last member)
    refine ⟨found, is, ?_⟩
    rw [sums.size, Intent.lastOf, sizes, List.getLast?_map, ends]
    exact nodeSize_dataOf (full last member) is
  · rw [sums.metadataPath, Intent.lastOf, metadata, List.getLast?_map]
  · rw [sums.file, Intent.lastOf, files]
    rfl

/-! ### The plan of a catalog with any records -/

theorem forall₂_restores (h : catalog.Grouped) :
    List.Forall₂ catalog.Restores
      (Plan.ofIntents (catalog.restored.flatMap catalog.recordIntents)).intents
      (DumpCatalog.groups Record.fullName catalog.planned) := by
  have planned (record : Record) (member : record ∈ catalog.planned) :=
    (mem_planned_iff h).mp member
  have merged := Plan.forall₂_ofIntents (catalog.planned.flatMap catalog.recordIntents)
  rw [groups_flatMap (fun record member => recordIntents_ne_nil (planned record member).2.1)
    (fun record _ intent inside => fullName_of_mem_recordIntents inside),
    List.forall₂_map_right_iff] at merged
  rw [← flatMap_planned]
  refine forall₂_imp_of_mem merged fun intent group member merged => ?_
  obtain ⟨nonempty, members⟩ := of_mem_groups member
  exact restores_of_mergeOf nonempty (fun record inside => (planned record (members _ inside)).1)
    (fun record inside => (planned record (members _ inside)).2.1) merged

/-- **The plan of any records.** A walk over the tree of a catalog does not fail, whatever the
records are. The plan has one intent for each group of records that share a namespace, in the order
of the groups; what else is at the top level is reported, file by file, and nothing more. -/
theorem plan_ofRecords (header : Header) (records : List Record) :
    ∃ plan, (ofRecords header records).tree.plan =
        ⟨((ofRecords header records).passedOver.flatMap Record.nodes).map
            (fun node => .strayFile node.path) ++ [.planMade plan.size], .ok plan⟩ ∧
      List.Forall₂ (ofRecords header records).Restores plan.intents
        (DumpCatalog.groups Record.fullName (ofRecords header records).planned) :=
  ⟨_, plan_eq (grouped_ofRecords header records),
    forall₂_restores (grouped_ofRecords header records)⟩

end Catalog

end DumpCatalog
