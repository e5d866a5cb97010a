import DumpCatalog.Proofs.Catalog.Origins
import DumpCatalog.Proofs.Plan.Grouping

/-! # Catalogs: a list of databases and a map of positions

The groups of a catalog tell the databases as well as the positions of their records. They may be
kept apart (`IndexedCatalog`): a list of the databases in the order in which they were first seen,
and a map that leads from each to the positions of its records. For a new database both are
extended, one after the other; for one that the map knows, only its positions are. Neither is ever
compared with the other or with the records, and still all three are in step after any records
(`IndexedCatalog.inStep_ofRecords`). What that comes to is `IndexedCatalog.shows_ofRecords`; the
groups of a catalog are the list and the map put together (`IndexedCatalog.toCatalog_ofRecords`). -/

namespace DumpCatalog

/-- A header and records, with a list of databases and a map of positions beside them. -/
structure IndexedCatalog where
  header : Header
  records : List Record
  databases : List String
  positions : Std.HashMap String (List Nat)

namespace IndexedCatalog

/-- The catalog without records. -/
def new (header : Header) : IndexedCatalog := ⟨header, [], [], ∅⟩

/-- The catalog with the position of a record entered for its database. Only the map decides whether
the database is new. -/
def enter (catalog : IndexedCatalog) (database : String) (position : Nat) : IndexedCatalog :=
  match catalog.positions[database]? with
  | some others =>
    { catalog with positions := catalog.positions.insert database (others ++ [position]) }
  | none =>
    { catalog with
      databases := catalog.databases ++ [database]
      positions := catalog.positions.insert database [position] }

/-- The catalog with one more record behind the others. -/
def add (catalog : IndexedCatalog) (record : Record) : IndexedCatalog :=
  let entered := catalog.enter record.database catalog.records.length
  { entered with records := entered.records ++ [record] }

/-- The catalog with these records behind the others, in order. -/
def addAll (catalog : IndexedCatalog) (records : List Record) : IndexedCatalog :=
  records.foldl add catalog

/-- The catalog of these records. -/
def ofRecords (header : Header) (records : List Record) : IndexedCatalog :=
  (new header).addAll records

/-- What stands at the positions of a database, if the map has it. Behind the end of the records
there would be nothing. -/
def recordsIn? (catalog : IndexedCatalog) (database : String) : Option (List (Option Record)) :=
  (catalog.positions[database]?).map fun positions => positions.map (catalog.records[·]?)

/-- Whether two catalogs have the same header, records, databases and positions. -/
def same (catalog other : IndexedCatalog) : Bool :=
  catalog.header == other.header && catalog.databases == other.databases &&
    catalog.positions == other.positions && catalog.records == other.records

/-- The catalog whose groups are the lists of the map. -/
def toCatalog (catalog : IndexedCatalog) : Catalog :=
  ⟨catalog.header, catalog.records,
    catalog.databases.map fun database => ⟨database, catalog.positions[database]?.getD []⟩⟩

end IndexedCatalog

/-! ### The positions of a database -/

/-- Where the records of a database stand among others. -/
def positionsIn (records : List Record) (database : String) : List Nat :=
  (groupOf (fun placed : Record × Nat => placed.1.database) records.zipIdx database).map Prod.snd

theorem positionsIn_concat (records : List Record) (record : Record) (database : String) :
    positionsIn (records ++ [record]) database =
      if record.database = database then positionsIn records database ++ [records.length]
      else positionsIn records database := by
  have placed : (records ++ [record]).zipIdx = records.zipIdx ++ [(record, records.length)] := by
    rw [List.zipIdx_append, Nat.zero_add]
    rfl
  rw [positionsIn, placed, groupOf_concat]
  split
  · rw [List.map_append]
    rfl
  · rfl

theorem map_database_zipIdx (records : List Record) :
    records.zipIdx.map (fun placed => placed.1.database) = records.map Record.database := by
  conv => rhs; rw [← List.zipIdx_map_fst 0 records, List.map_map]
  rfl

theorem positionsIn_eq_nil {records : List Record} {database : String}
    (absent : database ∉ records.map Record.database) : positionsIn records database = [] := by
  rw [← map_database_zipIdx] at absent
  rw [positionsIn, groupOf_eq_nil absent, List.map_nil]

/-- The positions of a database lead to its records, and none leads anywhere else. -/
theorem map_positionsIn (records : List Record) (database : String) :
    (positionsIn records database).map (records[·]?) =
      (records.filter fun record => record.database = database).map some := by
  have leads : (positionsIn records database).map (records[·]?) =
      ((groupOf (fun placed : Record × Nat => placed.1.database) records.zipIdx database).map
        Prod.fst).map some := by
    rw [positionsIn, List.map_map, List.map_map]
    refine List.map_congr_left fun ⟨record, position⟩ member => ?_
    exact List.mk_mem_zipIdx_iff_getElem?.mp (mem_groupOf.mp member).1
  rw [leads, groupOf]
  conv => rhs; rw [← List.zipIdx_map_fst 0 records, List.filter_map]
  rfl

theorem lt_of_mem_positionsIn {records : List Record} {database : String} {position : Nat}
    (member : position ∈ positionsIn records database) : position < records.length := by
  obtain ⟨⟨record, _⟩, inside, rfl⟩ := List.mem_map.mp member
  have here := List.mk_mem_zipIdx_iff_getElem?.mp (mem_groupOf.mp inside).1
  exact (List.getElem?_eq_some_iff.mp here).1

theorem perm_positionsIn (records : List Record) :
    ((records.map Record.database).eraseDups.flatMap (positionsIn records)).Perm
      (List.range records.length) := by
  have positions : records.zipIdx.map Prod.snd = List.range records.length := by
    rw [List.zipIdx_map_snd, List.range_eq_range']
  have distinct : records.zipIdx.Nodup := by
    refine List.Nodup.of_map Prod.snd ?_
    rw [positions]
    exact List.nodup_range
  have grouped : (groups (fun placed : Record × Nat => placed.1.database)
      records.zipIdx).flatten.Perm records.zipIdx := perm_flatten_groups distinct
  have each := grouped.map Prod.snd
  rw [positions, groups, map_database_zipIdx, ← List.flatMap_def, List.map_flatMap] at each
  exact each

/-! ### The list and the map are in step -/

namespace IndexedCatalog

/-- **The list and the map are in step with the records**: the list has their databases, each where
it comes first, and the map leads from the databases in the list to the positions of their records,
and from nothing else anywhere. -/
structure InStep (catalog : IndexedCatalog) : Prop where
  databases : catalog.databases = (catalog.records.map Record.database).eraseDups
  positions : ∀ database, catalog.positions[database]? =
    if database ∈ catalog.databases then some (positionsIn catalog.records database) else none

variable {catalog : IndexedCatalog}

theorem InStep.mem_databases (h : catalog.InStep) {database : String} :
    database ∈ catalog.databases ↔ database ∈ catalog.records.map Record.database := by
  rw [h.databases, List.mem_eraseDups]

theorem inStep_new (header : Header) : (new header).InStep :=
  ⟨rfl, fun _ => Std.HashMap.getElem?_empty⟩

/-- Whether the map knows its database shows only in the list of databases when a record is added. -/
theorem InStep.add_eq (h : catalog.InStep) (record : Record) :
    catalog.add record = ⟨catalog.header, catalog.records ++ [record],
      if record.database ∈ catalog.databases then catalog.databases
      else catalog.databases ++ [record.database],
      catalog.positions.insert record.database
        (positionsIn (catalog.records ++ [record]) record.database)⟩ := by
  have there := h.positions record.database
  rw [positionsIn_concat, if_pos rfl]
  by_cases known : record.database ∈ catalog.databases
  · rw [if_pos known] at there ⊢
    rw [add, enter, there]
  · rw [if_neg known] at there ⊢
    rw [add, enter, there, positionsIn_eq_nil (h.mem_databases.not.mp known), List.nil_append]

/-- **Adding a record keeps the list and the map in step.** -/
theorem InStep.add (h : catalog.InStep) (record : Record) : (catalog.add record).InStep := by
  rw [h.add_eq]
  refine ⟨?_, fun database => ?_⟩
  · simp only [h.mem_databases, List.map_append, List.map_singleton, eraseDups_concat,
      ← h.databases]
  · have listed : (database ∈ if record.database ∈ catalog.databases then catalog.databases
        else catalog.databases ++ [record.database]) ↔
        record.database = database ∨ database ∈ catalog.databases := by
      split
      · next known => exact ⟨.inr, fun either => either.elim (fun same => same ▸ known) id⟩
      · rw [List.mem_append, List.mem_singleton, or_comm, eq_comm]
    dsimp only
    rw [Std.HashMap.getElem?_insert]
    by_cases same : record.database = database
    · rw [if_pos (beq_iff_eq.mpr same), if_pos (listed.mpr (.inl same)), same]
    · have others : positionsIn (catalog.records ++ [record]) database =
          positionsIn catalog.records database := by
        rw [positionsIn_concat, if_neg same]
      rw [if_neg (by simpa using same), h.positions, others]
      simp only [listed, same, false_or]

theorem ofRecords_concat (header : Header) (records : List Record) (record : Record) :
    ofRecords header (records ++ [record]) = (ofRecords header records).add record := by
  rw [ofRecords, addAll, List.foldl_append]
  rfl

@[simp] theorem records_add (catalog : IndexedCatalog) (record : Record) :
    (catalog.add record).records = catalog.records ++ [record] := by
  rw [add, enter]
  split <;> rfl

@[simp] theorem header_add (catalog : IndexedCatalog) (record : Record) :
    (catalog.add record).header = catalog.header := by
  rw [add, enter]
  split <;> rfl

theorem records_ofRecords (header : Header) (records : List Record) :
    (ofRecords header records).records = records := by
  induction records using List.reverseRecOn with
  | nil => rfl
  | append_singleton records record ih => rw [ofRecords_concat, records_add, ih]

theorem header_ofRecords (header : Header) (records : List Record) :
    (ofRecords header records).header = header := by
  induction records using List.reverseRecOn with
  | nil => rfl
  | append_singleton records record ih => rw [ofRecords_concat, header_add, ih]

/-- **List, map and records are in step after any records.** -/
theorem inStep_ofRecords (header : Header) (records : List Record) :
    (ofRecords header records).InStep := by
  induction records using List.reverseRecOn with
  | nil => exact inStep_new header
  | append_singleton records record ih =>
    rw [ofRecords_concat]
    exact ih.add record

/-! ### What the map leads to -/

theorem InStep.recordsIn?_eq (h : catalog.InStep) (database : String) :
    catalog.recordsIn? database =
      if database ∈ catalog.records.map Record.database then
        some ((catalog.records.filter fun record => record.database = database).map some)
      else none := by
  rw [recordsIn?, h.positions, ← map_positionsIn]
  by_cases known : database ∈ catalog.databases
  · rw [if_pos known, if_pos (h.mem_databases.mp known)]
    rfl
  · rw [if_neg known, if_neg (h.mem_databases.not.mp known)]
    rfl

theorem InStep.same_iff {other : IndexedCatalog} (h : catalog.InStep) (h' : other.InStep) :
    catalog.same other = true ↔
      catalog.header = other.header ∧ catalog.records = other.records := by
  simp only [same, Bool.and_eq_true, beq_iff_eq, Std.HashMap.beq_iff_equiv]
  constructor
  · rintro ⟨⟨⟨header, -⟩, -⟩, records⟩
    exact ⟨header, records⟩
  · rintro ⟨header, records⟩
    have databases : catalog.databases = other.databases := by
      rw [h.databases, h'.databases, records]
    refine ⟨⟨⟨header, databases⟩, ?_⟩, records⟩
    refine Std.HashMap.Equiv.of_forall_getElem?_eq fun database => ?_
    rw [h.positions, h'.positions, databases, records]

/-! ### The groups are the list and the map put together -/

theorem addPosition_of_mem {databases : List String} (unique : databases.Nodup)
    {database : String} (known : database ∈ databases) (before : String → List Nat)
    (position : Nat) :
    addPosition (databases.map fun other => ⟨other, before other⟩) database position =
      databases.map fun other =>
        ⟨other, if database = other then before other ++ [position] else before other⟩ := by
  induction databases with
  | nil => simp at known
  | cons first later ih =>
    obtain ⟨absent, unique⟩ := List.nodup_cons.mp unique
    rw [List.map_cons, addPosition]
    by_cases same : first = database
    · subst same
      have rest : (later.map fun other => (⟨other, before other⟩ : Group)) = later.map fun other =>
          ⟨other, if first = other then before other ++ [position] else before other⟩ := by
        refine List.map_congr_left fun other member => ?_
        rw [if_neg]
        rintro rfl
        exact absent member
      rw [if_pos rfl, List.map_cons, if_pos rfl, rest]
    · have inside : database ∈ later := (List.mem_cons.mp known).resolve_left (Ne.symm same)
      rw [if_neg same, ih unique inside, List.map_cons, if_neg (Ne.symm same)]

theorem addPosition_of_not_mem {databases : List String} {database : String}
    (unknown : database ∉ databases) (before : String → List Nat) (position : Nat) :
    addPosition (databases.map fun other => ⟨other, before other⟩) database position =
      (databases.map fun other => ⟨other, before other⟩) ++ [⟨database, [position]⟩] := by
  induction databases with
  | nil => rfl
  | cons first later ih =>
    rw [List.mem_cons, not_or] at unknown
    obtain ⟨differ, unknown⟩ := unknown
    rw [List.map_cons, addPosition, if_neg (Ne.symm differ), ih unknown]
    rfl

theorem InStep.toCatalog_eq (h : catalog.InStep) :
    catalog.toCatalog = ⟨catalog.header, catalog.records,
      catalog.databases.map fun database => ⟨database, positionsIn catalog.records database⟩⟩ := by
  refine congrArg (Catalog.mk _ _) (List.map_congr_left fun database member => ?_)
  rw [h.positions, if_pos member]
  rfl

theorem InStep.toCatalog_add (h : catalog.InStep) (record : Record) :
    (catalog.add record).toCatalog = catalog.toCatalog.add record := by
  have unique : catalog.databases.Nodup := by
    rw [h.databases]
    exact nodup_eraseDups _
  rw [(h.add record).toCatalog_eq, h.toCatalog_eq, Catalog.add, header_add, records_add]
  refine congrArg (Catalog.mk _ _) ?_
  by_cases known : record.database ∈ catalog.databases
  · rw [addPosition_of_mem unique known, h.add_eq, if_pos known]
    simp only [positionsIn_concat]
  · rw [addPosition_of_not_mem known, h.add_eq, if_neg known, List.map_append, List.map_singleton,
      positionsIn_concat, if_pos rfl, positionsIn_eq_nil (h.mem_databases.not.mp known)]
    refine congrArg (· ++ _) (List.map_congr_left fun database member => ?_)
    rw [positionsIn_concat, if_neg]
    rintro rfl
    exact known member

/-- **The groups of a catalog are the list and the map put together.** -/
theorem toCatalog_ofRecords (header : Header) (records : List Record) :
    (ofRecords header records).toCatalog = Catalog.ofRecords header records := by
  induction records using List.reverseRecOn with
  | nil => rfl
  | append_singleton records record ih =>
    rw [ofRecords_concat, (inStep_ofRecords header records).toCatalog_add, ih, Catalog.ofRecords,
      Catalog.ofRecords, Catalog.addAll, Catalog.addAll, List.foldl_append]
    rfl

theorem recordsIn?_toCatalog_ofRecords (header : Header) (records : List Record)
    (database : String) :
    (ofRecords header records).toCatalog.recordsIn? database =
      ((ofRecords header records).recordsIn? database).map (List.filterMap id) := by
  rw [toCatalog_ofRecords, (Catalog.grouped_ofRecords header records).recordsIn?_eq,
    (inStep_ofRecords header records).recordsIn?_eq, Catalog.records_ofRecords, records_ofRecords]
  split
  · simp [List.filterMap_map]
  · rfl

/-! ### What is shown -/

/-- What adding records to an empty catalog comes to. -/
def Built (catalog : IndexedCatalog) : Prop := ∃ header records, catalog = ofRecords header records

/-- **Records, databases and positions are of the same records.** The databases stand in the order
in which they come first, and the map has these and no others; a database is unknown when no record
has it, and else there is a record at each of its positions, and these are the records that have it,
in their order; and each position is in bounds, in the list of one database, and once there. -/
structure Shows (catalog : IndexedCatalog) (header : Header) (records : List Record) : Prop where
  header : catalog.header = header
  flat : catalog.records = records
  databases : catalog.databases = (records.map Record.database).eraseDups
  entries : ∀ database : String, database ∈ catalog.positions ↔ database ∈ catalog.databases
  unknown : ∀ database, catalog.recordsIn? database = none ↔
    ∀ record ∈ records, record.database ≠ database
  known : ∀ database found, catalog.recordsIn? database = some found →
    found = (records.filter fun record => record.database = database).map some
  bounded : ∀ (database : String) (positions : List Nat),
    catalog.positions[database]? = some positions →
    ∀ position ∈ positions, position < records.length
  once : (catalog.databases.flatMap fun database => catalog.positions[database]?.getD []).Perm
    (List.range records.length)

theorem InStep.shows (h : catalog.InStep) : catalog.Shows catalog.header catalog.records := by
  have absent (database : String) : database ∉ catalog.records.map Record.database ↔
      ∀ record ∈ catalog.records, record.database ≠ database := by
    simp [List.mem_map]
  refine ⟨rfl, rfl, h.databases, fun database => ?_, fun database => ?_,
    fun database found given => ?_, fun database positions given position inside => ?_, ?_⟩
  · rw [Std.HashMap.mem_iff_isSome_getElem?, h.positions]
    split
    · next known => simp [known]
    · next unknown => simp [unknown]
  · rw [h.recordsIn?_eq, ← absent]
    split
    · next known => simp [known]
    · next unknown => simp [unknown]
  · rw [h.recordsIn?_eq] at given
    split at given
    · exact (Option.some.inj given).symm
    · cases given
  · rw [h.positions] at given
    split at given
    · obtain rfl := Option.some.inj given
      exact lt_of_mem_positionsIn inside
    · cases given
  · have lists : (catalog.databases.flatMap fun database =>
        catalog.positions[database]?.getD []) =
        (catalog.records.map Record.database).eraseDups.flatMap
          (positionsIn catalog.records) := by
      rw [← h.databases]
      refine List.flatMap_congr fun database member => ?_
      rw [h.positions, if_pos member]
      rfl
    rw [lists]
    exact perm_positionsIn catalog.records

theorem shows_ofRecords (header : Header) (records : List Record) :
    (ofRecords header records).Shows header records := by
  have shown := (inStep_ofRecords header records).shows
  rwa [header_ofRecords, records_ofRecords] at shown

end IndexedCatalog

namespace Catalog

/-- The catalog with a list of databases and a map instead of groups. -/
def indexed (catalog : Catalog) : IndexedCatalog :=
  IndexedCatalog.ofRecords catalog.header catalog.records

theorem Built.toCatalog_indexed {catalog : Catalog} (h : catalog.Built) :
    catalog.indexed.toCatalog = catalog := by
  obtain ⟨header, records, rfl⟩ := h
  rw [indexed, header_ofRecords, records_ofRecords, IndexedCatalog.toCatalog_ofRecords]

end Catalog

namespace IndexedCatalog

/-- **The list of databases and the map always describe the flat list.** A catalog to which any
records are added in turn shows these records, and it answers as the catalog with groups does. So
does every catalog that is read or made of a plan. Two such catalogs have the same header, records,
databases and positions when their headers and their flat lists are equal. -/
theorem map_describes_records :
    (∀ header records, (ofRecords header records).Shows header records ∧
      (ofRecords header records).toCatalog = Catalog.ofRecords header records ∧
      ∀ database, (Catalog.ofRecords header records).recordsIn? database =
        ((ofRecords header records).recordsIn? database).map (List.filterMap id)) ∧
    (∀ source catalog, (Catalog.read source).1.outcome = .ok catalog →
      catalog.indexed.toCatalog = catalog ∧
        catalog.indexed.Shows catalog.header catalog.records) ∧
    (∀ plan n catalog, (Catalog.ofPlan plan n).outcome = .ok catalog →
      catalog.indexed.toCatalog = catalog ∧
        catalog.indexed.Shows catalog.header catalog.records) ∧
    (∀ catalog other : IndexedCatalog, catalog.Built → other.Built →
      (catalog.same other = true ↔
        catalog.header = other.header ∧ catalog.records = other.records)) := by
  have shown {catalog : Catalog} (built : catalog.Built) :
      catalog.indexed.toCatalog = catalog ∧
        catalog.indexed.Shows catalog.header catalog.records :=
    ⟨built.toCatalog_indexed, shows_ofRecords _ _⟩
  refine ⟨fun header records => ?_, fun source catalog read => shown (Catalog.built_of_read read),
    fun plan n catalog made => shown (Catalog.built_of_ofPlan made), ?_⟩
  · refine ⟨shows_ofRecords header records, toCatalog_ofRecords header records, fun database => ?_⟩
    rw [← toCatalog_ofRecords, recordsIn?_toCatalog_ofRecords]
  · rintro _ _ ⟨header, records, rfl⟩ ⟨header', records', rfl⟩
    exact (inStep_ofRecords header records).same_iff (inStep_ofRecords header' records')

end IndexedCatalog

end DumpCatalog
