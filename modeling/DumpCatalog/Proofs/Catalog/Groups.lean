import DumpCatalog.Catalog.Basic
import DumpCatalog.Proofs.Lists

/-! # Catalogs: the groups describe the records

A catalog that is built by adding records has one group for each database, and the positions in a
group are those of the records of its database (`Catalog.Grouped`, `Catalog.grouped_ofRecords`). So
what is asked of the groups is answered by the records alone (`Catalog.recordsIn?_eq`). -/

namespace DumpCatalog

/-! ### Adding a position -/

theorem map_database_addPosition (groups : List Group) (database : String) (position : Nat) :
    (addPosition groups database position).map Group.database =
      if database ∈ groups.map Group.database then groups.map Group.database
      else groups.map Group.database ++ [database] := by
  induction groups with
  | nil => rfl
  | cons group later ih =>
    rw [addPosition]
    by_cases same : group.database = database
    · simp [same]
    · rw [if_neg same, List.map_cons, ih]
      by_cases known : database ∈ later.map Group.database
      · have among : database ∈ (group :: later).map Group.database :=
          List.mem_cons_of_mem _ known
        rw [if_pos known, if_pos among, List.map_cons]
      · have absent : database ∉ (group :: later).map Group.database := by
          rw [List.map_cons, List.mem_cons, not_or]
          exact ⟨Ne.symm same, known⟩
        rw [if_neg known, if_neg absent]
        rfl

/-- Adding a position changes the group of its database, or opens it. -/
theorem mem_addPosition {groups : List Group} {database : String} {position : Nat} {group : Group}
    (unique : (groups.map Group.database).Nodup)
    (h : group ∈ addPosition groups database position) :
    (group ∈ groups ∧ group.database ≠ database) ∨
      (∃ before ∈ groups, before.database = database ∧
        group = ⟨database, before.positions ++ [position]⟩) ∨
      (database ∉ groups.map Group.database ∧ group = ⟨database, [position]⟩) := by
  induction groups with
  | nil =>
    rw [addPosition, List.mem_singleton] at h
    exact .inr (.inr ⟨List.not_mem_nil, h⟩)
  | cons first later ih =>
    rw [List.map_cons, List.nodup_cons] at unique
    rw [addPosition] at h
    by_cases same : first.database = database
    · rw [if_pos same] at h
      rcases List.mem_cons.mp h with rfl | member
      · exact .inr (.inl ⟨first, List.mem_cons_self .., same, by rw [← same]⟩)
      · refine .inl ⟨List.mem_cons_of_mem _ member, fun equal => ?_⟩
        rw [same, ← equal] at unique
        exact unique.1 (List.mem_map_of_mem member)
    · rw [if_neg same] at h
      rcases List.mem_cons.mp h with rfl | member
      · exact .inl ⟨List.mem_cons_self .., same⟩
      · rcases ih unique.2 member with ⟨other, differs⟩ | ⟨before, inside, known, made⟩ |
          ⟨absent, made⟩
        · exact .inl ⟨List.mem_cons_of_mem _ other, differs⟩
        · exact .inr (.inl ⟨before, List.mem_cons_of_mem _ inside, known, made⟩)
        · refine .inr (.inr ⟨?_, made⟩)
          rw [List.map_cons, List.mem_cons, not_or]
          exact ⟨Ne.symm same, absent⟩

namespace Catalog

/-! ### Both views -/

/-- **The groups describe the records**: there is one for each database, in the order in which the
databases were first seen, and its positions lead to the records of its database in their order. -/
structure Grouped (catalog : Catalog) : Prop where
  databases : catalog.databases = (catalog.records.map Record.database).eraseDups
  bounded : ∀ group ∈ catalog.groups, ∀ position ∈ group.positions,
    position < catalog.records.length
  records : ∀ group ∈ catalog.groups,
    group.positions.filterMap (catalog.records[·]?) =
      catalog.records.filter fun record => record.database = group.database

variable {catalog : Catalog}

theorem grouped_new (header : Header) : (new header).Grouped := by
  refine ⟨rfl, ?_, ?_⟩
  · intro group member
    cases member
  · intro group member
    cases member

theorem Grouped.nodup (h : catalog.Grouped) : catalog.databases.Nodup := by
  rw [h.databases]
  exact nodup_eraseDups _

theorem Grouped.mem_databases (h : catalog.Grouped) {database : String} :
    database ∈ catalog.databases ↔ database ∈ catalog.records.map Record.database := by
  rw [h.databases, List.mem_eraseDups]

theorem filterMap_concat {records : List Record} {positions : List Nat} (record : Record)
    (bounded : ∀ position ∈ positions, position < records.length) :
    positions.filterMap ((records ++ [record])[·]?) = positions.filterMap (records[·]?) :=
  List.filterMap_congr fun position member => List.getElem?_append_left (bounded position member)

theorem Grouped.add (h : catalog.Grouped) (record : Record) : (catalog.add record).Grouped := by
  refine ⟨?_, ?_, ?_⟩
  · rw [records_add, List.map_append, List.map_singleton, eraseDups_concat, ← h.databases]
    refine (map_database_addPosition ..).trans ?_
    by_cases known : record.database ∈ catalog.records.map Record.database
    · rw [if_pos known]
      exact if_pos (h.mem_databases.mpr known)
    · rw [if_neg known]
      exact if_neg (h.mem_databases.not.mpr known)
  · intro group member position inside
    rw [records_add, List.length_append, List.length_singleton]
    rcases mem_addPosition h.nodup member with ⟨old, -⟩ | ⟨before, old, -, rfl⟩ | ⟨-, rfl⟩
    · have := h.bounded group old position inside
      omega
    · rcases List.mem_append.mp inside with former | last
      · have := h.bounded before old position former
        omega
      · rw [List.mem_singleton.mp last]
        omega
    · rw [List.mem_singleton.mp inside]
      omega
  · intro group member
    rw [records_add, List.filter_append]
    rcases mem_addPosition h.nodup member with ⟨old, differs⟩ | ⟨before, old, same, rfl⟩ |
      ⟨absent, rfl⟩
    · rw [filterMap_concat record (h.bounded group old), h.records group old]
      simp [Ne.symm differs]
    · rw [List.filterMap_append, filterMap_concat record (h.bounded before old),
        h.records before old, same]
      simp
    · have none : (catalog.records.filter fun other => other.database = record.database) = [] := by
        rw [List.filter_eq_nil_iff]
        intro other inside equal
        refine absent (h.mem_databases.mpr (List.mem_map.mpr ⟨other, inside, ?_⟩))
        simpa using equal
      simp [none]

theorem Grouped.addAll (h : catalog.Grouped) (records : List Record) :
    (catalog.addAll records).Grouped := by
  induction records generalizing catalog with
  | nil => exact h
  | cons record records ih => exact ih (h.add record)

/-- **A catalog that is built by adding records is grouped.** -/
theorem grouped_ofRecords (header : Header) (records : List Record) :
    (ofRecords header records).Grouped := (grouped_new header).addAll records

/-- **The records of a database are found by its group.** -/
theorem Grouped.recordsIn?_eq (h : catalog.Grouped) (database : String) :
    catalog.recordsIn? database =
      if database ∈ catalog.records.map Record.database then
        some (catalog.records.filter fun record => record.database = database)
      else none := by
  rw [recordsIn?, group?]
  cases found : catalog.groups.find? fun group => group.database = database with
  | none =>
    have absent : database ∉ catalog.records.map Record.database := by
      rw [← h.mem_databases]
      intro known
      obtain ⟨group, member, same⟩ := List.mem_map.mp known
      have := List.find?_eq_none.mp found group member
      simp [same] at this
    rw [if_neg absent]
    rfl
  | some group =>
    have member := List.mem_of_find?_eq_some found
    have same : group.database = database := by simpa using List.find?_some found
    have known : database ∈ catalog.records.map Record.database := by
      rw [← h.mem_databases]
      exact List.mem_map.mpr ⟨group, member, same⟩
    rw [if_pos known, ← same, ← h.records group member]
    rfl

theorem Grouped.getD_recordsIn? (h : catalog.Grouped) (database : String) :
    (catalog.recordsIn? database).getD [] =
      catalog.records.filter fun record => record.database = database := by
  rw [h.recordsIn?_eq]
  split
  · rfl
  · next absent =>
    symm
    rw [Option.getD_none, List.filter_eq_nil_iff]
    intro record member same
    exact absent (List.mem_map.mpr ⟨record, member, by simpa using same⟩)

end Catalog

end DumpCatalog
