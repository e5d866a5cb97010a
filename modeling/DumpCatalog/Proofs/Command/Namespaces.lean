import DumpCatalog.Command.Run
import DumpCatalog.Proofs.Catalog.LookUps

/-! # Commands: namespaces by their printed names

A printed name is cut at its first point when it is read back. `Addressable` says which collections
come back from their names (`splitNamespace_namespaceOf_iff`): those of a database without a point,
and those at the top level that have no point themselves. No two of them have the same name
(`namespaceOf_injective`), and the command that shows stored metadata answers for the very
collection whose name it was given (`showsStored_of_addressable`). -/

namespace DumpCatalog

/-! ### Names that are read back -/

/-- A collection with a name of its own that its printed name leads back to. -/
structure Addressable (database collection : String) : Prop where
  named : collection ≠ ""
  noPoint : database ≠ "" ∧ '.' ∉ database.toList ∨ database = "" ∧ '.' ∉ collection.toList

variable {database collection : String}

theorem namespaceOf_topLevel (collection : String) : namespaceOf "" collection = collection := rfl

theorem toList_namespaceOf (inside : database ≠ "") (named : collection ≠ "") :
    (namespaceOf database collection).toList = database.toList ++ '.' :: collection.toList := by
  rw [namespaceOf, if_neg (by simpa using inside), if_neg (by simpa using named),
    String.toList_append, String.toList_append, List.append_assoc]
  rfl

theorem splitNamespace_of_not_mem {name : String} (noPoint : '.' ∉ name.toList) :
    splitNamespace name = ("", name) := by
  rw [splitNamespace, splitAtPoint_eq_none_iff.mpr noPoint]

theorem splitNamespace_eq_iff_of_mem {name front back : String} (point : '.' ∈ name.toList) :
    splitNamespace name = (front, back) ↔
      name.toList = front.toList ++ '.' :: back.toList ∧ '.' ∉ front.toList := by
  rw [← splitAtPoint_eq_some_iff, splitNamespace]
  cases cut : splitAtPoint name.toList with
  | none => exact absurd point (splitAtPoint_eq_none_iff.mp cut)
  | some parts =>
    simp only [Prod.ext_iff, Option.some.injEq, ← String.toList_inj, String.toList_ofList]

/-- **A collection comes back from its printed name exactly when it is addressable.** -/
theorem splitNamespace_namespaceOf_iff (named : collection ≠ "") :
    splitNamespace (namespaceOf database collection) = (database, collection) ↔
      Addressable database collection := by
  by_cases topLevel : database = ""
  · subst topLevel
    rw [namespaceOf_topLevel]
    by_cases point : '.' ∈ collection.toList
    · -- what stands behind the point is shorter than the whole name
      rw [splitNamespace_eq_iff_of_mem point]
      constructor
      · rintro ⟨whole, -⟩
        have length := congrArg List.length whole
        rw [List.length_append, List.length_cons] at length
        omega
      · rintro ⟨-, ⟨inside, -⟩ | ⟨-, noPoint⟩⟩
        · exact absurd rfl inside
        · exact absurd point noPoint
    · rw [splitNamespace_of_not_mem point]
      exact ⟨fun _ => ⟨named, .inr ⟨rfl, point⟩⟩, fun _ => rfl⟩
  · have whole := toList_namespaceOf topLevel named
    rw [splitNamespace_eq_iff_of_mem (by rw [whole]; simp)]
    constructor
    · exact fun cut => ⟨named, .inl ⟨topLevel, cut.2⟩⟩
    · rintro ⟨-, ⟨-, noPoint⟩ | ⟨inside, -⟩⟩
      · exact ⟨whole, noPoint⟩
      · exact absurd inside topLevel

/-- **No two addressable collections have the same printed name.** -/
theorem namespaceOf_injective {database' collection' : String}
    (addressable : Addressable database collection)
    (addressable' : Addressable database' collection')
    (same : namespaceOf database collection = namespaceOf database' collection') :
    database = database' ∧ collection = collection' := by
  have back := (splitNamespace_namespaceOf_iff addressable.named).mpr addressable
  have back' := (splitNamespace_namespaceOf_iff addressable'.named).mpr addressable'
  rw [same, back'] at back
  exact ⟨(congrArg Prod.fst back).symm, (congrArg Prod.snd back).symm⟩

/-! ### Metadata by name -/

namespace Command

/-- **What the command that shows stored metadata leaves.** It prints the metadata of the record
that was added first for the collection, and a line break. When there is no such record, or the
archive cannot be opened, it prints nothing and fails with the reason. -/
structure ShowsStored (surroundings : Surroundings) (input database collection : String)
    (result : Result) : Prop where
  found : ∀ catalog first, (openCatalog surroundings input).outcome = .ok catalog →
    catalog.Earliest database collection first →
      result.code = 0 ∧ result.output = Text.toBytes (first.metadata ++ "\n") ∧
        result.errors = ""
  missing : ∀ catalog, (openCatalog surroundings input).outcome = .ok catalog →
    (∀ record ∈ catalog.records, record.database = database → record.collection ≠ collection) →
      result.code = 1 ∧ result.output = [] ∧
        result.errors =
          "Error: " ++ (Fault.noSuchFile (namespaceOf database collection)).detail ++ "\n"
  unopened : ∀ fault, (openCatalog surroundings input).outcome = .error fault →
    result.code = 1 ∧ result.output = [] ∧ result.errors = "Error: " ++ fault.detail ++ "\n"
  disk : result.disk = surroundings.disk

variable {surroundings : Surroundings} {input : String} {catalog : Catalog}

theorem exists_read_of_openCatalog
    (opened : (openCatalog surroundings input).outcome = .ok catalog) :
    ∃ source, (Catalog.read source).1.outcome = .ok catalog := by
  unfold openCatalog at opened
  split at opened
  · exact ⟨_, opened⟩
  · rw [Disk.openCatalog, Logged.outcome_bind, Logged.outcome_ofExcept, bind_eq_ok_iff] at opened
    obtain ⟨source, -, read⟩ := opened
    exact ⟨source, read⟩

theorem resolves_of_openCatalog (opened : (openCatalog surroundings input).outcome = .ok catalog)
    (database collection : String) : catalog.Resolves database collection := by
  obtain ⟨source, read⟩ := exists_read_of_openCatalog opened
  exact (Catalog.grouped_of_origin (.inr ⟨source, read⟩)).resolves database collection

theorem lines_singleton (text : String) : Report.lines [text] = text ++ "\n" := by
  simp [Report.lines, String.join]

theorem printed_of_ok {disk : Disk} {logged : Logged String} {text : String}
    (h : logged.outcome = .ok text) :
    printed disk logged = ⟨0, Text.toBytes text, "", disk, logged.events⟩ := by
  rw [printed, h]

theorem printed_of_error {disk : Disk} {logged : Logged String} {fault : Fault}
    (h : logged.outcome = .error fault) :
    printed disk logged =
      ⟨1, [], "Error: " ++ fault.detail ++ "\n", disk, logged.events⟩ := by
  rw [printed, h]
  simp only [failed, lines_singleton]

theorem disk_printed (disk : Disk) (logged : Logged String) :
    (printed disk logged).disk = disk := by
  cases outcome : logged.outcome with
  | ok text => rw [printed_of_ok outcome]
  | error fault => rw [printed_of_error outcome]

variable {database collection : String}

theorem showMetadata_namespaceOf (addressable : Addressable database collection)
    (catalog : Catalog) :
    showMetadata catalog (namespaceOf database collection) true =
      (catalog.metadataText database collection).map (· ++ "\n") := by
  have back := (splitNamespace_namespaceOf_iff addressable.named).mpr addressable
  rw [showMetadata, back]
  simp only [lines_singleton, if_true]
  cases catalog.metadataText database collection <;> rfl

/-- **The command answers for the collection whose name it was given.** -/
theorem showsStored_of_addressable (addressable : Addressable database collection) :
    ShowsStored surroundings input database collection
      (run surroundings (.metadata input (namespaceOf database collection) true)) := by
  rw [run]
  set shown : Logged String := do
    let catalog ← openCatalog surroundings input
    Logged.ofExcept (showMetadata catalog (namespaceOf database collection) true)
  have outcome : shown.outcome = (openCatalog surroundings input).outcome >>= fun catalog =>
      (catalog.metadataText database collection).map (· ++ "\n") := by
    rw [Logged.outcome_bind]
    simp only [Logged.outcome_ofExcept, showMetadata_namespaceOf addressable]
  refine ⟨?_, ?_, ?_, disk_printed _ _⟩
  · intro catalog first opened earliest
    have text := (resolves_of_openCatalog opened _ _).text addressable.named first earliest
    have whole : shown.outcome = .ok (first.metadata ++ "\n") := by
      rw [outcome, opened]
      exact congrArg (Except.map (· ++ "\n")) text
    rw [printed_of_ok whole]
    exact ⟨rfl, rfl, rfl⟩
  · intro catalog opened none
    have resolves := resolves_of_openCatalog opened database collection
    have refused := resolves.refused fun text read => by
      obtain ⟨-, record, member, database', collection'⟩ := resolves.readable_iff.mp ⟨text, read⟩
      exact none record member database' collection'
    have whole : shown.outcome = .error (.noSuchFile (namespaceOf database collection)) := by
      rw [outcome, opened]
      exact congrArg (Except.map (· ++ "\n")) refused
    rw [printed_of_error whole]
    exact ⟨rfl, rfl, rfl⟩
  · intro fault unopened
    have whole : shown.outcome = .error fault := by
      rw [outcome, unopened]
      rfl
    rw [printed_of_error whole]
    exact ⟨rfl, rfl, rfl⟩

/-- **Printed names lead back to their collections exactly where they can.** The collections that
come back from their names are the addressable ones; no two of them share a name; and whoever asks
on the command line for the stored metadata of an addressable collection, by its printed name, gets
that of the first record of this very collection, or a failure. -/
theorem addressable_by_name :
    (∀ database collection, collection ≠ "" →
      (splitNamespace (namespaceOf database collection) = (database, collection) ↔
        database ≠ "" ∧ '.' ∉ database.toList ∨ database = "" ∧ '.' ∉ collection.toList)) ∧
    (∀ database collection database' collection', Addressable database collection →
      Addressable database' collection' →
        namespaceOf database collection = namespaceOf database' collection' →
          database = database' ∧ collection = collection') ∧
    ∀ surroundings args input database collection verbose, Addressable database collection →
      ofArguments? args =
          some ⟨.metadata input (namespaceOf database collection) true, verbose⟩ →
        ShowsStored surroundings input database collection (runArguments surroundings args) := by
  refine ⟨?_, ?_, ?_⟩
  · intro database collection named
    rw [splitNamespace_namespaceOf_iff named]
    exact ⟨Addressable.noPoint, fun noPoint => ⟨named, noPoint⟩⟩
  · exact fun _ _ _ _ => namespaceOf_injective
  · intro surroundings args input database collection verbose addressable asked
    rw [runArguments, asked]
    exact showsStored_of_addressable addressable

/-- An archive on the standard input with two records for one collection. -/
def overlappingInput : Surroundings := ⟨.empty, Catalog.overlapping.toBytes, none⟩

theorem addressable_by_name_overlapping :
    Addressable "db" "c" ∧ Catalog.overlapping.Earliest "db" "c" ⟨"db", "c", "first", 1⟩ ∧
      (runArguments overlappingInput ["metadata", "--raw", "-", "db.c"]).output =
        Text.toBytes "first\n" := by
  have addressable : Addressable "db" "c" := ⟨by decide, .inl (by decide)⟩
  have earliest : Catalog.overlapping.Earliest "db" "c" ⟨"db", "c", "first", 1⟩ :=
    Catalog.find?_eq_some_iff.mp (by decide)
  have opened : (openCatalog overlappingInput "-").outcome = .ok Catalog.overlapping :=
    (Catalog.read_of_parses _ (Catalog.parses_toBytes (by decide +kernel))
      (List.append_nil _).symm).1
  have shows := addressable_by_name.2.2 overlappingInput ["metadata", "--raw", "-", "db.c"] "-"
    "db" "c" false addressable (by decide)
  exact ⟨addressable, earliest, (shows.found _ _ opened earliest).2.1⟩

end Command

end DumpCatalog
