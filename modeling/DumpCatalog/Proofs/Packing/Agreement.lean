import DumpCatalog.Proofs.Catalog.Restoring
import DumpCatalog.Proofs.Packing.Records
import Mathlib.Data.List.Forall2

/-! # Packing: when an archive stands for its directory

An archive stands for a directory when it can be read and the plan to restore it tells the same as
the plan of the directory (`DumpDirectory.StandsFor`). What is packed need not: a document can be
too long to be read again, and an empty metadata file is not told from none. Nothing else goes wrong
(`DumpDirectory.standsFor_iff`). -/

namespace DumpCatalog

open Block

/-- Two plans agree: each namespace comes once on either side, with the same size, and with metadata
on both sides or on neither. -/
structure Plan.Agrees (plan other : Plan) : Prop where
  once : (plan.summary.map Prod.fst).Nodup
  once_other : (other.summary.map Prod.fst).Nodup
  same : ∀ line, line ∈ plan.summary ↔ line ∈ other.summary

theorem Plan.map_fst_summary_ofIntents (intents : List Intent) :
    ((Plan.ofIntents intents).summary.map Prod.fst).Nodup := by
  rw [Plan.map_fst_summary]
  exact Plan.nodup_ofIntents intents

/-- **The archive stands for the directory**: it can be read, and the plan to restore it agrees with
the plan of the directory. -/
def Source.StandsFor (archive : Source) (directory : DumpDirectory) : Prop :=
  ∃ catalog planned restored, (Catalog.read archive).1.outcome = .ok catalog ∧
    directory.tree.plan.outcome = .ok planned ∧ catalog.restorePlan.outcome = .ok restored ∧
    planned.Agrees restored

namespace DumpDirectory

variable {directory : DumpDirectory} {records : List Record}

/-! ### Records that were packed -/

theorem fullName_of_describes {record : Record} {key : String} {files : List DumpFile}
    (h : Describes record (groupOf DumpFile.fullName files key)) :
    record.fullName = key ∧ ∃ file ∈ files, record.database = file.database ∧
      record.collection = file.collection := by
  obtain ⟨first, later, whole, database, collection⟩ := h.names
  have member : first ∈ groupOf DumpFile.fullName files key := by
    rw [whole]
    exact List.mem_cons_self ..
  obtain ⟨inside, name⟩ := mem_groupOf.mp member
  refine ⟨?_, first, inside, database, collection⟩
  rw [Record.fullName, database, collection]
  exact name

theorem exists_recognised_of_describes
    (all : List.Forall₂ Describes records (groups DumpFile.fullName directory.files))
    {record : Record} (member : record ∈ records) :
    ∃ file, directory.Recognised file ∧ record.database = file.database ∧
      record.collection = file.collection := by
  rw [groups, List.forall₂_map_right_iff] at all
  obtain ⟨key, -, describes⟩ := exists_of_mem_forall₂ all member
  obtain ⟨-, file, inside, same⟩ := fullName_of_describes describes
  exact ⟨file, mem_files_iff.mp inside, same⟩

theorem distinct_of_describes (header : Header)
    (all : List.Forall₂ Describes records (groups DumpFile.fullName directory.files)) :
    (Catalog.ofRecords header records).Distinct := by
  have file (record : Record) (member : record ∈ records) :=
    exists_recognised_of_describes all member
  rw [groups, List.forall₂_map_right_iff] at all
  have names : records.map Record.fullName = (directory.files.map DumpFile.fullName).eraseDups := by
    rw [← List.forall₂_eq_eq_eq, List.forall₂_map_left_iff]
    exact all.imp fun record key describes => (fullName_of_describes describes).1
  refine ⟨?_, ?_, ?_⟩
  · rw [Catalog.records_ofRecords, names]
    exact nodup_eraseDups _
  · intro record member
    rw [Catalog.records_ofRecords] at member
    obtain ⟨file, recognised, -, collection⟩ := file record member
    rw [collection]
    cases recognised with
    | inDatabase _ _ full => exact full
    | oplog => exact (by decide : Intent.oplogCollection ≠ "")
  · intro record member top
    rw [Catalog.records_ofRecords] at member
    obtain ⟨file, recognised, database, collection⟩ := file record member
    rw [database] at top
    rw [collection]
    cases recognised with
    | @inDatabase name => exact absurd top name.text_ne_empty
    | oplog => rfl

/-! ### Both plans -/

theorem toBytes_eq_nil_iff {text : String} : Text.toBytes text = [] ↔ text.isEmpty = true := by
  rw [String.isEmpty_iff]
  constructor
  · exact fun empty => Text.toBytes_inj empty
  · rintro rfl
    rfl

/-- The intent and the record of a group tell the same of it, except that an empty metadata file is
none to the record. -/
theorem summary_of_describes {intent : Intent} {record : Record} {group : List DumpFile}
    (merged : intent.MergeOf (group.map DumpFile.intent)) (describes : Describes record group) :
    intent.fullName = record.fullName ∧ intent.size = record.size ∧
      (intent.metadataPath.isSome = (!record.metadata.isEmpty) ↔
        ∀ file, lastOfKind .metadata group = some file → file.content ≠ []) := by
  obtain ⟨same, metadata⟩ := (describes_iff_of_mergeOf merged).mp describes
  obtain ⟨-, -, path, -⟩ := fields_of_mergeOf merged
  have database : record.database = intent.database := congrArg Record.database same
  have collection : record.collection = intent.collection := congrArg Record.collection same
  refine ⟨by rw [Intent.fullName, Record.fullName, database, collection],
    (congrArg Record.size same).symm, ?_⟩
  cases last : lastOfKind .metadata group with
  | none =>
    rw [last] at path metadata
    have empty : record.metadata.isEmpty = true := toBytes_eq_nil_iff.mp metadata
    rw [path, empty]
    refine ⟨fun _ file other => (by simp at other), fun _ => rfl⟩
  | some file =>
    rw [last] at path metadata
    have bytes : Text.toBytes record.metadata = file.content := metadata
    have empty : record.metadata.isEmpty = true ↔ file.content = [] := by
      rw [← toBytes_eq_nil_iff, bytes]
    rw [path]
    constructor
    · rintro told _ ⟨rfl⟩ nothing
      rw [empty.mpr nothing] at told
      simp at told
    · intro something
      have full : record.metadata.isEmpty = false := by
        simpa using empty.not.mpr (something file rfl)
      rw [full]
      rfl

theorem forall₂_summary
    (all : List.Forall₂ Describes records (groups DumpFile.fullName directory.files)) :
    List.Forall₂ (fun intent record => ∃ group ∈ groups DumpFile.fullName directory.files,
        intent.fullName = record.fullName ∧ intent.size = record.size ∧
          (intent.metadataPath.isSome = (!record.metadata.isEmpty) ↔
            ∀ file, lastOfKind .metadata group = some file → file.content ≠ []))
      (Plan.ofIntents (directory.files.map DumpFile.intent)).intents records := by
  have merged := forall₂_imp_of_mem directory.forall₂_mergeOf_files
    (T := fun intent group => group ∈ groups DumpFile.fullName directory.files ∧
      intent.MergeOf (group.map DumpFile.intent)) fun intent group member merge => ⟨member, merge⟩
  refine (forall₂_comp_iff.mp ⟨_, merged, all.flip⟩).imp fun intent record => ?_
  rintro ⟨group, ⟨member, merge⟩, describes⟩
  exact ⟨group, member, summary_of_describes merge describes⟩

/-- **The plan of a directory agrees with the plan to restore its records** exactly when no group
has an empty last metadata file. -/
theorem agrees_iff (header : Header)
    (all : List.Forall₂ Describes records (groups DumpFile.fullName directory.files))
    {restored : Plan}
    (summary : restored.summary = (Catalog.ofRecords header records).restored.map fun record =>
      (record.fullName, record.size, !record.metadata.isEmpty)) :
    (Plan.ofIntents (directory.files.map DumpFile.intent)).Agrees restored ↔
      ∀ group ∈ groups DumpFile.fullName directory.files, ∀ file,
        lastOfKind .metadata group = some file → file.content ≠ [] := by
  have grouped := Catalog.grouped_ofRecords header records
  have distinct := distinct_of_describes header all
  have told (line : String × Int64 × Bool) : line ∈ restored.summary ↔
      line ∈ records.map fun record =>
        (record.fullName, record.size, !record.metadata.isEmpty) := by
    rw [summary, List.mem_map, List.mem_map]
    simp only [distinct.mem_restored grouped, Catalog.records_ofRecords]
  constructor
  · intro agrees group member
    obtain ⟨intent, inside, merge⟩ :=
      exists_of_mem_forall₂ directory.forall₂_mergeOf_files.flip member
    obtain ⟨record, known, describes⟩ := exists_of_mem_forall₂ all.flip member
    obtain ⟨name, -, flag⟩ := summary_of_describes merge describes
    obtain ⟨other, known', line⟩ :=
      List.mem_map.mp ((told _).mp ((agrees.same _).mp (List.mem_map_of_mem inside)))
    obtain ⟨name', -, flag'⟩ := Prod.mk.inj line |>.imp id Prod.mk.inj
    -- names are distinct, so the line of the plan is that of this record
    have unique := distinct.unique
    rw [Catalog.records_ofRecords] at unique
    obtain rfl := List.inj_on_of_nodup_map unique known' known (name'.trans name)
    exact flag.mp flag'.symm
  · intro full
    have lines : (Plan.ofIntents (directory.files.map DumpFile.intent)).summary =
        records.map fun record => (record.fullName, record.size, !record.metadata.isEmpty) := by
      rw [Plan.summary, ← List.forall₂_eq_eq_eq, List.forall₂_map_left_iff,
        List.forall₂_map_right_iff]
      refine (forall₂_summary all).imp fun intent record => ?_
      rintro ⟨group, member, name, size, flag⟩
      rw [name, size, flag.mpr (full group member)]
    refine ⟨Plan.map_fst_summary_ofIntents _, ?_, fun line => by rw [told, lines]⟩
    rw [summary, List.map_map]
    exact distinct.nodup_restored grouped

/-! ### Archives of a directory -/

theorem exists_outcome_read_toBytes {header : Header} (schedule : List Delivery) (ending : Ending)
    (fits : ∀ doc ∈ (Catalog.ofRecords header records).documents, doc.length ≤ Bson.maxLength)
    (long : ¬ ∀ doc ∈ (Catalog.ofRecords header records).documents,
      (doc.length : Int) ≤ maxSize.toInt) :
    ∃ fault, (Catalog.read
      ⟨(Catalog.ofRecords header records).toBytes, schedule, ending⟩).1.outcome = .error fault := by
  obtain ⟨front, doc, back, split, within, beyond⟩ := exists_first_of_not_all long
  have member : doc ∈ (Catalog.ofRecords header records).documents := by
    rw [split]
    simp
  obtain ⟨size, -, outcome⟩ := Catalog.outcome_read_toBytes_of_long split within
    (fits doc member) (Int.not_le.mp beyond)
    (show (Source.mk (Catalog.ofRecords header records).toBytes schedule ending).rest =
      magicBytes ++ ((Catalog.ofRecords header records).documents.flatten ++ terminatorBytes) by
        rw [Catalog.toBytes_eq, List.append_assoc])
  exact ⟨_, outcome⟩

theorem standsFor_iff_of_describes (header : Header) (schedule : List Delivery) (ending : Ending)
    (isDir : directory.isDirectory [] = true)
    (all : List.Forall₂ Describes records (groups DumpFile.fullName directory.files))
    (fits : ∀ doc ∈ (Catalog.ofRecords header records).documents, doc.length ≤ Bson.maxLength) :
    Source.StandsFor ⟨(Catalog.ofRecords header records).toBytes, schedule, ending⟩ directory ↔
      (∀ doc ∈ (Catalog.ofRecords header records).documents,
        (doc.length : Int) ≤ maxSize.toInt) ∧
      ∀ group ∈ groups DumpFile.fullName directory.files, ∀ file,
        lastOfKind .metadata group = some file → file.content ≠ [] := by
  have distinct := distinct_of_describes header all
  obtain ⟨restored, restores, summary⟩ :=
    distinct.summary_restorePlan (Catalog.grouped_ofRecords header records)
  by_cases small : ∀ doc ∈ (Catalog.ofRecords header records).documents,
      (doc.length : Int) ≤ maxSize.toInt
  · have read := (Catalog.read_of_parses
      ⟨(Catalog.ofRecords header records).toBytes, schedule, ending⟩
      (Catalog.parses_toBytes small) (List.append_nil _).symm).1
    constructor
    · rintro ⟨catalog, planned, other, taken, plans, restores', agrees⟩
      obtain rfl := Except.ok.inj (read.symm.trans taken)
      obtain rfl := Except.ok.inj ((outcome_plan isDir).symm.trans plans)
      obtain rfl := Except.ok.inj (restores.symm.trans restores')
      exact ⟨small, (agrees_iff header all summary).mp agrees⟩
    · rintro ⟨-, full⟩
      exact ⟨_, _, _, read, outcome_plan isDir, restores, (agrees_iff header all summary).mpr full⟩
  · constructor
    · rintro ⟨catalog, -, -, taken, -⟩
      obtain ⟨fault, refused⟩ := exists_outcome_read_toBytes schedule ending fits small
      rw [refused] at taken
      simp at taken
    · rintro ⟨within, -⟩
      exact absurd within small

/-- **When an archive stands for its directory.** Let a directory be packed for a sink without a
limit, with documents short enough for their lengths to be written. What is written stands for the
directory exactly when every document is within the limit of a block and no group of files has an
empty last metadata file. -/
theorem standsFor_iff {n : Int32} {catalog : Catalog} (schedule : List Delivery) (ending : Ending)
    (made : (directory.pack n ⟨[], none⟩).1.outcome = .ok catalog)
    (fits : ∀ doc ∈ catalog.documents, doc.length ≤ Bson.maxLength) :
    Source.StandsFor ⟨(directory.pack n ⟨[], none⟩).2.held, schedule, ending⟩ directory ↔
      (∀ doc ∈ catalog.documents, (doc.length : Int) ≤ maxSize.toInt) ∧
      ∀ group ∈ groups DumpFile.fullName directory.files, ∀ file,
        lastOfKind .metadata group = some file → file.content ≠ [] := by
  obtain ⟨outcome, written⟩ := directory.pack_of_none n []
  have given := outcome.symm.trans made
  obtain ⟨isDir, records, all, rfl⟩ := outcome_catalog_eq_ok_iff.mp given
  rw [written _ given, List.nil_append]
  exact standsFor_iff_of_describes (Header.new n) schedule ending isDir all fits

/-- The records of the directory with two databases. -/
def recordsOfTwoShops : List Record :=
  [⟨"shop", "orders", "\x7b\x7d", 3⟩, ⟨"yard", "orders", "", 5⟩]

theorem describes_twoShops :
    List.Forall₂ Describes recordsOfTwoShops (groups DumpFile.fullName twoShops.files) := by
  rw [files_twoShops]
  exact .cons ⟨⟨_, _, rfl, rfl, rfl⟩, by decide, rfl⟩
    (.cons ⟨⟨_, _, rfl, rfl, rfl⟩, by decide, rfl⟩ .nil)

theorem outcome_pack_twoShops (n : Int32) :
    (twoShops.pack n ⟨[], none⟩).1.outcome = .ok (.ofRecords (Header.new n) recordsOfTwoShops) := by
  obtain ⟨outcome, -⟩ := twoShops.pack_of_none n []
  rw [outcome, outcome_catalog_eq_ok_iff]
  exact ⟨rfl, _, describes_twoShops, rfl⟩

/-- The archive of a directory with two databases, in one of which a data file lies beside its
metadata file, stands for it. -/
theorem standsFor_twoShops :
    let packed := twoShops.pack 1 ⟨[], none⟩
    packed.1.outcome = .ok (.ofRecords (Header.new 1) recordsOfTwoShops) ∧
      Source.StandsFor ⟨packed.2.held, [], .closed⟩ twoShops := by
  have made := outcome_pack_twoShops 1
  refine ⟨made, (standsFor_iff [] .closed made (by decide)).mpr ⟨by decide, ?_⟩⟩
  rw [files_twoShops]
  decide

/-- A directory with one file, which holds metadata. -/
def loneMetadata (text : String) : DumpDirectory :=
  ⟨⟨[(⟨"dump", by decide⟩, .directory [(⟨"db", by decide⟩, .directory
    [(⟨"c.metadata.json", by decide⟩, .file (Text.toBytes text))])])], []⟩, "dump"⟩

/-- The file of the directory. -/
def loneFile (text : String) : DumpFile :=
  ⟨[⟨"db", by decide⟩, ⟨"c.metadata.json", by decide⟩], "db", "c", .metadata, Text.toBytes text⟩

theorem top_loneMetadata (text : String) : (loneMetadata text).top = .ok (.directory
    [(⟨"db", by decide⟩, .directory
      [(⟨"c.metadata.json", by decide⟩, .file (Text.toBytes text))])]) := by
  have path : Path.join "dump" "" = "dump/" := by decide
  show (loneMetadata text).disk.lookup (Path.join "dump" "") = _
  rw [path]
  rfl

theorem isDirectory_loneMetadata (text : String) : (loneMetadata text).isDirectory [] = true := by
  rw [isDirectory, entry_nil, top_loneMetadata]

theorem files_loneMetadata (text : String) : (loneMetadata text).files = [loneFile text] := by
  have inDatabase : (loneMetadata text).entry [⟨"db", by decide⟩] = .ok (.directory
      [(⟨"c.metadata.json", by decide⟩, .file (Text.toBytes text))]) := by
    rw [entry, top_loneMetadata]
    rfl
  have here : (loneMetadata text).entry [⟨"db", by decide⟩, ⟨"c.metadata.json", by decide⟩] =
      .ok (.file (Text.toBytes text)) := by
    rw [entry, top_loneMetadata]
    rfl
  have top : (loneMetadata text).namesIn [] = [⟨"db", by decide⟩] :=
    namesIn_of_pairwise (entry_nil.trans (top_loneMetadata text)) (List.pairwise_singleton ..)
  have below : (loneMetadata text).namesIn [⟨"db", by decide⟩] =
      [⟨"c.metadata.json", by decide⟩] :=
    namesIn_of_pairwise inDatabase (List.pairwise_singleton ..)
  have found : (loneMetadata text).fileAt? "db" ([⟨"db", by decide⟩] ++
      [⟨"c.metadata.json", by decide⟩]) = some (loneFile text) :=
    fileAt?_eq_some_iff.mpr ⟨"c", .metadata, _, here, rfl, by decide, rfl⟩
  rw [files, nodesIn, top, List.map_singleton, List.flatMap_singleton, List.nil_append,
    filesAtTop_of_isDirectory (isDirectory_eq_true_iff.mpr ⟨_, inDatabase⟩), below]
  exact List.filterMap_cons_some found

theorem groups_loneMetadata (text : String) :
    groups DumpFile.fullName (loneMetadata text).files = [[loneFile text]] := by
  rw [files_loneMetadata]
  rfl

theorem describes_loneFile (text : String) :
    List.Forall₂ Describes [⟨"db", "c", text, 0⟩] [[loneFile text]] :=
  .cons ⟨⟨_, _, rfl, rfl, rfl⟩, rfl, rfl⟩ .nil

theorem outcome_pack_loneMetadata (n : Int32) (text : String) :
    ((loneMetadata text).pack n ⟨[], none⟩).1.outcome =
      .ok (.ofRecords (Header.new n) [⟨"db", "c", text, 0⟩]) := by
  obtain ⟨outcome, -⟩ := (loneMetadata text).pack_of_none n []
  rw [outcome, outcome_catalog_eq_ok_iff, groups_loneMetadata]
  exact ⟨isDirectory_loneMetadata text, _, describes_loneFile text, rfl⟩

/-- The archive of a directory with empty metadata does not stand for it. -/
theorem not_standsFor_of_empty_metadata :
    let packed := (loneMetadata "").pack 1 ⟨[], none⟩
    packed.1.outcome = .ok (.ofRecords (Header.new 1) [⟨"db", "c", "", 0⟩]) ∧
      ¬ Source.StandsFor ⟨packed.2.held, [], .closed⟩ (loneMetadata "") := by
  intro packed
  have made := outcome_pack_loneMetadata 1 ""
  obtain ⟨outcome, written⟩ := (loneMetadata "").pack_of_none 1 []
  have all := describes_loneFile ""
  rw [← groups_loneMetadata] at all
  refine ⟨made, fun stands => ?_⟩
  rw [written _ (outcome.symm.trans made), List.nil_append,
    standsFor_iff_of_describes (Header.new 1) [] .closed (isDirectory_loneMetadata "") all
      (by decide), groups_loneMetadata] at stands
  exact stands.2 _ (List.mem_singleton_self _) (loneFile "") rfl rfl

end DumpDirectory

end DumpCatalog
