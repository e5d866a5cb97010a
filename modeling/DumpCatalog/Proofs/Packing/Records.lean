import DumpCatalog.Packing
import DumpCatalog.Proofs.Catalog.RoundTrip
import DumpCatalog.Proofs.Disk.Files
import DumpCatalog.Proofs.Disk.Paths
import DumpCatalog.Proofs.Lists

/-! # Packing: what is recorded

The files of a dump directory that count are grouped by their namespaces, and each group gives one
record (`Describes`). A directory can be packed exactly when each group has a record, and the
catalog has these records (`DumpDirectory.pack_records`); a group has none only when its
last metadata file is not text (`exists_describes_iff`). -/

namespace DumpCatalog

/-! ### Catalogs of plans -/

namespace Catalog

theorem outcome_addIntent (catalog : Catalog) (intent : Intent) :
    (catalog.addIntent intent).outcome = intent.record.map catalog.add := by
  rw [addIntent, Logged.outcome_bind, Logged.outcome_ofExcept]
  cases intent.record with
  | error fault => rfl
  | ok record => rfl

theorem outcome_foldlM_addIntent {catalog result : Catalog} {intents : List Intent} :
    (intents.foldlM addIntent catalog).outcome = .ok result ↔
      ∃ records, List.Forall₂ (fun intent record => intent.record = .ok record) intents records ∧
        result = catalog.addAll records := by
  induction intents generalizing catalog with
  | nil =>
    constructor
    · intro h
      exact ⟨[], .nil, (Except.ok.inj h).symm⟩
    · rintro ⟨records, none, rfl⟩
      cases none
      rfl
  | cons intent intents ih =>
    rw [List.foldlM_cons, Logged.outcome_bind, outcome_addIntent]
    cases made : intent.record with
    | error fault =>
      refine ⟨fun h => (by cases h), ?_⟩
      rintro ⟨records, all, -⟩
      obtain ⟨record, later, first, -, -⟩ := List.forall₂_cons_left_iff.mp all
      rw [made] at first
      simp at first
    | ok record =>
      refine Iff.trans (@ih (catalog.add record)) ?_
      constructor
      · rintro ⟨records, all, rfl⟩
        exact ⟨record :: records, .cons made all, rfl⟩
      · rintro ⟨records, all, rfl⟩
        obtain ⟨other, later, first, rest, rfl⟩ := List.forall₂_cons_left_iff.mp all
        rw [made] at first
        cases first
        exact ⟨later, rest, rfl⟩

theorem outcome_ofPlan_eq_ok_iff {plan : Plan} {n : Int32} {catalog : Catalog} :
    (ofPlan plan n).outcome = .ok catalog ↔
      ∃ records,
        List.Forall₂ (fun intent record => intent.record = .ok record) plan.intents records ∧
          catalog = ofRecords (Header.new n) records :=
  outcome_foldlM_addIntent

end Catalog

/-! ### Records of groups of files -/

/-- The last file of a kind in a group. -/
def lastOfKind (kind : FileKind) (group : List DumpFile) : Option DumpFile :=
  (group.filter fun file => file.kind = kind).getLast?

/-- **The record of a group of files**: it has the names of the first file, the length of the last
data file, as far as a size can tell it, and the text of the last metadata file. -/
structure Describes (record : Record) (group : List DumpFile) : Prop where
  names : ∃ first later, group = first :: later ∧ record.database = first.database ∧
    record.collection = first.collection
  size : record.size.toInt =
    min ((((lastOfKind .data group).map fun file => file.content.length).getD 0 : Nat) : Int)
      Int64.maxValue.toInt
  metadata : Text.toBytes record.metadata =
    ((lastOfKind .metadata group).map DumpFile.content).getD []

/-! ### Intents of groups of files -/

@[simp] theorem DumpFile.fullName_intent (file : DumpFile) :
    file.intent.fullName = file.fullName := by
  simp [intent, Intent.fullName, fullName]

theorem lastOf_intents {β : Type} {field : Intent → Option β} {kind : FileKind}
    {value : DumpFile → β}
    (h : ∀ file, field file.intent = if file.kind = kind then some (value file) else none)
    (group : List DumpFile) :
    Intent.lastOf field (group.map DumpFile.intent) = (lastOfKind kind group).map value := by
  have values : (group.map DumpFile.intent).filterMap field =
      (group.filter fun file => file.kind = kind).map value := by
    induction group with
    | nil => rfl
    | cons file group ih =>
      rw [List.map_cons, List.filterMap_cons, h, ih]
      by_cases same : file.kind = kind
      · simp [same]
      · simp [same]
  rw [Intent.lastOf, values, List.getLast?_map, lastOfKind]

/-- **The intent of a group of files**: the names are those of the first file, the size that of the
last data file, and the path of the metadata that of the last metadata file. -/
theorem fields_of_mergeOf {intent : Intent} {group : List DumpFile}
    (h : intent.MergeOf (group.map DumpFile.intent)) :
    (∃ first later, group = first :: later ∧ intent.database = first.database ∧
      intent.collection = first.collection) ∧
    (intent.size = ((lastOfKind .data group).map fun file =>
      Int64.ofIntClamp file.content.length).getD 0) ∧
    (intent.metadataPath = (lastOfKind .metadata group).map fun file =>
      DumpDirectory.relativePath file.place) ∧
    intent.file = none := by
  obtain ⟨_, _, whole, sums⟩ := h.fields
  obtain ⟨first, later, rfl, rfl, -⟩ := List.map_eq_cons_iff.mp whole
  have size := sums.size
  rw [lastOf_intents fun file => FileKind.dataSize?_intent ..] at size
  have path := sums.metadataPath
  rw [lastOf_intents fun file => FileKind.metadataPath_intent ..] at path
  have files : Intent.lastOf Intent.file ((first :: later).map DumpFile.intent) = none := by
    simp [Intent.lastOf, DumpFile.intent]
  refine ⟨⟨first, later, rfl, ?_, ?_⟩, ?_, path, sums.file.trans files⟩
  · rw [sums.database, DumpFile.intent, FileKind.database_intent]
  · rw [sums.collection, DumpFile.intent, FileKind.collection_intent]
  · rw [size]
    cases last : lastOfKind .data (first :: later) with
    | some file => rfl
    | none =>
      -- the first file holds no data, so its intent has no size
      have other : first.kind ≠ .data := by
        intro data
        simp [lastOfKind, data] at last
      simp [DumpFile.intent, other]

/-! ### Holding metadata -/

namespace DumpDirectory

variable {directory : DumpDirectory} {intent : Intent} {record : Record}

/-- The intent has this record once its metadata is held in memory. -/
def Records (directory : DumpDirectory) (intent : Intent) (record : Record) : Prop :=
  ∃ held, directory.hold intent = .ok held ∧ held.record = .ok record

theorem records_of_none (path : intent.metadataPath = none) (file : intent.file = none) :
    directory.Records intent record ↔
      record = ⟨intent.database, intent.collection, "", intent.size⟩ := by
  have hold : directory.hold intent = .ok intent := by
    rw [DumpDirectory.hold, path]
  have made : intent.record = .ok ⟨intent.database, intent.collection, "", intent.size⟩ := by
    rw [Intent.record, Intent.heldMetadata, file]
    rfl
  constructor
  · rintro ⟨held, same, given⟩
    rw [hold] at same
    cases same
    rw [made] at given
    exact (Except.ok.inj given).symm
  · rintro rfl
    exact ⟨intent, hold, made⟩

theorem records_of_some {path : String} {content : Bytes}
    (metadata : intent.metadataPath = some path)
    (there : directory.content path = .ok content) :
    directory.Records intent record ↔
      Text.toBytes record.metadata = content ∧
        record = ⟨intent.database, intent.collection, record.metadata, intent.size⟩ := by
  have hold {held : Intent} : directory.hold intent = .ok held ↔
      ∃ text, Text.ofBytes? content = some text ∧
        held = { intent with file := some (.ofText text) } := by
    rw [DumpDirectory.hold, metadata]
    dsimp only
    rw [DumpDirectory.text, there]
    dsimp only
    cases Text.ofBytes? content with
    | none =>
      refine ⟨fun h => (by simp at h), ?_⟩
      rintro ⟨text, same, -⟩
      simp at same
    | some text =>
      constructor
      · intro h
        exact ⟨text, rfl, (Except.ok.inj h).symm⟩
      · rintro ⟨_, same, rfl⟩
        cases same
        rfl
  have made (text : String) : Intent.record { intent with file := some (.ofText text) } =
      .ok ⟨intent.database, intent.collection, text, intent.size⟩ := rfl
  constructor
  · rintro ⟨held, kept, given⟩
    obtain ⟨text, written, rfl⟩ := hold.mp kept
    rw [made] at given
    cases given
    exact ⟨Text.toBytes_of_ofBytes? written, rfl⟩
  · rintro ⟨bytes, same⟩
    refine ⟨_, hold.mpr ⟨record.metadata, ?_, rfl⟩, ?_⟩
    · rw [← bytes, Text.ofBytes?_toBytes]
    · rw [made, ← same]

/-! ### Records of groups -/

theorem toInt_ofIntClamp (n : Nat) :
    (Int64.ofIntClamp n).toInt = min (n : Int) Int64.maxValue.toInt := by
  have least : Int64.minValue.toInt ≤ (n : Int) :=
    Int.le_trans (by decide) (Int.natCast_nonneg n)
  by_cases fits : (n : Int) ≤ Int64.maxValue.toInt
  · rw [Int64.toInt_ofIntClamp least fits]
    omega
  · rw [Int64.ofIntClamp, dif_pos least, dif_neg fits]
    omega

theorem Recognised.here {file : DumpFile} (h : directory.Recognised file) :
    file.place ≠ [] ∧ directory.entry file.place = .ok (.file file.content) := by
  cases h with
  | inDatabase here => exact ⟨by simp, here⟩
  | oplog here => exact ⟨by simp, here⟩

theorem mem_of_lastOfKind {kind : FileKind} {group : List DumpFile} {file : DumpFile}
    (h : lastOfKind kind group = some file) : file ∈ group :=
  (List.mem_filter.mp (List.mem_of_getLast? h)).1

theorem describes_iff_of_mergeOf {group : List DumpFile}
    (merged : intent.MergeOf (group.map DumpFile.intent)) :
    Describes record group ↔
      record = ⟨intent.database, intent.collection, record.metadata, intent.size⟩ ∧
        Text.toBytes record.metadata =
          ((lastOfKind .metadata group).map DumpFile.content).getD [] := by
  obtain ⟨⟨first, later, whole, database, collection⟩, size, -, -⟩ := fields_of_mergeOf merged
  have length : intent.size.toInt =
      min ((((lastOfKind .data group).map fun file => file.content.length).getD 0 : Nat) : Int)
        Int64.maxValue.toInt := by
    rw [size]
    cases lastOfKind .data group with
    | none => decide
    | some file => exact toInt_ofIntClamp _
  constructor
  · rintro ⟨⟨first', later', whole', database', collection'⟩, size', metadata⟩
    obtain ⟨rfl, -⟩ := List.cons.inj (whole.symm.trans whole')
    refine ⟨?_, metadata⟩
    rw [database, collection, ← database', ← collection',
      ← Int64.toInt_inj.mp (size'.trans length.symm)]
  · rintro ⟨same, metadata⟩
    refine ⟨⟨first, later, whole, ?_, ?_⟩, ?_, metadata⟩
    · rw [same]
      exact database
    · rw [same]
      exact collection
    · rw [same]
      exact length

/-- **The record that packing gives to the intent of a group of files is what describes the
group.** -/
theorem records_iff_describes {group : List DumpFile}
    (inside : ∀ file ∈ group, directory.Recognised file)
    (merged : intent.MergeOf (group.map DumpFile.intent)) :
    directory.Records intent record ↔ Describes record group := by
  obtain ⟨-, -, path, file⟩ := fields_of_mergeOf merged
  rw [describes_iff_of_mergeOf merged]
  cases last : lastOfKind .metadata group with
  | none =>
    rw [last] at path
    rw [records_of_none path file]
    constructor
    · rintro rfl
      exact ⟨rfl, rfl⟩
    · rintro ⟨same, metadata⟩
      rw [same, show record.metadata = "" from Text.toBytes_inj metadata]
  | some metadataFile =>
    obtain ⟨below, here⟩ := (inside metadataFile (mem_of_lastOfKind last)).here
    rw [last] at path
    rw [records_of_some path (content_relativePath directory below here), and_comm]
    rfl

/-- A group has a record exactly when its last metadata file, if there is one, holds text. -/
theorem exists_describes_iff {group : List DumpFile} (nonempty : group ≠ []) :
    (∃ record, Describes record group) ↔
      ∀ file, lastOfKind .metadata group = some file →
        ∃ text, Text.toBytes text = file.content := by
  obtain ⟨first, later, rfl⟩ := List.exists_cons_of_ne_nil nonempty
  constructor
  · rintro ⟨record, describes⟩ file last
    have metadata := describes.metadata
    rw [last] at metadata
    exact ⟨record.metadata, metadata⟩
  · intro texts
    have text : ∃ text, Text.toBytes text =
        ((lastOfKind .metadata (first :: later)).map DumpFile.content).getD [] := by
      cases last : lastOfKind .metadata (first :: later) with
      | none => exact ⟨"", rfl⟩
      | some file => exact texts file last
    obtain ⟨text, written⟩ := text
    exact ⟨⟨first.database, first.collection, text, Int64.ofIntClamp _⟩,
      ⟨first, later, rfl, rfl, rfl⟩, toInt_ofIntClamp _, written⟩

/-! ### Packing -/

theorem outcome_catalog_eq_ok {n : Int32} {catalog : Catalog} :
    (directory.catalog n).outcome = .ok catalog ↔
      ∃ plan, directory.tree.plan.outcome = .ok plan ∧
        ∃ held, plan.intents.mapM directory.hold = .ok held ∧
          (Catalog.ofPlan ⟨held⟩ n).outcome = .ok catalog := by
  rw [DumpDirectory.catalog, heldPlan, Logged.outcome_bind, Logged.outcome_bind, bind_eq_ok_iff]
  constructor
  · rintro ⟨_, kept, made⟩
    obtain ⟨plan, planned, same⟩ := bind_eq_ok_iff.mp kept
    rw [Logged.outcome_bind, bind_eq_ok_iff] at same
    obtain ⟨held, whole, same⟩ := same
    cases same
    exact ⟨plan, planned, held, whole, made⟩
  · rintro ⟨plan, planned, held, whole, made⟩
    refine ⟨⟨held⟩, bind_eq_ok_iff.mpr ⟨plan, planned, ?_⟩, made⟩
    rw [Logged.outcome_bind, bind_eq_ok_iff]
    exact ⟨held, whole, rfl⟩

theorem forall₂_mergeOf_files (directory : DumpDirectory) :
    List.Forall₂ (fun intent group => intent.MergeOf (group.map DumpFile.intent))
      (Plan.ofIntents (directory.files.map DumpFile.intent)).intents
      (groups DumpFile.fullName directory.files) := by
  have merged := Plan.forall₂_ofIntents (directory.files.map DumpFile.intent)
  rw [groups_map] at merged
  simp only [DumpFile.fullName_intent] at merged
  exact List.forall₂_map_right_iff.mp merged

/-- **The catalog of a directory has the records that describe its groups of files.** -/
theorem outcome_catalog_eq_ok_iff {n : Int32} {catalog : Catalog} :
    (directory.catalog n).outcome = .ok catalog ↔
      directory.isDirectory [] = true ∧
        ∃ records, List.Forall₂ Describes records (groups DumpFile.fullName directory.files) ∧
          catalog = .ofRecords (Header.new n) records := by
  have merged := directory.forall₂_mergeOf_files
  have described (records : List Record) :
      List.Forall₂ directory.Records
          (Plan.ofIntents (directory.files.map DumpFile.intent)).intents records ↔
        List.Forall₂ Describes records (groups DumpFile.fullName directory.files) :=
    forall₂_iff_of_forall₂ merged fun intent group member merged record =>
      records_iff_describes
        (fun file inside => mem_files_iff.mp ((of_mem_groups member).2 file inside)) merged
  rw [outcome_catalog_eq_ok]
  constructor
  · rintro ⟨plan, planned, held, kept, made⟩
    have isDir : directory.isDirectory [] = true := by
      by_contra not
      rw [outcome_plan_of_not (by simpa using not)] at planned
      simp at planned
    rw [outcome_plan isDir] at planned
    cases planned
    obtain ⟨records, all, rfl⟩ := Catalog.outcome_ofPlan_eq_ok_iff.mp made
    exact ⟨isDir, records,
      (described records).mp (forall₂_comp_iff.mp ⟨held, mapM_eq_ok_iff.mp kept, all⟩), rfl⟩
  · rintro ⟨isDir, records, all, rfl⟩
    obtain ⟨held, kept, made⟩ := forall₂_comp_iff.mpr ((described records).mpr all)
    exact ⟨_, outcome_plan isDir, held, mapM_eq_ok_iff.mpr kept,
      Catalog.outcome_ofPlan_eq_ok_iff.mpr ⟨records, made, rfl⟩⟩

theorem packBy_of_error {σ : Type} {n : Int32} {fault : Fault}
    (h : (directory.catalog n).outcome = .error fault) (place : σ)
    (send : σ → List Bytes → Except IoFault Unit × σ) :
    directory.packBy n place send = (directory.catalog n, place) := by
  unfold packBy
  dsimp only
  rw [h]

theorem packBy_of_ok {σ : Type} {n : Int32} {catalog : Catalog}
    (h : (directory.catalog n).outcome = .ok catalog) (place : σ)
    (send : σ → List Bytes → Except IoFault Unit × σ) :
    (directory.packBy n place send).1.outcome =
        (catalog.writeBy place send).1.outcome.map (fun _ => catalog) ∧
      (directory.packBy n place send).2 = (catalog.writeBy place send).2 := by
  unfold packBy
  dsimp only
  rw [h]
  refine ⟨?_, rfl⟩
  rw [Logged.outcome_bind, h]
  refine (Logged.outcome_bind _ _).trans ?_
  cases (catalog.writeBy place send).1.outcome with
  | error fault => rfl
  | ok done => rfl

theorem pack_of_error {n : Int32} {fault : Fault}
    (h : (directory.catalog n).outcome = .error fault) (sink : Sink) :
    directory.pack n sink = (directory.catalog n, sink) := packBy_of_error h sink Sink.writeAll

theorem pack_of_ok {n : Int32} {catalog : Catalog}
    (h : (directory.catalog n).outcome = .ok catalog) (sink : Sink) :
    (directory.pack n sink).1.outcome =
        (catalog.write sink).1.outcome.map (fun _ => catalog) ∧
      (directory.pack n sink).2 = (catalog.write sink).2 := packBy_of_ok h sink Sink.writeAll

theorem pack_of_none (directory : DumpDirectory) (n : Int32) (bytes : Bytes) :
    (directory.pack n ⟨bytes, none⟩).1.outcome = (directory.catalog n).outcome ∧
      ∀ catalog, (directory.catalog n).outcome = .ok catalog →
        (directory.pack n ⟨bytes, none⟩).2.held = bytes ++ catalog.toBytes := by
  cases made : (directory.catalog n).outcome with
  | error fault =>
    rw [pack_of_error made]
    refine ⟨made, ?_⟩
    intro catalog other
    simp at other
  | ok catalog =>
    obtain ⟨outcome, sink⟩ := pack_of_ok made ⟨bytes, none⟩
    rw [outcome, sink, @Catalog.write_of_none catalog ⟨bytes, none⟩ rfl]
    refine ⟨rfl, ?_⟩
    intro other same
    cases same
    rfl

/-- **What packing records.** Of all that may lie below a directory, the files that count are listed
in the order in which they are discovered and grouped by their namespaces. Packing for a sink
without a limit succeeds exactly when there is a directory and the last metadata file of each group
holds text. The catalog then has a header of the current version and one record for each group, and
it is what is written. -/
theorem pack_records (directory : DumpDirectory) (n : Int32) (bytes : Bytes) :
    let packed := directory.pack n ⟨bytes, none⟩
    let found := groups DumpFile.fullName directory.files
    (∀ file, file ∈ directory.files ↔ directory.Recognised file) ∧
    (directory.files.Pairwise fun a b => a.placeBytes < b.placeBytes) ∧
    ((∃ catalog, packed.1.outcome = .ok catalog) ↔
      (∃ entries, directory.top = .ok (.directory entries)) ∧
        ∀ group ∈ found, ∀ file, lastOfKind .metadata group = some file →
          ∃ text, Text.toBytes text = file.content) ∧
    (∀ catalog, packed.1.outcome = .ok catalog →
      catalog.header = Header.new n ∧ List.Forall₂ Describes catalog.records found ∧
        catalog = .ofRecords catalog.header catalog.records ∧
        packed.2.held = bytes ++ catalog.toBytes) := by
  intro packed found
  obtain ⟨outcome, written⟩ := directory.pack_of_none n bytes
  have isDir : directory.isDirectory [] = true ↔
      ∃ entries, directory.top = .ok (.directory entries) := by
    rw [isDirectory_eq_true_iff, entry_nil]
  have texts : (∃ records, List.Forall₂ Describes records found) ↔
      ∀ group ∈ found, ∀ file, lastOfKind .metadata group = some file →
        ∃ text, Text.toBytes text = file.content := by
    rw [exists_forall₂_iff]
    exact forall₂_congr fun group member => exists_describes_iff (of_mem_groups member).1
  refine ⟨fun file => mem_files_iff, directory.pairwise_files, ?_, ?_⟩
  · rw [← isDir, ← texts]
    constructor
    · rintro ⟨catalog, made⟩
      obtain ⟨yes, records, all, -⟩ := outcome_catalog_eq_ok_iff.mp (outcome.symm.trans made)
      exact ⟨yes, records, all⟩
    · rintro ⟨yes, records, all⟩
      exact ⟨_, outcome.trans (outcome_catalog_eq_ok_iff.mpr ⟨yes, records, all, rfl⟩)⟩
  · intro catalog made
    have given := outcome.symm.trans made
    obtain ⟨-, records, all, rfl⟩ := outcome_catalog_eq_ok_iff.mp given
    rw [Catalog.records_ofRecords, Catalog.header_ofRecords]
    exact ⟨rfl, all, rfl, written _ given⟩

end DumpDirectory

end DumpCatalog
