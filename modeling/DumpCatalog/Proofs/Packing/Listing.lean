import DumpCatalog.Proofs.Catalog.Paths
import DumpCatalog.Proofs.Packing.Agreement

/-! # Packing: what is packed is listed without ambiguity

The collections of a dump directory are named by its files, so their names hold no separators, and
files of one namespace are merged into one record. That is enough for the listing of the archive to
be unambiguous (`DumpDirectory.listing_of_pack`). -/

namespace DumpCatalog.DumpDirectory

variable {directory : DumpDirectory} {records : List Record} {n : Int32} {sink : Sink}
  {catalog : Catalog}

theorem outcome_catalog_of_pack (packed : (directory.pack n sink).1.outcome = .ok catalog) :
    (directory.catalog n).outcome = .ok catalog := by
  cases made : (directory.catalog n).outcome with
  | error fault =>
    rw [pack_of_error made] at packed
    exact made.symm.trans packed
  | ok other =>
    rw [(pack_of_ok made sink).1] at packed
    cases written : (other.write sink).1.outcome with
    | error fault =>
      rw [written] at packed
      cases packed
    | ok done =>
      rw [written] at packed
      exact packed

theorem Recognised.plain {file : DumpFile} (h : directory.Recognised file) :
    '/' ∉ file.database.toList ∧ '/' ∉ file.collection.toList := by
  cases h with
  | @inDatabase database name collection kind content here named full =>
    refine ⟨database.separator_notMem, fun inside => name.separator_notMem ?_⟩
    rw [named, String.toList_append]
    exact List.mem_append_left _ inside
  | oplog =>
    exact ⟨(by decide : '/' ∉ "".toList), (by decide : '/' ∉ Intent.oplogCollection.toList)⟩

/-- **The listing of a packed directory is unambiguous**, whatever lies in it: it has one line for
each node below the root; no two files and no two directories in it have the same path; the path of
a file tells its database, its collection and what it holds; and a file in the directory of a
database stands behind this directory and ahead of the next. -/
theorem listing_of_pack (packed : (directory.pack n sink).1.outcome = .ok catalog) :
    ∃ lines, catalog.listing = .ok lines ∧ catalog.Unambiguous catalog.walked lines := by
  obtain ⟨-, records, all, rfl⟩ :=
    outcome_catalog_eq_ok_iff.mp (outcome_catalog_of_pack packed)
  have grouped := Catalog.grouped_ofRecords (Header.new n) records
  refine ⟨_, Catalog.listing_eq_walked grouped, Catalog.unambiguous_walked grouped
    (distinct_of_describes (Header.new n) all) fun record member => ?_⟩
  rw [Catalog.records_ofRecords] at member
  obtain ⟨file, recognised, database, collection⟩ := exists_recognised_of_describes all member
  rw [database, collection]
  exact recognised.plain

/-- The lone metadata file is listed beside the data file that belongs to it, behind their
directory. -/
theorem listing_of_pack_loneMetadata :
    ∃ catalog, ((loneMetadata "\x7b\x7d").pack 1 ⟨[], none⟩).1.outcome = .ok catalog ∧
      catalog.listing = .ok [⟨"db", 0, true⟩, ⟨"db/c.bson", 0, false⟩,
        ⟨"db/c.metadata.json", 0, false⟩] ∧
      catalog.Unambiguous catalog.walked [⟨"db", 0, true⟩, ⟨"db/c.bson", 0, false⟩,
        ⟨"db/c.metadata.json", 0, false⟩] := by
  have packed := outcome_pack_loneMetadata 1 "\x7b\x7d"
  obtain ⟨lines, listed, unambiguous⟩ := listing_of_pack packed
  have same : lines = [⟨"db", 0, true⟩, ⟨"db/c.bson", 0, false⟩,
      ⟨"db/c.metadata.json", 0, false⟩] := by
    rw [unambiguous.listed]
    decide
  rw [same] at listed unambiguous
  exact ⟨_, packed, listed, unambiguous⟩

end DumpCatalog.DumpDirectory
