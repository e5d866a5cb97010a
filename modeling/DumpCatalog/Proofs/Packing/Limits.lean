import DumpCatalog.Proofs.Packing.Records
import DumpCatalog.Proofs.Sink.Delivery

/-! # Packing: sinks with a limit

What is written to a sink with a limit arrives whole, or as far as the sink takes it, and then
writing fails (`ObeysLimit`). That holds for writing a catalog, and for packing a directory that can
be read; of another one nothing is written at all (`DumpDirectory.pack_obeysLimit`), since packing
only writes when the catalog is whole. -/

namespace DumpCatalog

/-! ### The law of a limit -/

/-- **The law of a limit**, for sending bytes to an empty sink: sending succeeds exactly when they
fit, and then they have arrived; else their front has arrived, up to the limit, and the sink is
full. -/
structure ObeysLimit {α : Type} (limit : Nat) (bytes : Bytes) (value : α)
    (sent : Logged α × Sink) : Prop where
  succeeds_iff : (∃ result, sent.1.outcome = .ok result) ↔ bytes.length ≤ limit
  whole : bytes.length ≤ limit → sent.1.outcome = .ok value ∧ sent.2.held = bytes
  cut : limit < bytes.length →
    sent.1.outcome = .error (.io .sinkFull) ∧ sent.2.held = bytes.take limit

theorem obeysLimit_of_cases {α : Type} {limit : Nat} {bytes : Bytes} {value : α}
    {sent : Logged α × Sink}
    (whole : bytes.length ≤ limit → sent.1.outcome = .ok value ∧ sent.2.held = bytes)
    (cut : limit < bytes.length →
      sent.1.outcome = .error (.io .sinkFull) ∧ sent.2.held = bytes.take limit) :
    ObeysLimit limit bytes value sent := by
  refine ⟨⟨?_, fun fits => ⟨value, (whole fits).1⟩⟩, whole, cut⟩
  rintro ⟨result, done⟩
  by_contra tooLong
  have failed := (cut (Nat.lt_of_not_le tooLong)).1
  rw [done] at failed
  cases failed

/-- **Writing a catalog obeys the limit of the sink.** -/
theorem Catalog.obeysLimit_write (catalog : Catalog) (limit : Nat) :
    ObeysLimit limit catalog.toBytes () (catalog.write (Sink.empty (some limit))) := by
  have fresh : (Sink.empty (some limit)).held ++ catalog.pieces.flatten = catalog.toBytes :=
    List.nil_append _
  have length : (Sink.empty (some limit)).held.length + catalog.pieces.flatten.length =
      catalog.toBytes.length := by
    rw [← List.length_append, fresh]
  refine obeysLimit_of_cases (fun fits => ?_) (fun tooLong => ?_)
  · rw [← length] at fits
    rw [write, writeBy, Sink.writeAll_of_le rfl fits, fresh]
    exact ⟨rfl, rfl⟩
  · rw [← length] at tooLong
    rw [write, writeBy, Sink.writeAll_of_lt rfl (Nat.zero_le limit) tooLong, fresh]
    exact ⟨rfl, rfl⟩

/-! ### Packing -/

namespace DumpDirectory

variable {directory : DumpDirectory}

/-- **A directory can be packed** when it is there and every metadata file that is to be stored, the
last one for its namespace, holds text. -/
structure Readable (directory : DumpDirectory) : Prop where
  walked : ∃ entries, directory.top = .ok (.directory entries)
  texts : ∀ group ∈ groups DumpFile.fullName directory.files,
    ∀ file, lastOfKind .metadata group = some file → ∃ text, Text.toBytes text = file.content

theorem readable_iff (n : Int32) :
    directory.Readable ↔ ∃ catalog, (directory.catalog n).outcome = .ok catalog := by
  have walked : directory.isDirectory [] = true ↔
      ∃ entries, directory.top = .ok (.directory entries) := by
    rw [isDirectory_eq_true_iff, entry_nil]
  have texts : (∃ records,
        List.Forall₂ Describes records (groups DumpFile.fullName directory.files)) ↔
      ∀ group ∈ groups DumpFile.fullName directory.files, ∀ file,
        lastOfKind .metadata group = some file → ∃ text, Text.toBytes text = file.content := by
    rw [exists_forall₂_iff]
    exact forall₂_congr fun group member => exists_describes_iff (of_mem_groups member).1
  simp only [outcome_catalog_eq_ok_iff]
  constructor
  · rintro ⟨there, held⟩
    obtain ⟨records, all⟩ := texts.mpr held
    exact ⟨_, walked.mpr there, records, all, rfl⟩
  · rintro ⟨_, there, records, all, -⟩
    exact ⟨walked.mp there, texts.mp ⟨records, all⟩⟩

theorem obeysLimit_pack {n : Int32} {catalog : Catalog}
    (h : (directory.catalog n).outcome = .ok catalog) (limit : Nat) :
    ObeysLimit limit catalog.toBytes catalog (directory.pack n (Sink.empty (some limit))) := by
  obtain ⟨outcome, sink⟩ := pack_of_ok h (Sink.empty (some limit))
  have written := catalog.obeysLimit_write limit
  refine obeysLimit_of_cases (fun fits => ?_) (fun tooLong => ?_)
  · obtain ⟨done, held⟩ := written.whole fits
    rw [outcome, sink, done]
    exact ⟨rfl, held⟩
  · obtain ⟨failed, held⟩ := written.cut tooLong
    rw [outcome, sink, failed]
    exact ⟨rfl, held⟩

/-- **Packing for a sink with a limit.** Of a directory that cannot be packed, the sink receives
nothing, and packing fails. Else there is a catalog, with one record for each namespace, and packing
obeys the limit as writing does. A sink that takes bytes call by call, or is interrupted, comes to
the same. -/
theorem pack_obeysLimit (directory : DumpDirectory) (n : Int32) (limit : Nat) :
    (¬ directory.Readable →
      (∃ fault, (directory.pack n (Sink.empty (some limit))).1.outcome = .error fault) ∧
        (directory.pack n (Sink.empty (some limit))).2 = Sink.empty (some limit)) ∧
    (directory.Readable → ∃ catalog, (directory.catalog n).outcome = .ok catalog ∧
      catalog = .ofRecords (Header.new n) catalog.records ∧
      List.Forall₂ Describes catalog.records (groups DumpFile.fullName directory.files) ∧
      ObeysLimit limit catalog.toBytes catalog (directory.pack n (Sink.empty (some limit)))) ∧
    (∀ catalog : Catalog,
      ObeysLimit limit catalog.toBytes () (catalog.write (Sink.empty (some limit)))) ∧
    ∀ (catalog : Catalog) (schedule : List Delivery),
      let sent := PacedSink.sendAll ⟨Sink.empty (some limit), schedule⟩ catalog.pieces
      let whole := (Sink.empty (some limit)).writeAll catalog.pieces
      sent.1 = whole.1 ∧ sent.2.sink = whole.2 := by
  refine ⟨fun unreadable => ?_, fun readable => ?_, fun catalog => catalog.obeysLimit_write limit,
    fun catalog schedule => PacedSink.sendAll_eq _ catalog.pieces⟩
  · cases made : (directory.catalog n).outcome with
    | ok catalog => exact absurd ((readable_iff n).mpr ⟨catalog, made⟩) unreadable
    | error fault =>
      rw [pack_of_error made]
      exact ⟨⟨fault, made⟩, rfl⟩
  · obtain ⟨catalog, made⟩ := (readable_iff n).mp readable
    obtain ⟨-, records, all, whole⟩ := outcome_catalog_eq_ok_iff.mp made
    refine ⟨catalog, made, ?_, ?_, obeysLimit_pack made limit⟩
    · rw [whole, Catalog.records_ofRecords]
    · rwa [whole, Catalog.records_ofRecords]

end DumpDirectory

end DumpCatalog
