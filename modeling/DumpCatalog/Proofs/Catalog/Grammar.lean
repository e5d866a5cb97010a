import DumpCatalog.Proofs.Catalog.Reading

/-! # Catalogs: the written form and what is accepted

A written catalog is the magic number, one framed document that writes the header, framed documents
that write the records, and the terminator (`Parses`). Reading is sound and complete for this form
(`parses_of_read`, `read_of_parses`), and a stream can be taken apart in one way only
(`Parses.append_inj`). The main statement is `read_eq_ok_iff`: a catalog is read off the front of a
stream, and so many bytes are taken, exactly when these bytes write the catalog. -/

namespace DumpCatalog.Catalog

open Block

/-- **The written form of a catalog**: these bytes write the catalog, and they do it in one document
for the header and one for each record. -/
structure Parses (bytes headerDoc : Bytes) (recordDocs : List Bytes) (catalog : Catalog) :
    Prop where
  bytes_eq : bytes = magicBytes ++ headerDoc ++ recordDocs.flatten ++ terminatorBytes
  headerFramed : Framed headerDoc
  recordsFramed : ∀ doc ∈ recordDocs, Framed doc
  decoded : ∃ header records, Header.ofBytes headerDoc = .ok header ∧
    List.Forall₂ (fun doc record => Record.ofBytes doc = .ok record) recordDocs records ∧
    catalog = ofRecords header records

/-! ### What is written is read -/

/-- **Completeness**: a written catalog is read whatever follows it, and what follows it is left. -/
theorem read_of_parses (source : Source) {bytes headerDoc tail : Bytes} {recordDocs : List Bytes}
    {catalog : Catalog} (h : Parses bytes headerDoc recordDocs catalog)
    (front : source.rest = bytes ++ tail) :
    (read source).1.outcome = .ok catalog ∧ (read source).2.rest = tail := by
  obtain ⟨rfl, headerFramed, recordsFramed, header, records, decoded, decodedAll, rfl⟩ := h
  simp only [List.append_assoc] at front
  obtain ⟨known, rest, -⟩ := readMagic_magicBytes front
  obtain ⟨outcome, later⟩ := read_eq known
  have start := BlockReader.awaits_new (readMagic source).2
  rw [rest] at start
  obtain ⟨_, waits, outcome1, later1⟩ := readBlocks_header _ start headerFramed decoded
  obtain ⟨_, waits', outcome2, later2⟩ := readBlocks_documents _ waits recordsFramed decodedAll
  obtain ⟨outcome3, left⟩ := readBlocks_terminator _ waits'
  refine ⟨outcome.trans (outcome1.trans (outcome2.trans outcome3)), ?_⟩
  rw [later, later1, later2]
  exact left

/-! ### What is read was written -/

theorem documents_of_readBlocks {catalog result : Catalog} {reader : BlockReader} {ending : Ending}
    {rest : Bytes} (h : reader.Awaits true ending rest)
    (read : (readBlocks catalog reader).1.outcome = .ok result) :
    ∃ docs records, (∀ doc ∈ docs, Framed doc) ∧
      List.Forall₂ (fun doc record => Record.ofBytes doc = .ok record) docs records ∧
      result = catalog.addAll records ∧
      rest = docs.flatten ++ terminatorBytes ++ (readBlocks catalog reader).2.source.rest := by
  obtain ⟨docs, records, later, tail, framed, decoded, rfl, waits, stops, outcome, source⟩ :=
    exists_stop_of_readBlocks catalog h
  rw [outcome] at read
  refine ⟨docs, records, framed, decoded, ?_⟩
  have both := readBlocks_eq (catalog.addAll records) later
  cases given : later.next.1.outcome with
  | error fault =>
    rw [(readBlocks_error _ given).1] at read
    cases read
  | ok block =>
    rw [given] at both
    rcases waits.of_ok given with ⟨doc, tail, -, -, rfl, -⟩ | ⟨-, rfl, rfl⟩
    · cases broken : Record.ofBytes doc with
      | ok record => exact absurd broken (stops doc record given)
      | error cause =>
        simp only [if_true, broken, Prod.mk.injEq] at both
        cases both.1.symm.trans read
    · simp only [Prod.mk.injEq] at both
      rw [both.1] at read
      cases read
      rw [source, both.2, List.append_assoc]
      exact ⟨rfl, rfl⟩

/-- **Soundness**: what is read was written by the bytes that were taken. -/
theorem parses_of_read {source : Source} {catalog : Catalog}
    (h : (read source).1.outcome = .ok catalog) :
    ∃ bytes headerDoc recordDocs, Parses bytes headerDoc recordDocs catalog ∧
      source.rest = bytes ++ (read source).2.rest := by
  have known := readMagic_of_read h
  obtain ⟨outcome, later⟩ := read_eq known
  have start := BlockReader.awaits_new (readMagic source).2
  rw [outcome] at h
  have both := readBlocks_eq (new (Header.new 1)) (BlockReader.new (readMagic source).2)
  cases given : (BlockReader.new (readMagic source).2).next.1.outcome with
  | error fault => simp_all
  | ok block =>
    rw [given] at both
    rcases start.of_ok given with ⟨doc, tail, framed, front, rfl, waits⟩ | ⟨none, -, -⟩
    · cases decoded : Header.ofBytes doc with
      | error cause => simp_all
      | ok header =>
        simp only [Bool.false_eq_true, if_false, decoded, Prod.mk.injEq] at both
        rw [both.1] at h
        obtain ⟨docs, records, framedAll, decodedAll, same, back⟩ := documents_of_readBlocks waits h
        refine ⟨_, doc, docs,
          ⟨rfl, framed, framedAll, header, records, decoded, decodedAll, same⟩, ?_⟩
        rw [later, both.2, rest_of_readMagic known, front, back]
        simp
    · simp at none

/-! ### One way to take a stream apart -/

/-- Framed documents in front of a terminator are told apart by their own bytes. -/
theorem flatten_append_inj {docs docs' : List Bytes} {tail tail' : Bytes}
    (framed : ∀ doc ∈ docs, Framed doc) (framed' : ∀ doc ∈ docs', Framed doc)
    (same : docs.flatten ++ (terminatorBytes ++ tail) =
      docs'.flatten ++ (terminatorBytes ++ tail')) : docs = docs' ∧ tail = tail' := by
  induction docs generalizing docs' with
  | nil =>
    cases docs' with
    | nil => exact ⟨rfl, List.append_cancel_left same⟩
    | cons doc' docs' =>
      rw [List.flatten_cons, List.append_assoc] at same
      exact absurd same.symm (framed' doc' (List.mem_cons_self ..)).append_ne_terminator
  | cons doc docs ih =>
    have first := framed doc (List.mem_cons_self ..)
    rw [List.flatten_cons, List.append_assoc] at same
    cases docs' with
    | nil => exact absurd same first.append_ne_terminator
    | cons doc' docs' =>
      rw [List.flatten_cons, List.append_assoc] at same
      obtain ⟨rfl, later⟩ := first.append_inj (framed' doc' (List.mem_cons_self ..)) same
      obtain ⟨rfl, rest⟩ := ih (fun d member => framed d (List.mem_cons_of_mem _ member))
        (fun d member => framed' d (List.mem_cons_of_mem _ member)) later
      exact ⟨rfl, rest⟩

/-- **A stream is taken apart in one way only.** -/
theorem Parses.append_inj {bytes bytes' headerDoc headerDoc' tail tail' : Bytes}
    {recordDocs recordDocs' : List Bytes} {catalog catalog' : Catalog}
    (h : Parses bytes headerDoc recordDocs catalog)
    (h' : Parses bytes' headerDoc' recordDocs' catalog')
    (same : bytes ++ tail = bytes' ++ tail') :
    headerDoc = headerDoc' ∧ recordDocs = recordDocs' ∧ bytes = bytes' := by
  obtain ⟨rfl, headerFramed, recordsFramed, -⟩ := h
  obtain ⟨rfl, headerFramed', recordsFramed', -⟩ := h'
  simp only [List.append_assoc] at same
  obtain ⟨rfl, later⟩ := headerFramed.append_inj headerFramed' (List.append_cancel_left same)
  obtain ⟨rfl, -⟩ := flatten_append_inj recordsFramed recordsFramed' later
  exact ⟨rfl, rfl, rfl⟩

/-! ### Reading -/

/-- **Reading accepts exactly what is written.** However the bytes of a stream are delivered, a
catalog is read and `k` bytes are taken exactly when the first `k` bytes write the catalog. What is
left of a stream that is read stands behind the bytes that were taken. Two beginnings of one stream
that write catalogs are the same beginning, taken apart into the same documents. -/
theorem read_eq_ok_iff (stream : Bytes) (schedule : List Delivery) (ending : Ending) :
    let result := read ⟨stream, schedule, ending⟩
    (∀ (k : Nat) (catalog : Catalog),
      (k ≤ stream.length ∧ result.1.outcome = .ok catalog ∧ result.2.rest = stream.drop k) ↔
        (k ≤ stream.length ∧
          ∃ headerDoc recordDocs, Parses (stream.take k) headerDoc recordDocs catalog)) ∧
    (∀ catalog : Catalog, result.1.outcome = .ok catalog →
      ∃ k ≤ stream.length, result.2.rest = stream.drop k) ∧
    (∀ (k k' : Nat) (headerDoc headerDoc' : Bytes) (recordDocs recordDocs' : List Bytes)
      (catalog catalog' : Catalog), Parses (stream.take k) headerDoc recordDocs catalog →
        Parses (stream.take k') headerDoc' recordDocs' catalog' →
        headerDoc = headerDoc' ∧ recordDocs = recordDocs' ∧ stream.take k = stream.take k') := by
  intro result
  refine ⟨fun k catalog => ⟨?_, ?_⟩, fun catalog read => ?_, fun k k' _ _ _ _ _ _ h h' => ?_⟩
  · rintro ⟨bound, read, left⟩
    obtain ⟨bytes, headerDoc, recordDocs, written, front⟩ := parses_of_read read
    have front : stream = bytes ++ result.2.rest := front
    have taken : bytes = stream.take k := by
      rw [left] at front
      exact List.append_cancel_right (front.symm.trans (List.take_append_drop k stream).symm)
    exact ⟨bound, headerDoc, recordDocs, taken ▸ written⟩
  · rintro ⟨bound, headerDoc, recordDocs, written⟩
    obtain ⟨read, left⟩ := read_of_parses ⟨stream, schedule, ending⟩ written
      (List.take_append_drop k stream).symm
    exact ⟨bound, read, left⟩
  · obtain ⟨bytes, -, -, -, front⟩ := parses_of_read read
    have front : stream = bytes ++ result.2.rest := front
    refine ⟨bytes.length, ?_, ?_⟩
    · rw [front, List.length_append]
      omega
    · rw [front, List.drop_left]
  · exact h.append_inj h' (by rw [List.take_append_drop, List.take_append_drop])

end DumpCatalog.Catalog
