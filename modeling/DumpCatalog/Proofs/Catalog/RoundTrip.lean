import DumpCatalog.Proofs.Bson.Reading
import DumpCatalog.Proofs.Catalog.Grammar

/-! # Catalogs: what is written is read again

A written header or record is read again (`Header.ofBytes_toBytes`, `Record.ofBytes_toBytes`) as
long as its length can be written at all. It is framed as long as it is within the limit of a block.
So a written catalog parses (`parses_toBytes`), and a document beyond the limit is what reading
stops at (`outcome_read_toBytes_of_long`). The main statement is `read_toBytes`. -/

namespace DumpCatalog

open Bson Block

/-! ### Headers and records -/

theorem Header.ofBytes_toBytes {header : Header} (fits : header.toBytes.length ≤ maxLength) :
    Header.ofBytes header.toBytes = .ok header := by
  obtain ⟨version, concurrentCollections⟩ := header
  have clean : ∀ field ∈ Header.toDocument ⟨version, concurrentCollections⟩, CleanField field := by
    intro field member
    simp only [Header.toDocument, List.mem_cons, List.not_mem_nil, or_false] at member
    rcases member with rfl | rfl
    · exact ⟨(by decide +kernel : NoZero "version"), trivial⟩
    · exact ⟨(by decide +kernel : NoZero "concurrent_collections"), trivial⟩
  have walk := readDocument_documentBytes Header.Draft.step ⟨none, none⟩ fits clean
  have text := readOnce_none (content?_string "version" version) Content.toText rfl
  have number := readOnce_none (content?_int32 "concurrent_collections" concurrentCollections)
    Content.toInt32 (toInt32_integer concurrentCollections)
  have first : Header.Draft.step ⟨none, none⟩ (Element.ofField ("version", .string version)) =
      .ok ⟨some version, none⟩ := by
    simp [Header.Draft.step, text]
  have second : Header.Draft.step ⟨some version, none⟩
      (Element.ofField ("concurrent_collections", .int32 concurrentCollections)) =
        .ok ⟨some version, some concurrentCollections⟩ := by
    simp [Header.Draft.step, number]
  rw [Header.ofBytes, Header.toBytes, walk]
  simp only [Header.toDocument, List.map_cons, List.map_nil, foldlM_cons_ok first,
    foldlM_cons_ok second]
  rfl

namespace Record

/-- The names of the fields of a record can end at the first zero byte. -/
theorem clean_toDocument (record : Record) : ∀ field ∈ record.toDocument, CleanField field := by
  intro field member
  simp only [toDocument, List.mem_cons, List.not_mem_nil, or_false] at member
  rcases member with rfl | rfl | rfl | rfl
  · exact ⟨(by decide +kernel : NoZero "db"), trivial⟩
  · exact ⟨(by decide +kernel : NoZero "collection"), trivial⟩
  · exact ⟨(by decide +kernel : NoZero "metadata"), trivial⟩
  · exact ⟨(by decide +kernel : NoZero "size"), trivial⟩

section Steps
variable {draft : Draft}

theorem Draft.step_database (unset : draft.database = none) (text : String) :
    draft.step (Element.ofField ("db", .string text)) =
      .ok { draft with database := some text } := by
  have read := readOnce_none (content?_string "db" text) Content.toText rfl
  simp [Draft.step, unset, read]

theorem Draft.step_collection (unset : draft.collection = none) (text : String) :
    draft.step (Element.ofField ("collection", .string text)) =
      .ok { draft with collection := some text } := by
  have read := readOnce_none (content?_string "collection" text) Content.toText rfl
  simp [Draft.step, unset, read]

theorem Draft.step_metadata (unset : draft.metadata = none) (text : String) :
    draft.step (Element.ofField ("metadata", .string text)) =
      .ok { draft with metadata := some text } := by
  have read := readOnce_none (content?_string "metadata" text) Content.toText rfl
  simp [Draft.step, unset, read]

theorem Draft.step_size (unset : draft.size = none) (n : Int64) :
    draft.step (Element.ofField ("size", .int64 n)) = .ok { draft with size := some n } := by
  have read := readOnce_none (content?_int64 "size" n) Content.toInt64 (toInt64_integer n)
  simp [Draft.step, unset, read]

end Steps

theorem ofBytes_toBytes {record : Record} (fits : record.toBytes.length ≤ maxLength) :
    ofBytes record.toBytes = .ok record := by
  rw [ofBytes, toBytes,
    readDocument_documentBytes Draft.step ⟨none, none, none, none⟩ fits record.clean_toDocument]
  simp only [toDocument, List.map_cons, List.map_nil]
  rw [foldlM_cons_ok (Draft.step_database rfl _), foldlM_cons_ok (Draft.step_collection rfl _),
    foldlM_cons_ok (Draft.step_metadata rfl _), foldlM_cons_ok (Draft.step_size rfl _)]
  rfl

end Record

/-! ### Written documents and the limit -/

theorem le_maxLength {n : Nat} (small : (n : Int) ≤ maxSize.toInt) : n ≤ maxLength := by
  rw [toInt_maxSize] at small
  unfold maxLength
  omega

theorem toInt_take_documentBytes {fields : List (String × Value)}
    (fits : (documentBytes fields).length ≤ maxLength) :
    (Bytes.toInt32 ((documentBytes fields).take 4)).toInt = (documentBytes fields).length := by
  rw [documentBytes, take_frame]
  exact toInt_toInt32_lengthSlot fits

theorem framed_documentBytes {fields : List (String × Value)}
    (small : ((documentBytes fields).length : Int) ≤ maxSize.toInt) :
    Framed (documentBytes fields) := by
  have long := length_documentBytes fields
  have announced := toInt_take_documentBytes (le_maxLength small)
  refine ⟨announced, ?_, ?_⟩
  · rw [Int32.le_iff_toInt_le, announced, toInt_minSize]
    omega
  · rw [Int32.le_iff_toInt_le, announced]
    exact small

theorem forall₂_ofBytes_toBytes {records : List Record}
    (small : ∀ record ∈ records, (record.toBytes.length : Int) ≤ maxSize.toInt) :
    (∀ doc ∈ records.map Record.toBytes, Framed doc) ∧
      List.Forall₂ (fun doc record => Record.ofBytes doc = .ok record)
        (records.map Record.toBytes) records := by
  refine ⟨?_, ?_⟩
  · rw [List.forall_mem_map]
    exact fun record member => framed_documentBytes (small record member)
  · rw [List.forall₂_map_left_iff, List.forall₂_same]
    exact fun record member => Record.ofBytes_toBytes (le_maxLength (small record member))

namespace Catalog

theorem readBlocks_long {catalog : Catalog} {reader : BlockReader} {seen : Bool} {ending : Ending}
    {fields : List (String × Value)} {tail : Bytes}
    (h : reader.Awaits seen ending (documentBytes fields ++ tail))
    (fits : (documentBytes fields).length ≤ maxLength)
    (long : maxSize.toInt < (documentBytes fields).length) :
    ∃ size : Int32, size.toInt = (documentBytes fields).length ∧
      (readBlocks catalog reader).1.outcome = .error (.invalidBlockSize size) := by
  have announced := toInt_take_documentBytes fits
  have four : ((documentBytes fields).take 4).length = 4 := by
    rw [List.length_take_of_le]
    rw [length_documentBytes]
    omega
  rw [← List.take_append_drop 4 (documentBytes fields), List.append_assoc] at h
  refine ⟨_, announced, readBlocks_badSize _ h four ?_ ?_⟩
  · intro same
    rw [same, toInt_terminatorSize] at announced
    omega
  · rintro ⟨-, le_max⟩
    rw [Int32.le_iff_toInt_le, announced] at le_max
    omega

/-! ### Written catalogs -/

/-- The documents of a catalog, in the order in which they are written. -/
def documents (catalog : Catalog) : List Bytes :=
  catalog.header.toBytes :: catalog.records.map Record.toBytes

theorem toBytes_eq (catalog : Catalog) :
    catalog.toBytes = magicBytes ++ catalog.documents.flatten ++ terminatorBytes := by
  simp [toBytes, pieces, documents]

theorem write_of_none (catalog : Catalog) {sink : Sink} (h : sink.limit = none) :
    catalog.write sink =
      (.report (.catalogWritten catalog.size),
        { sink with held := sink.held ++ catalog.toBytes }) := by
  rw [write, writeBy, Sink.writeAll_of_none h]
  rfl

@[simp] theorem documents_ofRecords (header : Header) (records : List Record) :
    (ofRecords header records).documents = header.toBytes :: records.map Record.toBytes := by
  simp [documents]

/-- **A written catalog whose documents are within the limit parses.** -/
theorem parses_toBytes {header : Header} {records : List Record}
    (small : ∀ doc ∈ (ofRecords header records).documents, (doc.length : Int) ≤ maxSize.toInt) :
    Parses (ofRecords header records).toBytes header.toBytes (records.map Record.toBytes)
      (ofRecords header records) := by
  rw [documents_ofRecords, List.forall_mem_cons, List.forall_mem_map] at small
  obtain ⟨framed, decoded⟩ := forall₂_ofBytes_toBytes small.2
  refine ⟨?_, framed_documentBytes small.1, framed, header, records, ?_, decoded, rfl⟩
  · simp [toBytes_eq]
  · exact Header.ofBytes_toBytes (le_maxLength small.1)

/-- **Reading stops at the first document beyond the limit**, whatever comes behind it. -/
theorem outcome_read_toBytes_of_long {source : Source} {header : Header} {records : List Record}
    {front back : List Bytes} {doc tail : Bytes}
    (split : (ofRecords header records).documents = front ++ doc :: back)
    (small : ∀ doc ∈ front, (doc.length : Int) ≤ maxSize.toInt) (fits : doc.length ≤ maxLength)
    (long : maxSize.toInt < doc.length)
    (rest : source.rest = magicBytes ++ ((ofRecords header records).documents.flatten ++ tail)) :
    ∃ size : Int32, size.toInt = doc.length ∧
      (read source).1.outcome = .error (.invalidBlockSize size) := by
  obtain ⟨known, left, -⟩ := readMagic_magicBytes rest
  have start := BlockReader.awaits_new (readMagic source).2
  rw [left] at start
  rw [(read_eq known).1]
  rw [documents_ofRecords] at split start
  cases front with
  | nil =>
    obtain ⟨rfl, rfl⟩ := List.cons.inj split
    rw [List.flatten_cons, List.append_assoc] at start
    exact readBlocks_long start fits long
  | cons first front =>
    obtain ⟨rfl, others⟩ := List.cons.inj split
    rw [List.forall_mem_cons] at small
    obtain ⟨before, behind, rfl, rfl, behind_eq⟩ := List.map_eq_append_iff.mp others
    obtain ⟨record, later, rfl, rfl, rfl⟩ := List.map_eq_cons_iff.mp behind_eq
    rw [List.forall_mem_map] at small
    rw [List.flatten_cons, List.append_assoc, List.map_append, List.flatten_append,
      List.append_assoc, List.map_cons, List.flatten_cons, List.append_assoc] at start
    obtain ⟨framed, decoded⟩ := forall₂_ofBytes_toBytes small.2
    obtain ⟨_, waits, outcome, -⟩ := readBlocks_header _ start (framed_documentBytes small.1)
      (Header.ofBytes_toBytes (le_maxLength small.1))
    obtain ⟨_, waits', outcome', -⟩ := readBlocks_documents _ waits framed decoded
    rw [outcome, outcome']
    exact readBlocks_long waits' fits long

/-- **What is written is read again.** Let the documents of a catalog be short enough for their
lengths to be written. If they are all within the limit of a block, reading gives the catalog back
and takes its bytes and no more, however they are delivered. Otherwise it fails and tells the length
of the first document beyond the limit. -/
theorem read_toBytes (header : Header) (records : List Record) (rest : Bytes)
    (schedule : List Delivery) (ending : Ending)
    (fits : ∀ doc ∈ (ofRecords header records).documents, doc.length ≤ maxLength) :
    let catalog := ofRecords header records
    let result := read ⟨catalog.toBytes ++ rest, schedule, ending⟩
    ((∀ doc ∈ catalog.documents, (doc.length : Int) ≤ maxSize.toInt) →
      result.1.outcome = .ok catalog ∧ result.2.rest = rest) ∧
    (∀ front doc back, catalog.documents = front ++ doc :: back →
      (∀ doc ∈ front, (doc.length : Int) ≤ maxSize.toInt) → maxSize.toInt < doc.length →
      ∃ size : Int32, size.toInt = doc.length ∧
        result.1.outcome = .error (.invalidBlockSize size)) := by
  intro catalog result
  refine ⟨fun small => read_of_parses _ (parses_toBytes small) rfl, ?_⟩
  intro front doc back split small long
  have member : doc ∈ catalog.documents := by
    rw [split]
    simp
  have front : catalog.toBytes ++ rest =
      magicBytes ++ (catalog.documents.flatten ++ (terminatorBytes ++ rest)) := by
    simp only [toBytes_eq, List.append_assoc]
  exact outcome_read_toBytes_of_long split small (fits doc member) long front

/-- A catalog of one record without a database, with a metadata text that holds a zero byte. -/
theorem read_toBytes_oplog :
    let catalog := ofRecords (Header.new 4) [⟨"", "oplog", "\u0000", -1⟩]
    let result := read ⟨catalog.toBytes ++ [1, 2, 3], [], .closed⟩
    result.1.outcome = .ok catalog ∧ result.2.rest = [1, 2, 3] :=
  (read_toBytes (Header.new 4) [⟨"", "oplog", "\u0000", -1⟩] [1, 2, 3] [] .closed
    (by decide)).1 (by decide)

end Catalog

end DumpCatalog
