import DumpCatalog.Proofs.Bson.Length
import DumpCatalog.Proofs.Catalog.RoundTrip

/-! # Catalogs: reading them and writing them anew

A document is read in many forms and written in one. The header of a catalog is never longer when it
is written anew (`Header.length_toBytes_le`). A record can be longer, by the fields that its document
left out and by the width of its size, which comes to `Record.room` bytes at the most
(`Record.length_toBytes_le`). Reading has a limit for documents and writing has none, so what is
written anew can be read again exactly when no record has grown beyond the limit. The main statement
is `reread_of_read`. -/

namespace DumpCatalog

open Bson Block

/-! ### Fields of a draft -/

/-- How long the written form of a field is. A field that is unset takes nothing. -/
def fieldLength {α : Type} (name : String) (value : α → Value) : Option α → Nat
  | none => 0
  | some a => (Text.toBytes name).length + (value a).toBytes.length + 2

theorem fieldLength_none {α : Type} (name : String) (value : α → Value) :
    fieldLength name value none = 0 := rfl

section Fields
variable {e : Element} {name : String}

/-- A field that is read from an element takes no more than the element, but for what its value is
longer than the one that was read. -/
theorem fieldLength_of_readOnce {α : Type} {field field' : Option α}
    {read : Content → Except DecodeFault α} (value : α → Value) (more : Nat)
    (named : e.name = name) (h : e.readOnce field read = .ok field')
    (longer : ∀ content a, e.Holds content → read content = .ok a →
      (value a).toBytes.length ≤ e.payload.length + more) :
    field = none ∧ field'.isSome ∧ fieldLength name value field' ≤ e.bytes.length + more := by
  obtain ⟨unset, content, a, holds, taken, rfl⟩ := readOnce_eq_ok h
  have bound := longer content a holds taken
  refine ⟨unset, rfl, ?_⟩
  rw [fieldLength, e.length_bytes, named]
  omega

theorem fieldLength_text (whole : e.Whole) (named : e.name = name) {field field' : Option String}
    (h : e.readOnce field Content.toText = .ok field') :
    field = none ∧ fieldLength name .string field' ≤ e.bytes.length := by
  obtain ⟨unset, -, bound⟩ := fieldLength_of_readOnce .string 0 named h
    fun content text holds taken => Nat.le_of_eq (length_of_toText whole holds taken)
  exact ⟨unset, bound⟩

theorem fieldLength_int32 (whole : e.Whole) (named : e.name = name) {field field' : Option Int32}
    (h : e.readOnce field Content.toInt32 = .ok field') :
    field = none ∧ fieldLength name .int32 field' ≤ e.bytes.length := by
  obtain ⟨unset, -, bound⟩ := fieldLength_of_readOnce .int32 0 named h
    fun content n holds taken => by
      have := length_of_toInt32 whole holds taken
      rwa [Value.toBytes, Bytes.length_ofInt32]
  exact ⟨unset, bound⟩

theorem fieldLength_int64 (whole : e.Whole) (named : e.name = name) {field field' : Option Int64}
    (h : e.readOnce field Content.toInt64 = .ok field') :
    field = none ∧ field'.isSome ∧ fieldLength name .int64 field' ≤ e.bytes.length + 4 :=
  fieldLength_of_readOnce .int64 4 named h fun content n holds taken => by
    have := length_of_toInt64 whole holds taken
    rw [Value.toBytes, Bytes.length_ofInt64]
    omega

end Fields

/-! ### Headers -/

namespace Header

/-- How long the fields are that have been read, once they are written anew. -/
def Draft.weight (draft : Draft) : Nat :=
  fieldLength "version" .string draft.version +
    fieldLength "concurrent_collections" .int32 draft.concurrentCollections

theorem Draft.weight_step_le {draft next : Draft} {e : Element} (whole : e.Whole)
    (h : draft.step e = .ok next) : next.weight ≤ draft.weight + e.bytes.length := by
  unfold step at h
  split at h
  · next name =>
    obtain ⟨field, read, same⟩ := bind_eq_ok_iff.mp h
    obtain ⟨unset, bound⟩ := fieldLength_text whole name read
    cases same
    simp only [weight, unset, fieldLength_none]
    omega
  split at h
  · next name =>
    obtain ⟨field, read, same⟩ := bind_eq_ok_iff.mp h
    obtain ⟨unset, bound⟩ := fieldLength_int32 whole name read
    cases same
    simp only [weight, unset, fieldLength_none]
    omega
  · obtain ⟨-, -, same⟩ := bind_eq_ok_iff.mp h
    cases same
    omega

/-- **A header is never longer when it is written anew.** -/
theorem length_toBytes_le {doc : Bytes} {header : Header} (h : ofBytes doc = .ok header) :
    header.toBytes.length ≤ doc.length := by
  obtain ⟨draft, read, finished⟩ := bind_eq_ok_iff.mp h
  have bound := weight_le_of_readDocument Draft.weight Draft.weight_step_le read
  obtain ⟨version, concurrentCollections⟩ := draft
  cases version with
  | none => cases finished
  | some version =>
    cases concurrentCollections with
    | none => cases finished
    | some concurrentCollections =>
      cases finished
      simp only [toBytes, toDocument, length_documentBytes, length_elementBytes_cons,
        length_elementBytes_nil, Draft.weight, fieldLength] at bound ⊢
      omega

end Header

/-! ### Records -/

namespace Record

/-- How long the fields are that have been read, once they are written anew. Until the size has come,
there is credit for a size that is read from four bytes and written in eight. -/
def Draft.weight (draft : Draft) : Nat :=
  fieldLength "db" .string draft.database + fieldLength "collection" .string draft.collection +
    fieldLength "metadata" .string draft.metadata + fieldLength "size" .int64 draft.size +
    if draft.size.isSome then 0 else 4

theorem Draft.weight_step_le {draft next : Draft} {e : Element} (whole : e.Whole)
    (h : draft.step e = .ok next) : next.weight ≤ draft.weight + e.bytes.length := by
  unfold step at h
  split at h
  · next name =>
    obtain ⟨field, read, same⟩ := bind_eq_ok_iff.mp h
    obtain ⟨unset, bound⟩ := fieldLength_text whole name read
    cases same
    simp only [weight, unset, fieldLength_none]
    omega
  split at h
  · next name =>
    obtain ⟨field, read, same⟩ := bind_eq_ok_iff.mp h
    obtain ⟨unset, bound⟩ := fieldLength_text whole name read
    cases same
    simp only [weight, unset, fieldLength_none]
    omega
  split at h
  · next name =>
    obtain ⟨field, read, same⟩ := bind_eq_ok_iff.mp h
    obtain ⟨unset, bound⟩ := fieldLength_text whole name read
    cases same
    simp only [weight, unset, fieldLength_none]
    omega
  split at h
  · next name =>
    obtain ⟨field, read, same⟩ := bind_eq_ok_iff.mp h
    obtain ⟨unset, set, bound⟩ := fieldLength_int64 whole name read
    cases same
    simp only [weight, unset, fieldLength_none, set, if_true, Option.isSome_none,
      Bool.false_eq_true, if_false]
    omega
  · obtain ⟨-, -, same⟩ := bind_eq_ok_iff.mp h
    cases same
    omega

/-- How much longer a record can be when it is written anew: as long as the fields are that a
document may leave out. -/
def room : Nat := (elementBytes [("metadata", .string ""), ("size", .int64 0)]).length

theorem room_eq : room = 29 := by decide +kernel

/-- **A record is longer by the fields that its document left out at the most.** -/
theorem length_toBytes_le {doc : Bytes} {record : Record} (h : ofBytes doc = .ok record) :
    record.toBytes.length ≤ doc.length + room := by
  obtain ⟨draft, read, finished⟩ := bind_eq_ok_iff.mp h
  have bound := weight_le_of_readDocument Draft.weight Draft.weight_step_le read
  obtain ⟨database, collection, metadata, size⟩ := draft
  cases database with
  | none => cases finished
  | some database =>
    cases collection with
    | none => cases finished
    | some collection =>
      cases finished
      simp only [toBytes, toDocument, room, length_documentBytes, length_elementBytes_cons,
        length_elementBytes_nil, Draft.weight, fieldLength] at bound ⊢
      -- there is room for a field that was left out, and for a size that was read from four bytes
      cases metadata <;> cases size <;>
        simp [Value.toBytes] at bound ⊢ <;> omega

end Record

namespace Catalog

/-! ### Catalogs -/

section Read
variable {source : Source} {catalog : Catalog}

/-- **A catalog that was read grows only by the room of its records when it is written anew.** -/
theorem exists_parses_of_read (given : (read source).1.outcome = .ok catalog) :
    ∃ bytes headerDoc recordDocs, Parses bytes headerDoc recordDocs catalog ∧
      source.rest = bytes ++ (read source).2.rest ∧
      catalog.header.toBytes.length ≤ headerDoc.length ∧
      List.Forall₂ (fun doc record => record.toBytes.length ≤ doc.length + Record.room)
        recordDocs catalog.records := by
  obtain ⟨bytes, headerDoc, recordDocs, parses, front⟩ := parses_of_read given
  obtain ⟨header, records, decoded, decodedAll, rfl⟩ := parses.decoded
  refine ⟨bytes, headerDoc, recordDocs, parses, front, ?_, ?_⟩
  · rw [header_ofRecords]
    exact Header.length_toBytes_le decoded
  · rw [records_ofRecords]
    exact decodedAll.imp fun doc record => Record.length_toBytes_le

theorem length_header_le_of_read (given : (read source).1.outcome = .ok catalog) :
    (catalog.header.toBytes.length : Int) ≤ maxSize.toInt := by
  obtain ⟨bytes, headerDoc, recordDocs, parses, -, bound, -⟩ := exists_parses_of_read given
  have := parses.headerFramed.length_le
  omega

theorem length_record_le_of_read (given : (read source).1.outcome = .ok catalog) {record : Record}
    (member : record ∈ catalog.records) : record.toBytes.length ≤ maxLength := by
  obtain ⟨bytes, headerDoc, recordDocs, parses, -, -, bounds⟩ := exists_parses_of_read given
  have bounds := forall₂_imp_of_mem bounds.flip
    (T := fun record doc => doc ∈ recordDocs ∧ record.toBytes.length ≤ doc.length + Record.room)
    fun record doc member bound => ⟨member, bound⟩
  obtain ⟨doc, -, inside, bound⟩ := exists_of_mem_forall₂ bounds member
  have framed := (parses.recordsFramed doc inside).length_le
  rw [toInt_maxSize] at framed
  rw [Record.room_eq] at bound
  unfold maxLength
  omega

theorem eq_ofRecords_of_read (given : (read source).1.outcome = .ok catalog) :
    catalog = ofRecords catalog.header catalog.records := by
  obtain ⟨bytes, headerDoc, recordDocs, parses, -⟩ := parses_of_read given
  obtain ⟨header, records, -, -, rfl⟩ := parses.decoded
  rw [header_ofRecords, records_ofRecords]

theorem reread_of_small (given : (read source).1.outcome = .ok catalog) (tail : Bytes)
    (schedule : List Delivery) (ending : Ending)
    (small : ∀ record ∈ catalog.records, (record.toBytes.length : Int) ≤ maxSize.toInt) :
    (read ⟨catalog.toBytes ++ tail, schedule, ending⟩).1.outcome = .ok catalog ∧
      (read ⟨catalog.toBytes ++ tail, schedule, ending⟩).2.rest = tail := by
  have within : ∀ doc ∈ (ofRecords catalog.header catalog.records).documents,
      (doc.length : Int) ≤ maxSize.toInt := by
    rw [documents_ofRecords, List.forall_mem_cons, List.forall_mem_map]
    exact ⟨length_header_le_of_read given, small⟩
  have parses := parses_toBytes within
  rw [← eq_ofRecords_of_read given] at parses
  exact read_of_parses _ parses rfl

theorem outcome_reread_of_long (given : (read source).1.outcome = .ok catalog) (tail : Bytes)
    (schedule : List Delivery) (ending : Ending) {front back : List Record} {record : Record}
    (split : catalog.records = front ++ record :: back)
    (small : ∀ other ∈ front, (other.toBytes.length : Int) ≤ maxSize.toInt)
    (long : maxSize.toInt < record.toBytes.length) :
    ∃ size : Int32, size.toInt = record.toBytes.length ∧
      (read ⟨catalog.toBytes ++ tail, schedule, ending⟩).1.outcome =
        .error (.invalidBlockSize size) := by
  have member : record ∈ catalog.records := by
    rw [split]
    simp
  have documents : (ofRecords catalog.header catalog.records).documents =
      (catalog.header.toBytes :: front.map Record.toBytes) ++
        record.toBytes :: back.map Record.toBytes := by
    rw [documents_ofRecords, split, List.map_append, List.map_cons, List.cons_append]
  have front_small : ∀ doc ∈ catalog.header.toBytes :: front.map Record.toBytes,
      (doc.length : Int) ≤ maxSize.toInt := by
    rw [List.forall_mem_cons, List.forall_mem_map]
    exact ⟨length_header_le_of_read given, small⟩
  have rest : (Source.mk (catalog.toBytes ++ tail) schedule ending).rest = magicBytes ++
      ((ofRecords catalog.header catalog.records).documents.flatten ++
        (terminatorBytes ++ tail)) := by
    rw [← eq_ofRecords_of_read given, toBytes_eq]
    simp only [List.append_assoc]
  exact outcome_read_toBytes_of_long documents front_small (length_record_le_of_read given member)
    long rest

/-- **A catalog that was read is read again from its written form as long as no record has grown
beyond the limit of a block.** If one has, reading fails and tells the length of the first such
record. The header never grows, and a record by `Record.room` bytes at the most. -/
theorem reread_of_read (given : (read source).1.outcome = .ok catalog) (tail : Bytes)
    (schedule : List Delivery) (ending : Ending) :
    let again := read ⟨catalog.toBytes ++ tail, schedule, ending⟩
    ((again.1.outcome = .ok catalog ∧ again.2.rest = tail) ↔
      ∀ record ∈ catalog.records, (record.toBytes.length : Int) ≤ maxSize.toInt) ∧
    (∀ front record back, catalog.records = front ++ record :: back →
      (∀ other ∈ front, (other.toBytes.length : Int) ≤ maxSize.toInt) →
      maxSize.toInt < record.toBytes.length →
      ∃ size : Int32, size.toInt = record.toBytes.length ∧
        again.1.outcome = .error (.invalidBlockSize size)) ∧
    ∃ bytes headerDoc recordDocs, Parses bytes headerDoc recordDocs catalog ∧
      source.rest = bytes ++ (read source).2.rest ∧
      catalog.header.toBytes.length ≤ headerDoc.length ∧
      List.Forall₂ (fun doc record => record.toBytes.length ≤ doc.length + Record.room)
        recordDocs catalog.records := by
  refine ⟨⟨fun again => ?_, reread_of_small given tail schedule ending⟩,
    fun front record back split small long =>
      outcome_reread_of_long given tail schedule ending split small long,
    exists_parses_of_read given⟩
  by_contra beyond
  obtain ⟨front, record, back, split, small, long⟩ := exists_first_of_not_all beyond
  obtain ⟨size, -, refused⟩ := outcome_reread_of_long given tail schedule ending split small
    (Int.not_le.mp long)
  cases again.1.symm.trans refused

end Read

/-! ### A record without its size -/

/-- A record of the top level with this metadata. -/
def lone (text : String) : Record := ⟨"", "c", text, 0⟩

/-- The document of the record, but for its size. -/
def unsized (text : String) : Bytes := documentBytes ((lone text).toDocument.take 3)

/-- An archive with the record, whose document leaves the size out. -/
def loneUnsized (text : String) : Bytes :=
  magicBytes ++ (Header.new 1).toBytes ++ unsized text ++ terminatorBytes

section Lone
variable {text : String}

theorem length_unsized : (unsized text).length = (Text.toBytes text).length + 47 := by
  have database : (Text.toBytes "db").length = 2 := by decide
  have collection : (Text.toBytes "collection").length = 10 := by decide
  have metadata : (Text.toBytes "metadata").length = 8 := by decide
  have name : (Text.toBytes "c").length = 1 := by decide
  simp [unsized, lone, Record.toDocument, length_documentBytes, length_elementBytes_cons,
    length_elementBytes_nil, Value.toBytes, length_textBytes, database, collection, metadata, name]
  omega

theorem length_toBytes_lone : (lone text).toBytes.length = (unsized text).length + 14 := by
  have size : (Text.toBytes "size").length = 4 := by decide
  simp [Record.toBytes, unsized, lone, Record.toDocument, length_documentBytes,
    length_elementBytes_cons, length_elementBytes_nil, Value.toBytes, size]
  omega

theorem ofBytes_unsized (fits : (unsized text).length ≤ maxLength) :
    Record.ofBytes (unsized text) = .ok (lone text) := by
  rw [Record.ofBytes, unsized, readDocument_documentBytes Record.Draft.step
    ⟨none, none, none, none⟩ fits
    fun field member => (lone text).clean_toDocument field (List.mem_of_mem_take member)]
  simp only [Record.toDocument, List.take_succ_cons, List.take_zero, List.map_cons, List.map_nil]
  rw [foldlM_cons_ok (Record.Draft.step_database rfl _),
    foldlM_cons_ok (Record.Draft.step_collection rfl _),
    foldlM_cons_ok (Record.Draft.step_metadata rfl _)]
  rfl

theorem outcome_read_loneUnsized (text : String)
    (small : ((unsized text).length : Int) ≤ maxSize.toInt) :
    (read (.ofBytes (loneUnsized text))).1.outcome =
      .ok (ofRecords (Header.new 1) [lone text]) := by
  have parses : Parses (loneUnsized text) (Header.new 1).toBytes [unsized text]
      (ofRecords (Header.new 1) [lone text]) := by
    refine ⟨?_, framed_documentBytes ?_, ?_, Header.new 1, [lone text], ?_, ?_, rfl⟩
    · rw [List.flatten_singleton]
      rfl
    · exact (by decide : ((Header.new 1).toBytes.length : Int) ≤ maxSize.toInt)
    · rw [List.forall_mem_singleton]
      exact framed_documentBytes small
    · exact Header.ofBytes_toBytes (by decide)
    · exact .cons (ofBytes_unsized (le_maxLength small)) .nil
  exact (read_of_parses (.ofBytes (loneUnsized text)) parses (List.append_nil _).symm).1

/-- A record whose document just fits is not read again, for its size is written now. -/
theorem outcome_reread_loneUnsized (full : (unsized text).length = 16793600) :
    (read (.ofBytes (ofRecords (Header.new 1) [lone text]).toBytes)).1.outcome =
      .error (.invalidBlockSize 16793614) := by
  have given := outcome_read_loneUnsized text (by rw [full, toInt_maxSize]; omega)
  have grown : (lone text).toBytes.length = 16793614 := by rw [length_toBytes_lone, full]
  obtain ⟨size, size_eq, refused⟩ := outcome_reread_of_long given [] [] .closed
    (show _ = [] ++ lone text :: [] from records_ofRecords ..) (by simp)
    (by rw [grown, toInt_maxSize]; omega)
  rw [grown] at size_eq
  have same : size = 16793614 := Int32.toInt_inj.mp (size_eq.trans (by decide))
  rw [List.append_nil, same] at refused
  exact refused

end Lone

theorem length_replicate (n : Nat) :
    (Text.toBytes (String.ofList (List.replicate n 'a'))).length = n := by
  induction n with
  | zero => rfl
  | succ n ih =>
    have first : Text.toBytes (String.ofList ('a' :: List.replicate n 'a')) =
        Text.toBytes (String.singleton 'a') ++
          Text.toBytes (String.ofList (List.replicate n 'a')) := by
      rw [String.ofList_cons]
      simp [Text.toBytes]
    rw [List.replicate_succ, first, List.length_append, ih, Nat.add_comm]
    rfl

/-- An archive whose record stays within the limit is read again. -/
theorem reread_loneUnsized :
    let catalog := ofRecords (Header.new 1) [lone "\x7b\x7d"]
    (read (.ofBytes (loneUnsized "\x7b\x7d"))).1.outcome = .ok catalog ∧
      (read ⟨catalog.toBytes ++ [7], [], .closed⟩).1.outcome = .ok catalog ∧
      (read ⟨catalog.toBytes ++ [7], [], .closed⟩).2.rest = [7] := by
  have given := outcome_read_loneUnsized "\x7b\x7d" (by decide)
  exact ⟨given, (reread_of_read given [7] [] .closed).1.mpr (by decide)⟩

/-- An archive whose document is just within the limit is not read again. -/
theorem not_reread_loneUnsized :
    let text := String.ofList (List.replicate 16793553 'a')
    let catalog := ofRecords (Header.new 1) [lone text]
    (read (.ofBytes (loneUnsized text))).1.outcome = .ok catalog ∧
      (read (.ofBytes catalog.toBytes)).1.outcome = .error (.invalidBlockSize 16793614) := by
  intro text catalog
  have full : (unsized text).length = 16793600 := by
    rw [length_unsized, length_replicate]
  exact ⟨outcome_read_loneUnsized text (by rw [full, toInt_maxSize]; omega),
    outcome_reread_loneUnsized full⟩

end Catalog

end DumpCatalog
