import DumpCatalog.Header
import DumpCatalog.Proofs.Bson.Writing
import DumpCatalog.Record

/-! # Documents: only the known fields decide

Records and headers are read from the fields they know: `Record.Spells` and `Header.Spells` say
which values a document may have under those names, in any order and between any other values. The
main statement (`decidedBy_known_fields`) is that a document is read as exactly what it spells, and
what happens to a document from which a field was taken out, to which a second value of a field was
added, or which has a number that does not fit. No other documents are read at all
(`Record.ofBytes_eq_ok_iff`, `Header.ofBytes_eq_ok_iff`). -/

namespace DumpCatalog

namespace Bson

/-! ### Values that fields take -/

/-- A text is given as text, or as bytes of the general subtype that write it. -/
inductive Value.GivesText : Value → String → Prop
  | string (text : String) : GivesText (.string text) text
  | binary (text : String) : GivesText (.binary 0 (Text.toBytes text)) text

/-- An integer is given in either width. -/
inductive Value.GivesInteger : Value → Int → Prop
  | int32 (word : Int32) : GivesInteger (.int32 word) word.toInt
  | int64 (word : Int64) : GivesInteger (.int64 word) word.toInt

theorem toText_content_eq_ok_iff (text : String) (value : Value) :
    value.content.toText = .ok text ↔ value.GivesText text := by
  constructor
  · intro read
    cases value with
    | string text' =>
      obtain rfl := Except.ok.inj read
      exact .string text'
    | binary subtype data =>
      rw [Value.content] at read
      split at read
      · next general =>
        rw [Content.toText] at read
        split at read
        · next text' written =>
          obtain rfl := Except.ok.inj read
          rw [general, ← Text.toBytes_of_ofBytes? written]
          exact .binary text'
        · cases read
      · cases read
    | _ => cases read
  · intro gives
    cases gives with
    | string => rfl
    | binary => rw [Value.content, if_pos rfl, Content.toText, Text.ofBytes?_toBytes]

theorem content_eq_integer_iff {value : Value} {n : Int} :
    value.content = .integer n ↔ value.GivesInteger n := by
  constructor
  · intro same
    cases value with
    | int32 word =>
      obtain rfl := Content.integer.inj same
      exact .int32 word
    | int64 word =>
      obtain rfl := Content.integer.inj same
      exact .int64 word
    | binary subtype data =>
      rw [Value.content] at same
      split at same <;> cases same
    | _ => cases same
  · intro gives
    cases gives <;> rfl

theorem toInt64_content_eq_ok_iff (word : Int64) (value : Value) :
    value.content.toInt64 = .ok word ↔ value.GivesInteger word.toInt := by
  rw [← content_eq_integer_iff]
  constructor
  · intro read
    cases content : value.content with
    | integer n =>
      rw [content, Content.toInt64] at read
      split at read
      · next inside =>
        rw [Int64.toInt_minValue, Int64.toInt_maxValue] at inside
        rw [← Except.ok.inj read, Int64.toInt_ofInt_of_le inside.1 (by omega)]
      · cases read
    | _ => rw [content] at read; cases read
  · intro content
    rw [content]
    exact toInt64_integer word

theorem toInt32_content_eq_ok_iff (word : Int32) (value : Value) :
    value.content.toInt32 = .ok word ↔ value.GivesInteger word.toInt := by
  rw [← content_eq_integer_iff]
  constructor
  · intro read
    cases content : value.content with
    | integer n =>
      rw [content, Content.toInt32] at read
      split at read
      · next inside =>
        rw [Int32.toInt_minValue, Int32.toInt_maxValue] at inside
        rw [← Except.ok.inj read, Int32.toInt_ofInt_of_le inside.1 (by omega)]
      · cases read
    | _ => rw [content] at read; cases read
  · intro content
    rw [content]
    exact toInt32_integer word

/-! ### Readers of documents -/

/-- What the document of some fields comes to, for a reader of documents that spell something. A
field that is `demanded` has to be there, one that is `optional` may be. -/
structure DecidedBy {α : Type} (spells : List (String × Value) → α → Prop)
    (demanded optional : List String) (ofBytes : Bytes → Except DecodeFault α)
    (fields : List (String × Value)) : Prop where
  /-- The document is read as what it spells. -/
  spelled : ∀ a, ofBytes (documentBytes fields) = .ok a ↔ spells fields a
  /-- When a demanded field was taken out of a document that spelled something, it is missed. -/
  missing : ∀ name ∈ demanded, ∀ front value back a, fields = front ++ back →
    spells (front ++ (name, value) :: back) a →
      ofBytes (documentBytes fields) = .error (.missingField name)
  /-- When one more value of a known field was added to a document that spelled something with that
  field, nothing is read; the repetition is the fault when the new value stands behind. -/
  repeated : ∀ name ∈ demanded ++ optional, ∀ front value back a,
    fields = front ++ (name, value) :: back → spells (front ++ back) a →
      name ∈ (front ++ back).map (·.1) →
        ∃ fault, ofBytes (documentBytes fields) = .error fault ∧
          (name ∈ front.map (·.1) → fault = .duplicateField name)

theorem shorter_of_insert {front back : List (String × Value)} {field : String × Value}
    (wellFormed : WellFormed (front ++ field :: back))
    (fits : (documentBytes (front ++ field :: back)).length ≤ maxLength) :
    WellFormed (front ++ back) ∧ (elementBytes (front ++ back)).length ≤ maxLength := by
  obtain ⟨ahead, behind⟩ := wellFormed_append.mp wellFormed
  rw [length_documentBytes, length_elementBytes_append, length_elementBytes_cons] at fits
  refine ⟨wellFormed_append.mpr ⟨ahead, (wellFormed_cons.mp behind).2.2⟩, ?_⟩
  rw [length_elementBytes_append]
  omega

namespace Format
variable {σ α : Type} (format : Format σ)

/-- **A reader that takes the elements into a draft and finishes it** is decided by the values that
the draft holds. -/
theorem decidedBy {fields : List (String × Value)} (wellFormed : WellFormed fields)
    (fits : (documentBytes fields).length ≤ maxLength)
    {spells : List (String × Value) → α → Prop} {demanded optional : List String}
    {ofBytes : Bytes → Except DecodeFault α} {finish : σ → Except DecodeFault α}
    (named : format.slots.map (·.name) = demanded ++ optional)
    (reads : ∀ doc, ofBytes doc = readDocument format.step format.start doc >>= finish)
    (spells_iff : ∀ fields a,
      spells fields a ↔ ∃ draft, format.Holds fields draft ∧ finish draft = .ok a)
    (demands : ∀ slot ∈ format.slots, slot.name ∈ demanded → ∀ draft a, finish draft = .ok a →
      finish (slot.set draft none) = .error (.missingField slot.name)) :
    DecidedBy spells demanded optional ofBytes fields := by
  have slot_of_name {name : String} (known : name ∈ demanded ++ optional) :
      ∃ slot ∈ format.slots, slot.name = name := by
    rw [← named] at known
    exact List.mem_map.mp known
  have spelled (a : α) : ofBytes (documentBytes fields) = .ok a ↔ spells fields a := by
    rw [reads, bind_eq_ok_iff, spells_iff]
    exact exists_congr fun draft =>
      and_congr_left' (format.readDocument_eq_ok_iff wellFormed fits draft)
  refine ⟨spelled, ?_, ?_⟩
  · rintro name known front value back a rfl whole
    obtain ⟨slot, member, rfl⟩ := slot_of_name (List.mem_append_left _ known)
    obtain ⟨draft, holds, finished⟩ := (spells_iff _ a).mp whole
    have walked := (format.readDocument_eq_ok_iff wellFormed fits _).mpr
      (format.holds_removed member holds)
    rw [reads, walked]
    exact demands slot member known draft a finished
  · rintro name known front value back a rfl whole again
    obtain ⟨slot, member, rfl⟩ := slot_of_name known
    have shorter := shorter_of_insert wellFormed fits
    cases read : ofBytes (documentBytes (front ++ (slot.name, value) :: back)) with
    | ok b =>
      obtain ⟨draft, holds, -⟩ := (spells_iff _ b).mp ((spelled b).mp read)
      have absent := Slot.Reads.removed (holds slot member)
      exact (valuesOf_eq_nil_iff.mp absent again).elim
    | error fault =>
      refine ⟨fault, rfl, fun behind => ?_⟩
      obtain ⟨draft, holds, -⟩ := (spells_iff _ a).mp whole
      obtain ⟨before, held⟩ := format.exists_holds_of_append shorter.1 shorter.2 holds
      have repetition :=
        format.readDocument_of_repeated wellFormed fits held member rfl behind
      rw [reads, repetition] at read
      exact (Except.error.inj read).symm

/-- **A reader reads the written forms of what spells something**, and nothing else. -/
theorem ofBytes_eq_ok_iff (closed : ∀ slot ∈ format.slots, slot.Closed)
    {spells : List (String × Value) → α → Prop} {demanded optional : List String}
    {ofBytes : Bytes → Except DecodeFault α} {finish : σ → Except DecodeFault α}
    (reads : ∀ doc, ofBytes doc = readDocument format.step format.start doc >>= finish)
    (decided : ∀ fields, WellFormed fields → (documentBytes fields).length ≤ maxLength →
      DecidedBy spells demanded optional ofBytes fields) {doc : Bytes} {a : α} :
    ofBytes doc = .ok a ↔ ∃ fields, WellFormed fields ∧ documentBytes fields = doc ∧
      doc.length ≤ maxLength ∧ spells fields a := by
  constructor
  · intro read
    have walked := read
    rw [reads, bind_eq_ok_iff] at walked
    obtain ⟨draft, walked, -⟩ := walked
    obtain ⟨fields, wellFormed, rfl, fits⟩ := format.exists_fields_of_readDocument closed walked
    exact ⟨fields, wellFormed, rfl, fits, ((decided fields wellFormed fits).spelled a).mp read⟩
  · rintro ⟨fields, wellFormed, rfl, fits, spelled⟩
    exact ((decided fields wellFormed fits).spelled a).mpr spelled

end Format

end Bson

open Bson

/-! ### Records -/

namespace Record

/-- What a document has to say to be read as a record: either name once, and neither the metadata
nor the size more than once. -/
structure Spells (fields : List (String × Value)) (record : Record) : Prop where
  database : Given "db" (·.GivesText record.database) fields
  collection : Given "collection" (·.GivesText record.collection) fields
  metadata : Given "metadata" (·.GivesText record.metadata) fields ∨
    "metadata" ∉ fields.map (·.1) ∧ record.metadata = ""
  size : Given "size" (·.GivesInteger record.size.toInt) fields ∨
    "size" ∉ fields.map (·.1) ∧ record.size = 0

/-- The place of the database in a draft. -/
def databaseSlot : Slot Draft where
  Kind := String
  name := "db"
  get := (·.database)
  set draft kept := { draft with database := kept }
  read := Content.toText

/-- The place of the collection in a draft. -/
def collectionSlot : Slot Draft where
  Kind := String
  name := "collection"
  get := (·.collection)
  set draft kept := { draft with collection := kept }
  read := Content.toText

/-- The place of the metadata in a draft. -/
def metadataSlot : Slot Draft where
  Kind := String
  name := "metadata"
  get := (·.metadata)
  set draft kept := { draft with metadata := kept }
  read := Content.toText

/-- The place of the size in a draft. -/
def sizeSlot : Slot Draft where
  Kind := Int64
  name := "size"
  get := (·.size)
  set draft kept := { draft with size := kept }
  read := Content.toInt64

/-- The fields of a record. -/
def format : Format Draft where
  slots := [databaseSlot, collectionSlot, metadataSlot, sizeSlot]
  start := ⟨none, none, none, none⟩
  apart := by
    simp only [List.pairwise_cons, List.forall_mem_cons, List.not_mem_nil, false_imp_iff,
      implies_true, and_true, List.Pairwise.nil]
    refine ⟨⟨?_, ?_, ?_⟩, ⟨?_, ?_⟩, ?_⟩ <;>
      exact ⟨by decide, fun _ _ => rfl, fun _ _ => rfl⟩
  empty := by
    simp only [List.forall_mem_cons, List.not_mem_nil, false_imp_iff, implies_true, and_true]
    exact ⟨rfl, rfl, rfl, rfl⟩
  ext := by
    rintro ⟨database, collection, metadata, size⟩ ⟨_, _, _, _⟩ same
    simp only [List.forall_mem_cons, List.not_mem_nil, false_imp_iff, implies_true,
      and_true] at same
    obtain ⟨rfl, rfl, rfl, rfl⟩ := same
    rfl

theorem holds_format_iff {fields : List (String × Value)} {draft : Draft} :
    format.Holds fields draft ↔
      databaseSlot.Reads fields draft.database ∧ collectionSlot.Reads fields draft.collection ∧
        metadataSlot.Reads fields draft.metadata ∧ sizeSlot.Reads fields draft.size := by
  simp only [Format.Holds, format, List.forall_mem_cons, List.not_mem_nil, false_imp_iff,
    implies_true, and_true]
  rfl

theorem ofBytes_eq (doc : Bytes) :
    ofBytes doc = readDocument format.step format.start doc >>= Draft.finish := rfl

theorem finish_eq_ok_iff {draft : Draft} {record : Record} :
    draft.finish = .ok record ↔ demand "db" draft.database = .ok record.database ∧
      demand "collection" draft.collection = .ok record.collection ∧
        draft.metadata.getD "" = record.metadata ∧ draft.size.getD 0 = record.size := by
  obtain ⟨database, collection, metadata, size⟩ := record
  simp only [Draft.finish, bind_eq_ok_iff]
  constructor
  · rintro ⟨_, first, _, second, same⟩
    cases same
    exact ⟨first, second, rfl, rfl⟩
  · rintro ⟨first, second, rfl, rfl⟩
    exact ⟨database, first, collection, second, rfl⟩

theorem spells_iff (fields : List (String × Value)) (record : Record) :
    Spells fields record ↔ ∃ draft, format.Holds fields draft ∧ draft.finish = .ok record := by
  have database := databaseSlot.given_iff (toText_content_eq_ok_iff record.database) fields
  have collection := collectionSlot.given_iff (toText_content_eq_ok_iff record.collection) fields
  have metadata := metadataSlot.given_or_absent_iff (toText_content_eq_ok_iff record.metadata) ""
    fields
  have size := sizeSlot.given_or_absent_iff (toInt64_content_eq_ok_iff record.size) (0 : Int64)
    fields
  constructor
  · intro spells
    obtain ⟨_, databaseRead, databaseDemanded⟩ := database.mp spells.database
    obtain ⟨_, collectionRead, collectionDemanded⟩ := collection.mp spells.collection
    obtain ⟨_, metadataRead, metadataDefault⟩ := metadata.mp spells.metadata
    obtain ⟨_, sizeRead, sizeDefault⟩ := size.mp spells.size
    exact ⟨⟨_, _, _, _⟩,
      holds_format_iff.mpr ⟨databaseRead, collectionRead, metadataRead, sizeRead⟩,
      finish_eq_ok_iff.mpr
        ⟨databaseDemanded, collectionDemanded, metadataDefault, sizeDefault⟩⟩
  · rintro ⟨draft, holds, finished⟩
    obtain ⟨databaseRead, collectionRead, metadataRead, sizeRead⟩ := holds_format_iff.mp holds
    obtain ⟨databaseDemanded, collectionDemanded, metadataDefault, sizeDefault⟩ :=
      finish_eq_ok_iff.mp finished
    exact ⟨database.mpr ⟨_, databaseRead, databaseDemanded⟩,
      collection.mpr ⟨_, collectionRead, collectionDemanded⟩,
      metadata.mpr ⟨_, metadataRead, metadataDefault⟩, size.mpr ⟨_, sizeRead, sizeDefault⟩⟩

theorem finish_set_none {slot : Slot Draft} (member : slot ∈ format.slots)
    (demanded : slot.name ∈ ["db", "collection"]) {draft : Draft} {record : Record}
    (finished : draft.finish = .ok record) :
    (slot.set draft none).finish = .error (.missingField slot.name) := by
  obtain ⟨database, -⟩ := finish_eq_ok_iff.mp finished
  simp only [format, List.mem_cons, List.not_mem_nil, or_false] at member
  rcases member with rfl | rfl | rfl | rfl
  · rfl
  · change (demand "db" draft.database >>= _) = _
    rw [database]
    rfl
  · exact absurd demanded (by decide)
  · exact absurd demanded (by decide)

/-- **A document is read as the record it spells.** -/
theorem decidedBy {fields : List (String × Value)} (wellFormed : WellFormed fields)
    (fits : (documentBytes fields).length ≤ maxLength) :
    DecidedBy Spells ["db", "collection"] ["metadata", "size"] ofBytes fields :=
  format.decidedBy wellFormed fits rfl ofBytes_eq spells_iff
    fun _ member demanded _ _ finished => finish_set_none member demanded finished

theorem closed_of_mem {slot : Slot Draft} (member : slot ∈ format.slots) : slot.Closed := by
  simp only [format, List.mem_cons, List.not_mem_nil, or_false] at member
  rcases member with rfl | rfl | rfl | rfl
  all_goals exact ⟨nofun, nofun⟩

/-- **The documents of records** are the written forms of well-formed fields that spell them. -/
theorem ofBytes_eq_ok_iff {doc : Bytes} {record : Record} :
    ofBytes doc = .ok record ↔ ∃ fields, WellFormed fields ∧ documentBytes fields = doc ∧
      doc.length ≤ maxLength ∧ Spells fields record :=
  format.ofBytes_eq_ok_iff (fun _ => closed_of_mem) ofBytes_eq fun _ => decidedBy

end Record

/-! ### Headers -/

namespace Header

/-- What a document has to say to be read as a header: either field once. -/
structure Spells (fields : List (String × Value)) (header : Header) : Prop where
  version : Given "version" (·.GivesText header.version) fields
  concurrentCollections :
    Given "concurrent_collections" (·.GivesInteger header.concurrentCollections.toInt) fields

/-- The place of the version in a draft. -/
def versionSlot : Slot Draft where
  Kind := String
  name := "version"
  get := (·.version)
  set draft kept := { draft with version := kept }
  read := Content.toText

/-- The place of the number of collections in a draft. -/
def concurrentCollectionsSlot : Slot Draft where
  Kind := Int32
  name := "concurrent_collections"
  get := (·.concurrentCollections)
  set draft kept := { draft with concurrentCollections := kept }
  read := Content.toInt32

/-- The fields of a header. -/
def format : Format Draft where
  slots := [versionSlot, concurrentCollectionsSlot]
  start := ⟨none, none⟩
  apart := by
    simp only [List.pairwise_cons, List.forall_mem_cons, List.not_mem_nil, false_imp_iff,
      implies_true, and_true, List.Pairwise.nil]
    exact ⟨by decide, fun _ _ => rfl, fun _ _ => rfl⟩
  empty := by
    simp only [List.forall_mem_cons, List.not_mem_nil, false_imp_iff, implies_true, and_true]
    exact ⟨rfl, rfl⟩
  ext := by
    rintro ⟨version, concurrentCollections⟩ ⟨_, _⟩ same
    simp only [List.forall_mem_cons, List.not_mem_nil, false_imp_iff, implies_true,
      and_true] at same
    obtain ⟨rfl, rfl⟩ := same
    rfl

theorem holds_format_iff {fields : List (String × Value)} {draft : Draft} :
    format.Holds fields draft ↔ versionSlot.Reads fields draft.version ∧
      concurrentCollectionsSlot.Reads fields draft.concurrentCollections := by
  simp only [Format.Holds, format, List.forall_mem_cons, List.not_mem_nil, false_imp_iff,
    implies_true, and_true]
  rfl

theorem ofBytes_eq (doc : Bytes) :
    ofBytes doc = readDocument format.step format.start doc >>= Draft.finish := rfl

theorem finish_eq_ok_iff {draft : Draft} {header : Header} :
    draft.finish = .ok header ↔ demand "version" draft.version = .ok header.version ∧
      demand "concurrent_collections" draft.concurrentCollections =
        .ok header.concurrentCollections := by
  obtain ⟨version, concurrentCollections⟩ := header
  simp only [Draft.finish, bind_eq_ok_iff]
  constructor
  · rintro ⟨_, first, _, second, same⟩
    cases same
    exact ⟨first, second⟩
  · rintro ⟨first, second⟩
    exact ⟨version, first, concurrentCollections, second, rfl⟩

theorem spells_iff (fields : List (String × Value)) (header : Header) :
    Spells fields header ↔ ∃ draft, format.Holds fields draft ∧ draft.finish = .ok header := by
  have version := versionSlot.given_iff (toText_content_eq_ok_iff header.version) fields
  have concurrentCollections := concurrentCollectionsSlot.given_iff
    (toInt32_content_eq_ok_iff header.concurrentCollections) fields
  constructor
  · intro spells
    obtain ⟨_, versionRead, versionDemanded⟩ := version.mp spells.version
    obtain ⟨_, countRead, countDemanded⟩ :=
      concurrentCollections.mp spells.concurrentCollections
    exact ⟨⟨_, _⟩, holds_format_iff.mpr ⟨versionRead, countRead⟩,
      finish_eq_ok_iff.mpr ⟨versionDemanded, countDemanded⟩⟩
  · rintro ⟨draft, holds, finished⟩
    obtain ⟨versionRead, countRead⟩ := holds_format_iff.mp holds
    obtain ⟨versionDemanded, countDemanded⟩ := finish_eq_ok_iff.mp finished
    exact ⟨version.mpr ⟨_, versionRead, versionDemanded⟩,
      concurrentCollections.mpr ⟨_, countRead, countDemanded⟩⟩

theorem finish_set_none {slot : Slot Draft} (member : slot ∈ format.slots) {draft : Draft}
    {header : Header} (finished : draft.finish = .ok header) :
    (slot.set draft none).finish = .error (.missingField slot.name) := by
  obtain ⟨version, -⟩ := finish_eq_ok_iff.mp finished
  simp only [format, List.mem_cons, List.not_mem_nil, or_false] at member
  rcases member with rfl | rfl
  · rfl
  · change (demand "version" draft.version >>= _) = _
    rw [version]
    rfl

/-- **A document is read as the header it spells.** -/
theorem decidedBy {fields : List (String × Value)} (wellFormed : WellFormed fields)
    (fits : (documentBytes fields).length ≤ maxLength) :
    DecidedBy Spells ["version", "concurrent_collections"] [] ofBytes fields :=
  format.decidedBy wellFormed fits rfl ofBytes_eq spells_iff
    fun _ member _ _ _ finished => finish_set_none member finished

theorem closed_of_mem {slot : Slot Draft} (member : slot ∈ format.slots) : slot.Closed := by
  simp only [format, List.mem_cons, List.not_mem_nil, or_false] at member
  rcases member with rfl | rfl
  all_goals exact ⟨nofun, nofun⟩

/-- **The documents of headers** are the written forms of well-formed fields that spell them. -/
theorem ofBytes_eq_ok_iff {doc : Bytes} {header : Header} :
    ofBytes doc = .ok header ↔ ∃ fields, WellFormed fields ∧ documentBytes fields = doc ∧
      doc.length ≤ maxLength ∧ Spells fields header :=
  format.ofBytes_eq_ok_iff (fun _ => closed_of_mem) ofBytes_eq fun _ => decidedBy

/-- **A number of collections that does not fit** is the fault of the document. -/
theorem ofBytes_of_outOfRange {front back : List (String × Value)} {n : Int64}
    (wellFormed : WellFormed (front ++ ("concurrent_collections", .int64 n) :: back))
    (fits : (documentBytes (front ++ ("concurrent_collections", .int64 n) :: back)).length ≤
      maxLength)
    {value : Value} {header : Header}
    (spells : Spells (front ++ ("concurrent_collections", value) :: back) header)
    (outside : n.toInt < Int32.minValue.toInt ∨ Int32.maxValue.toInt < n.toInt) :
    ofBytes (documentBytes (front ++ ("concurrent_collections", .int64 n) :: back)) =
      .error (.outOfRange n.toInt .int32) := by
  have member : concurrentCollectionsSlot ∈ format.slots :=
    List.mem_cons_of_mem _ List.mem_cons_self
  have refused : (Value.int64 n).content.toInt32 = .error (.outOfRange n.toInt .int32) := by
    rw [Value.content, Content.toInt32, if_neg (by omega)]
  obtain ⟨draft, holds, -⟩ := (spells_iff _ header).mp spells
  obtain ⟨shorter, less⟩ := shorter_of_insert wellFormed fits
  obtain ⟨before, held⟩ :=
    format.exists_holds_of_append shorter less (format.holds_removed member holds)
  have first : "concurrent_collections" ∉ front.map (·.1) := by
    have absent := valuesOf_eq_nil_iff.mp (Slot.Reads.removed (holds _ member))
    rw [List.map_append] at absent
    exact fun again => absent (List.mem_append_left _ again)
  rw [ofBytes_eq, format.readDocument_of_refused wellFormed fits held member rfl first refused]
  rfl

end Header

/-! ### Both readers -/

/-- **Only the known fields decide what a document is read as.** Whatever their order, and whatever
well-formed values stand between them under other names, a document is read as exactly the record
and exactly the header that it spells. It is refused for a demanded field that was taken out, for a
known field that was repeated, and for a number of collections beyond 32 bits. -/
theorem decidedBy_known_fields {fields : List (String × Value)} (wellFormed : WellFormed fields)
    (fits : (documentBytes fields).length ≤ maxLength) :
    DecidedBy Record.Spells ["db", "collection"] ["metadata", "size"] Record.ofBytes fields ∧
      DecidedBy Header.Spells ["version", "concurrent_collections"] [] Header.ofBytes fields ∧
        ∀ front value back header (n : Int64),
          fields = front ++ ("concurrent_collections", .int64 n) :: back →
            Header.Spells (front ++ ("concurrent_collections", value) :: back) header →
              n.toInt < Int32.minValue.toInt ∨ Int32.maxValue.toInt < n.toInt →
                Header.ofBytes (documentBytes fields) = .error (.outOfRange n.toInt .int32) := by
  refine ⟨Record.decidedBy wellFormed fits, Header.decidedBy wellFormed fits, ?_⟩
  rintro front value back header n rfl spells outside
  exact Header.ofBytes_of_outOfRange wellFormed fits spells outside

/-- Fields of both kinds, out of order, with documents, code and bytes in between. -/
def mixedFields : List (String × Value) :=
  [("note", .document [("db", .int32 1), ("run", .codeWithScope "f" [("0", .array [])])]),
    ("size", .int32 7), ("collection", .binary 0 (Text.toBytes "c")),
    ("old", .binary 2 (lengthSlot 1 ++ [9])), ("version", .string "0.1"),
    ("concurrent_collections", .int64 2147483648), ("note", .regex "a" "i"),
    ("db", .string "d")]

theorem decidedBy_known_fields_mixed :
    WellFormed mixedFields ∧ (documentBytes mixedFields).length ≤ maxLength ∧
      Record.ofBytes (documentBytes mixedFields) = .ok ⟨"d", "c", "", 7⟩ ∧
        Header.ofBytes (documentBytes mixedFields) = .error (.outOfRange 2147483648 .int32) := by
  have wellFormed : WellFormed mixedFields := by decide +kernel
  have fits : (documentBytes mixedFields).length ≤ maxLength := by decide +kernel
  obtain ⟨record, -, outside⟩ := decidedBy_known_fields wellFormed fits
  refine ⟨wellFormed, fits, (record.spelled _).mpr ?_, ?_⟩
  · exact ⟨⟨_, rfl, .string "d"⟩, ⟨_, rfl, .binary "c"⟩, .inr ⟨by decide, rfl⟩,
      .inl ⟨_, rfl, .int32 7⟩⟩
  · exact outside (mixedFields.take 5) (.int32 4) (mixedFields.drop 6) ⟨"0.1", 4⟩ 2147483648 rfl
      ⟨⟨_, rfl, .string "0.1"⟩, ⟨_, rfl, .int32 4⟩⟩ (by decide)

end DumpCatalog
