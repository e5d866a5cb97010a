import DumpCatalog.Proofs.Bson.Fields
import DumpCatalog.Proofs.Bson.Length

/-! # Documents: what is sound was written

A reader that finds nothing wrong with a document at any depth has met the written form of
well-formed fields, and nothing else (`isSound_iff`): every value that follows the rules of its kind
is that of a well-formed value, which is written in just these bytes (`Element.written`). So to
speak of the written forms of well-formed fields is to speak of all sound documents, among them all
that a format reads (`Format.exists_fields_of_readDocument`). -/

namespace DumpCatalog.Bson

/-! ### Lengths and texts -/

theorem take_four_of_length? {bs : Bytes} {n : Int} (read : length? bs = some n)
    (nonneg : 0 ≤ n) : bs.take 4 = lengthSlot n.toNat ∧ n.toNat ≤ maxLength := by
  unfold length? at read
  split at read
  · next a b c d rest =>
    obtain rfl := Option.some.inj read
    set word := Bytes.toInt32 [a, b, c, d]
    have upper : word.toInt ≤ 2147483647 := Int32.toInt_le word
    have fits : word.toInt.toNat ≤ maxLength := by unfold maxLength; omega
    have same : Int32.ofNat word.toInt.toNat = word := by
      apply Int32.toInt_inj.mp
      rw [Int32.toInt_ofNat_of_lt (by omega), Int.toNat_of_nonneg nonneg]
    refine ⟨?_, fits⟩
    rw [lengthSlot_eq fits, same]
    exact (Bytes.ofInt32_toInt32 (rfl : [a, b, c, d].length = 4)).symm
  · cases read

theorem eq_append_zero {bs : Bytes} {n : Nat} (long : n < bs.length)
    (last : bs.getLast? = some 0) : bs.drop n = (bs.drop n).dropLast ++ [0] := by
  have last : (bs.drop n).getLast? = some 0 := by
    rw [List.getLast?_drop, if_neg (by omega), last]
  exact (List.dropLast_append_getLast? 0 last).symm

theorem eq_textBytes {bs : Bytes} {size : Nat} {text : String} (sized : textSize? bs = some size)
    (read : textAfterLength? (bs.take size) = some text) : bs.take size = textBytes text := by
  simp only [textSize?, Option.bind_eq_bind, Option.bind_eq_some_iff] at sized
  obtain ⟨n, length, sized⟩ := sized
  split at sized
  · next right =>
    obtain ⟨positive, last⟩ := right
    obtain rfl := Option.some.inj sized
    obtain ⟨slot, -⟩ := take_four_of_length? length (by omega)
    have inside := (List.getElem?_eq_some_iff.mp last).1
    have whole : (bs.take (4 + n.toNat)).length = 4 + n.toNat := by
      rw [List.length_take]
      omega
    have front : (bs.take (4 + n.toNat)).take 4 = lengthSlot n.toNat := by
      rw [List.take_take, Nat.min_eq_left (Nat.le_add_right ..), slot]
    have ends : (bs.take (4 + n.toNat)).getLast? = some 0 := by
      rw [List.getLast?_eq_getElem?, whole, List.getElem?_take_of_lt (by omega), last]
    have back := eq_append_zero (n := 4) (by omega) ends
    rw [← Text.toBytes_of_ofBytes? read] at back
    have count := congrArg List.length back
    rw [List.length_drop, whole, List.length_append, List.length_singleton] at count
    rw [← List.take_append_drop 4 (bs.take (4 + n.toNat)), front, back, textBytes,
      List.append_assoc]
    congr 2
    omega
  · cases sized

theorem eq_frame_of_body? {doc bs : Bytes} (cut : body? doc = some bs) :
    doc = frame bs.dropLast ∧ bs = bs.dropLast ++ [0] ∧ doc.length ≤ maxLength := by
  simp only [body?, Option.bind_eq_bind, Option.bind_eq_some_iff] at cut
  obtain ⟨n, length, cut⟩ := cut
  split at cut
  · next right =>
    obtain ⟨five, same, last⟩ := right
    obtain rfl := Option.some.inj cut
    obtain ⟨slot, fits⟩ := take_four_of_length? length (by omega)
    have back := eq_append_zero (n := 4) (by omega) last
    have count := congrArg List.length back
    rw [List.length_drop, List.length_append, List.length_singleton] at count
    refine ⟨?_, back, by omega⟩
    conv => lhs; rw [← List.take_append_drop 4 doc, slot, back]
    rw [frame, List.append_assoc]
    congr 2
    omega
  · cases cut

/-! ### Values -/

theorem exists_vector {bs : Bytes} {n : Nat} (length : bs.length = n) :
    ∃ data : Vector UInt8 n, data.toList = bs :=
  ⟨⟨bs.toArray, by simpa using length⟩, by simp⟩

theorem noZero_of_cstring? {bs rest : Bytes} {text : String}
    (read : cstring? bs = some (text, rest)) : NoZero text := by
  simp only [cstring?, Option.bind_eq_bind, Option.bind_eq_some_iff, Prod.exists] at read
  obtain ⟨front, rest', cut, text', read, same⟩ := read
  cases same
  unfold untilZero? at cut
  split at cut
  · cases cut
  · cases cut
    intro b member
    rw [Text.toBytes_of_ofBytes? read] at member
    simpa using List.all_eq_true.mp List.all_takeWhile b member

theorem exists_textBytes {bs rest : Bytes} (sized : textSize? (bs ++ rest) = some bs.length)
    (known : (textAfterLength? bs).isSome = true) : ∃ text, textBytes text = bs := by
  obtain ⟨text, read⟩ := Option.isSome_iff_exists.mp known
  have written := eq_textBytes sized (by rw [List.take_left]; exact read)
  rw [List.take_left] at written
  exact ⟨text, written.symm⟩

theorem four_le_of_length? {bs : Bytes} {n : Int} (read : length? bs = some n) :
    4 ≤ bs.length := by
  match bs, read with
  | _ :: _ :: _ :: _ :: _, _ => simp

theorem length?_of_append {bs rest : Bytes} {n : Int} (long : 4 ≤ bs.length)
    (read : length? (bs ++ rest) = some n) : length? bs = some n := by
  match bs, long with
  | _ :: _ :: _ :: _ :: _, _ => exact read

theorem drop_four_of_codeParts? {payload scope : Bytes} {text : String}
    (parts : codeParts? payload = some (text, scope)) :
    14 ≤ payload.length ∧ payload.drop 4 = textBytes text ++ scope := by
  unfold codeParts? at parts
  split at parts
  · cases parts
  · next long =>
    simp only [Option.bind_eq_bind, Option.bind_eq_some_iff] at parts
    obtain ⟨size, textSized, _, read, taken⟩ := parts
    cases taken
    rw [← eq_textBytes textSized read, List.take_append_drop]
    exact ⟨by omega, rfl⟩

namespace Element

/-- The value is a written form of a well-formed value. -/
def Written (e : Element) : Prop :=
  ∃ value : Value, value.WellFormed ∧ value.tag = e.tag ∧ value.toBytes = e.payload

variable {name : String} {payload rest : Bytes}

theorem written_codeWithScope
    (sized : Tag.codeWithScope.size? (payload ++ rest) = some payload.length)
    (known : (Element.mk .codeWithScope name payload).content?.isSome = true)
    (inside : ∀ doc, (Element.mk .codeWithScope name payload).inner? = some doc →
      ∃ fields, WellFormed fields ∧ documentBytes fields = doc) :
    (Element.mk .codeWithScope name payload).Written := by
  obtain ⟨content, known⟩ := Option.isSome_iff_exists.mp known
  obtain ⟨⟨text, scope⟩, parts, -⟩ := Option.bind_eq_some_iff.mp known
  dsimp only at parts
  obtain ⟨long, split⟩ := drop_four_of_codeParts? parts
  obtain ⟨fields, wellFormed, rfl⟩ := inside scope (by rw [inner?, parts]; rfl)
  simp only [Tag.size?, Option.bind_eq_bind, Option.bind_eq_some_iff] at sized
  obtain ⟨n, length, sized⟩ := sized
  split at sized
  · next nonneg =>
    obtain ⟨slot, -⟩ := take_four_of_length? (length?_of_append (by omega) length) nonneg
    have count := congrArg List.length split
    rw [List.length_drop] at count
    refine ⟨.codeWithScope text fields, wellFormed, rfl, ?_⟩
    rw [← List.take_append_drop 4 payload, slot, Option.some.inj sized, split, Value.toBytes]
    change lengthSlot ((textBytes text ++ documentBytes fields).length + 4) ++ _ = _
    congr 2
    omega
  · cases sized

theorem written_binary (sized : Tag.binary.size? (payload ++ rest) = some payload.length)
    (known : (binaryContent? payload).isSome = true) :
    (Element.mk .binary name payload).Written := by
  simp only [Tag.size?, Option.bind_eq_bind, Option.bind_eq_some_iff] at sized
  obtain ⟨n, length, sized⟩ := sized
  split at sized
  · next nonneg =>
    have whole := Option.some.inj sized
    obtain ⟨slot, -⟩ := take_four_of_length? (length?_of_append (by omega) length) nonneg
    unfold binaryContent? at known
    split at known
    · cases known
    · next subtype data behind =>
      have count := congrArg List.length behind
      rw [List.length_drop, List.length_cons] at count
      refine ⟨.binary subtype data, ?_, rfl, ?_⟩
      · rintro rfl
        rw [if_neg (by decide), if_pos rfl] at known
        split at known
        · next inner read =>
          split at known
          · next repeated =>
            have four := four_le_of_length? read
            obtain ⟨slot, -⟩ := take_four_of_length? read (by omega)
            rw [RepeatsLength, slot]
            congr 1
            omega
          · cases known
        · cases known
      · rw [← List.take_append_drop 4 payload, slot, behind, Value.toBytes]
        congr 2
        omega
  · cases sized

theorem written_dbPointer (sized : Tag.dbPointer.size? (payload ++ rest) = some payload.length)
    (known : (textAfterLength? (payload.take (payload.length - 12))).isSome = true) :
    (Element.mk .dbPointer name payload).Written := by
  obtain ⟨size, sized, whole⟩ := Option.map_eq_some_iff.mp sized
  obtain ⟨text, read⟩ := Option.isSome_iff_exists.mp known
  rw [← whole, Nat.add_sub_cancel] at read
  have front : (payload ++ rest).take size = payload.take size :=
    List.take_append_of_le_length (by omega)
  have written := eq_textBytes sized (by rw [front]; exact read)
  have twelve : (payload.drop size).length = 12 := by
    rw [List.length_drop]
    omega
  obtain ⟨data, behind⟩ := exists_vector twelve
  refine ⟨.dbPointer text data, trivial, rfl, ?_⟩
  rw [Value.toBytes, behind, ← written, front, List.take_append_drop]

theorem written_regex (sized : Tag.regex.size? (payload ++ rest) = some payload.length) :
    (Element.mk .regex name payload).Written := by
  simp only [Tag.size?, Option.bind_eq_bind, Option.bind_eq_some_iff, Prod.exists] at sized
  obtain ⟨pattern, behind, first, options, behind', second, sized⟩ := sized
  have whole := Option.some.inj sized
  refine ⟨.regex pattern options, ⟨noZero_of_cstring? first, noZero_of_cstring? second⟩, rfl, ?_⟩
  have split := cstring?_eq_some first
  rw [cstring?_eq_some second, ← List.append_assoc] at split
  refine (List.append_inj_left split ?_).symm
  rw [← whole]
  simp [cstringBytes]
  omega

/-- **A value that follows the rules of its kind was written**, if the document inside it was. -/
theorem written {e : Element} (whole : e.Whole) (known : e.content?.isSome = true)
    (inside : ∀ doc, e.inner? = some doc →
      ∃ fields, WellFormed fields ∧ documentBytes fields = doc) : e.Written := by
  obtain ⟨tag, name, payload⟩ := e
  obtain ⟨rest, sized⟩ := whole
  dsimp only at sized
  have empty (none : some 0 = some payload.length) : payload = [] :=
    List.eq_nil_of_length_eq_zero (Option.some.inj none).symm
  cases tag with
  | double =>
    have eight : 8 = payload.length := Option.some.inj sized
    exact ⟨.double (Bytes.toUInt64 payload), trivial, rfl, Bytes.ofUInt64_toUInt64 eight.symm⟩
  | string =>
    obtain ⟨text, same⟩ := exists_textBytes sized (Option.isSome_map ▸ known)
    exact ⟨.string text, trivial, rfl, same⟩
  | document =>
    obtain ⟨fields, wellFormed, same⟩ := inside payload rfl
    exact ⟨.document fields, wellFormed, rfl, same⟩
  | array =>
    obtain ⟨fields, wellFormed, same⟩ := inside payload rfl
    exact ⟨.array fields, wellFormed, rfl, same⟩
  | binary => exact written_binary sized known
  | undefined => exact ⟨.undefined, trivial, rfl, (empty sized).symm⟩
  | objectId =>
    obtain ⟨data, rfl⟩ := exists_vector (Option.some.inj sized).symm
    exact ⟨.objectId data, trivial, rfl, rfl⟩
  | boolean =>
    rw [content?] at known
    dsimp only at known
    split at known
    · next no => exact ⟨.boolean false, trivial, rfl, no.symm⟩
    · split at known
      · next yes => exact ⟨.boolean true, trivial, rfl, yes.symm⟩
      · cases known
  | dateTime =>
    have eight : 8 = payload.length := Option.some.inj sized
    exact ⟨.dateTime (Bytes.toInt64 payload), trivial, rfl, Bytes.ofInt64_toInt64 eight.symm⟩
  | null => exact ⟨.null, trivial, rfl, (empty sized).symm⟩
  | regex => exact written_regex sized
  | dbPointer => exact written_dbPointer sized (Option.isSome_map ▸ known)
  | code =>
    obtain ⟨text, same⟩ := exists_textBytes sized (Option.isSome_map ▸ known)
    exact ⟨.code text, trivial, rfl, same⟩
  | symbol =>
    obtain ⟨text, same⟩ := exists_textBytes sized (Option.isSome_map ▸ known)
    exact ⟨.symbol text, trivial, rfl, same⟩
  | codeWithScope => exact written_codeWithScope sized known inside
  | int32 =>
    have four : 4 = payload.length := Option.some.inj sized
    exact ⟨.int32 (Bytes.toInt32 payload), trivial, rfl, Bytes.ofInt32_toInt32 four.symm⟩
  | timestamp =>
    have eight : 8 = payload.length := Option.some.inj sized
    exact ⟨.timestamp (Bytes.toUInt64 payload), trivial, rfl, Bytes.ofUInt64_toUInt64 eight.symm⟩
  | int64 =>
    have eight : 8 = payload.length := Option.some.inj sized
    exact ⟨.int64 (Bytes.toInt64 payload), trivial, rfl, Bytes.ofInt64_toInt64 eight.symm⟩
  | decimal128 =>
    obtain ⟨data, rfl⟩ := exists_vector (Option.some.inj sized).symm
    exact ⟨.decimal128 data, trivial, rfl, rfl⟩
  | minKey => exact ⟨.minKey, trivial, rfl, (empty sized).symm⟩
  | maxKey => exact ⟨.maxKey, trivial, rfl, (empty sized).symm⟩

end Element

/-! ### Documents -/

theorem noZero_of_first? {bs rest : Bytes} {e : Element}
    (cut : Element.first? bs = some (e, rest)) : NoZero e.name := by
  cases bs with
  | nil => cases cut
  | cons byte bs =>
    simp only [Element.first?, Option.bind_eq_bind, Option.bind_eq_some_iff, Prod.exists] at cut
    obtain ⟨name, after, read, tag, -, size, -, payload, rest', -, same⟩ := cut
    cases same
    exact noZero_of_cstring? read

theorem noZero_of_mem_elements {bs : Bytes} {e : Element} (member : e ∈ (elements bs).1) :
    NoZero e.name := by
  fun_induction elements bs with
  | case1 => cases member
  | case2 => cases member
  | case3 => cases member
  | case4 a b bs first rest cut shorter es complete walked ih =>
    rw [walked] at ih
    rcases List.mem_cons.mp member with rfl | later
    · exact noZero_of_first? cut
    · exact ih later

theorem exists_fields_of_written {es : List Element}
    (each : ∀ e ∈ es, NoZero e.name ∧ e.Written) :
    ∃ fields, WellFormed fields ∧ elementBytes fields = es.flatMap Element.bytes := by
  induction es with
  | nil => exact ⟨[], trivial, by rw [elementBytes, List.flatMap_nil]⟩
  | cons e es ih =>
    rw [List.forall_mem_cons] at each
    obtain ⟨⟨clean, value, wellFormed, tag, payload⟩, later⟩ := each
    obtain ⟨fields, rest, same⟩ := ih later
    refine ⟨(e.name, value) :: fields, wellFormed_cons.mpr ⟨clean, wellFormed, rest⟩, ?_⟩
    rw [elementBytes_cons, List.flatMap_cons, Element.bytes, tag, payload, same]

/-- A document was written when it has the right frame and all its elements are sound. -/
theorem exists_fields_of_elements {doc bs : Bytes} (cut : body? doc = some bs)
    (complete : (elements bs).2 = true) (each : ∀ e ∈ (elements bs).1, e.Written) :
    ∃ fields, WellFormed fields ∧ documentBytes fields = doc := by
  obtain ⟨fields, wellFormed, same⟩ := exists_fields_of_written fun e member =>
    ⟨noZero_of_mem_elements member, each e member⟩
  obtain ⟨⟨last, split⟩, -⟩ := elements_eq complete
  have front : bs.dropLast = (elements bs).1.flatMap Element.bytes :=
    (congrArg List.dropLast split).trans List.dropLast_concat
  exact ⟨fields, wellFormed, by rw [(eq_frame_of_body? cut).1, documentBytes, same, front]⟩

theorem exists_fields_of_isSound (doc : Bytes) (sound : isSound doc = true) :
    ∃ fields, WellFormed fields ∧ documentBytes fields = doc := by
  rw [isSound_eq] at sound
  split at sound
  · cases sound
  · next bs cut =>
    rw [Bool.and_eq_true, List.all_eq_true] at sound
    obtain ⟨complete, each⟩ := sound
    refine exists_fields_of_elements cut complete fun e member => ?_
    have sound := each e member
    rw [Element.isSound, Bool.and_eq_true] at sound
    obtain ⟨known, inside⟩ := sound
    refine Element.written ((elements_eq complete).2 e member) known fun doc' inner => ?_
    rw [inner] at inside
    have := Element.length_of_inner? inner
    have := payload_lt_of_mem_elements member
    have := length_of_body? cut
    exact exists_fields_of_isSound doc' inside
termination_by doc.length
decreasing_by omega

/-- **A document is sound exactly when it is the written form of well-formed fields.** -/
theorem isSound_iff (doc : Bytes) :
    isSound doc = true ↔
      ∃ fields, WellFormed fields ∧ documentBytes fields = doc ∧ doc.length ≤ maxLength := by
  constructor
  · intro sound
    obtain ⟨fields, wellFormed, same⟩ := exists_fields_of_isSound doc sound
    refine ⟨fields, wellFormed, same, ?_⟩
    rw [isSound_eq] at sound
    split at sound
    · cases sound
    · next bs cut => exact (eq_frame_of_body? cut).2.2
  · rintro ⟨fields, wellFormed, rfl, fits⟩
    exact isSound_documentBytes fields wellFormed fits

/-! ### Documents that are read -/

theorem Element.isSound_of_content? {e : Element} {content : Content}
    (known : e.content? = some content) (noArray : content ≠ .sequence)
    (noDocument : content ≠ .mapping) : e.isSound = true := by
  have closed : e.inner? = none := by
    obtain ⟨tag, name, payload⟩ := e
    cases tag with
    | document => exact absurd (Option.some.inj known).symm noDocument
    | array => exact absurd (Option.some.inj known).symm noArray
    | codeWithScope =>
      obtain ⟨parts, -, known⟩ := Option.bind_eq_some_iff.mp known
      obtain ⟨body, -, known⟩ := Option.bind_eq_some_iff.mp known
      exact absurd (Option.some.inj known).symm noDocument
    | _ => rfl
  rw [isSound, known, closed]
  rfl

theorem isSound_of_readDocument {σ : Type} {step : σ → Element → Except DecodeFault σ}
    (sound : ∀ before e after, step before e = .ok after → e.isSound = true) {start draft : σ}
    {doc : Bytes} (h : readDocument step start doc = .ok draft) : isSound doc = true := by
  have each (es : List Element) (start : σ) (walked : es.foldlM step start = .ok draft) :
      es.all Element.isSound = true := by
    induction es generalizing start with
    | nil => rfl
    | cons e es ih =>
      obtain ⟨next, stepped, later⟩ := bind_eq_ok_iff.mp walked
      rw [List.all_cons, sound start e next stepped, ih next later]
      rfl
  unfold readDocument at h
  split at h
  · cases h
  · next bs cut =>
    obtain ⟨last, walked, h⟩ := bind_eq_ok_iff.mp h
    split at h
    · next complete =>
      cases h
      rw [isSound_eq, cut]
      dsimp only
      rw [complete, each _ _ walked]
      rfl
    · cases h

namespace Slot
variable {σ : Type}

/-- No document is read into a slot. -/
structure Closed (slot : Slot σ) : Prop where
  noArray : ∀ kept, slot.read .sequence ≠ .ok kept
  noDocument : ∀ kept, slot.read .mapping ≠ .ok kept

theorem Closed.isSound {slot : Slot σ} (closed : slot.Closed) {e : Element}
    {field field' : Option slot.Kind} (taken : e.readOnce field slot.read = .ok field') :
    e.isSound = true := by
  cases field with
  | some value => cases taken
  | none =>
    obtain ⟨content, known, rest⟩ := bind_eq_ok_iff.mp taken
    obtain ⟨kept, read, -⟩ := bind_eq_ok_iff.mp rest
    unfold Element.content at known
    split at known
    · next found =>
      cases known
      refine Element.isSound_of_content? found ?_ ?_
      · rintro rfl
        exact closed.noArray kept read
      · rintro rfl
        exact closed.noDocument kept read
    · cases known

end Slot

namespace Format
variable {σ : Type} (format : Format σ)

theorem isSound_of_stepOf {slots : List (Slot σ)} (closed : ∀ slot ∈ slots, slot.Closed)
    {before after : σ} {e : Element} (stepped : stepOf slots before e = .ok after) :
    e.isSound = true := by
  induction slots with
  | nil =>
    obtain ⟨done, skipped, -⟩ := bind_eq_ok_iff.mp stepped
    unfold Element.skip at skipped
    split at skipped
    · next sound => exact sound
    · cases skipped
  | cons slot slots ih =>
    rw [List.forall_mem_cons] at closed
    rw [stepOf] at stepped
    split at stepped
    · obtain ⟨field, taken, -⟩ := bind_eq_ok_iff.mp stepped
      exact closed.1.isSound taken
    · exact ih closed.2 stepped

/-- **What a format reads was written.** -/
theorem exists_fields_of_readDocument (closed : ∀ slot ∈ format.slots, slot.Closed) {doc : Bytes}
    {draft : σ} (read : readDocument format.step format.start doc = .ok draft) :
    ∃ fields, WellFormed fields ∧ documentBytes fields = doc ∧ doc.length ≤ maxLength :=
  (isSound_iff doc).mp
    (isSound_of_readDocument (fun _ _ _ stepped => isSound_of_stepOf closed stepped) read)

end Format

end DumpCatalog.Bson
