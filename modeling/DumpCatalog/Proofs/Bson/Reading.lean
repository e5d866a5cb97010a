import DumpCatalog.Bson.Field

/-! # Documents: what is written is taken apart again

A length is written as a signed word, so it can be read as long as it is at most `maxLength`. Within
that bound every value is as long as its own length fields say (`Value.size?_toBytes`), and the walk
over written elements finds them one by one (`elements_elementBytes`). So reading a written document
is taking its elements in turn (`readDocument_documentBytes`). -/

namespace DumpCatalog.Bson

/-! ### Lengths -/

/-- The greatest length that can be written. -/
def maxLength : Nat := 0x7FFFFFFF

theorem lengthSlot_eq {n : Nat} (h : n ≤ maxLength) :
    lengthSlot n = Bytes.ofInt32 (Int32.ofNat n) := by
  have small : n < 2 ^ 31 := by unfold maxLength at h; omega
  have word : (Int32.ofNat n).toUInt32.toNat = n := by
    rw [Int32.toNat_toUInt32_of_le, Int32.toNatClampNeg_ofNat_of_lt small]
    rw [Int32.le_iff_toInt_le, Int32.toInt_ofNat_of_lt small]
    exact Int.natCast_nonneg n
  rw [lengthSlot, Bytes.ofInt32, Bytes.ofUInt32, word]

theorem toInt32_lengthSlot {n : Nat} (h : n ≤ maxLength) :
    Bytes.toInt32 (lengthSlot n) = Int32.ofNat n := by
  rw [lengthSlot_eq h, Bytes.toInt32_ofInt32]

theorem toInt_toInt32_lengthSlot {n : Nat} (h : n ≤ maxLength) :
    (Bytes.toInt32 (lengthSlot n)).toInt = n := by
  rw [toInt32_lengthSlot h]
  exact Int32.toInt_ofNat_of_lt (by unfold maxLength at h; omega)

theorem length?_append {slot : Bytes} (four : slot.length = 4) (rest : Bytes) :
    length? (slot ++ rest) = some (Bytes.toInt32 slot).toInt := by
  match slot, four with
  | [_, _, _, _], _ => rfl

theorem length?_lengthSlot {n : Nat} (h : n ≤ maxLength) (rest : Bytes) :
    length? (lengthSlot n ++ rest) = some (n : Int) := by
  rw [length?_append (length_lengthSlot n), toInt_toInt32_lengthSlot h]

/-! ### Texts -/

theorem length_textBytes (text : String) :
    (textBytes text).length = (Text.toBytes text).length + 5 := by
  simp [textBytes]; omega

theorem getElem?_behind {front : Bytes} {n : Nat} (h : front.length = n) (rest : Bytes)
    (b : UInt8) :
    (front ++ b :: rest)[n]? = some b := by
  subst h
  simp

theorem textSize?_textBytes {text : String} (h : (textBytes text).length ≤ maxLength)
    (rest : Bytes) : textSize? (textBytes text ++ rest) = some (textBytes text).length := by
  rw [length_textBytes] at h ⊢
  have last : (textBytes text ++ rest)[(Text.toBytes text).length + 4]? = some 0 := by
    rw [textBytes, List.append_assoc]
    exact getElem?_behind (by rw [List.length_append, length_lengthSlot]; omega) rest 0
  have slot : length? (textBytes text ++ rest) =
      some (((Text.toBytes text).length + 1 : Nat) : Int) := by
    rw [textBytes, List.append_assoc, List.append_assoc]
    exact length?_lengthSlot (by omega) _
  simp only [textSize?, slot, Option.bind_eq_bind, Option.bind_some, Int.toNat_natCast]
  rw [if_pos ⟨by omega, by rw [← last]; congr 1; omega⟩]
  congr 1
  omega

theorem textAfterLength?_textBytes (text : String) :
    textAfterLength? (textBytes text) = some text := by
  have front : (textBytes text).drop 4 = Text.toBytes text ++ [0] := by
    rw [textBytes, List.append_assoc]
    exact List.drop_left' (length_lengthSlot _)
  rw [textAfterLength?, front, List.dropLast_concat, Text.ofBytes?_toBytes]

/-! ### Values -/

/-- A text that can end at the first zero byte. -/
def NoZero (text : String) : Prop := ∀ b ∈ Text.toBytes text, b ≠ 0

instance (text : String) : Decidable (NoZero text) :=
  inferInstanceAs (Decidable (∀ b ∈ Text.toBytes text, b ≠ 0))

/-- The texts of a value that end at the first zero byte hold none. -/
def Value.Clean : Value → Prop
  | .regex pattern options => NoZero pattern ∧ NoZero options
  | _ => True

theorem documentSize?_frame {elements : Bytes} (h : (frame elements).length ≤ maxLength)
    (rest : Bytes) : documentSize? (frame elements ++ rest) = some (frame elements).length := by
  rw [length_frame] at h ⊢
  have last : (frame elements ++ rest)[elements.length + 4]? = some 0 := by
    rw [frame, List.append_assoc]
    exact getElem?_behind (by rw [List.length_append, length_lengthSlot]; omega) rest 0
  have slot : length? (frame elements ++ rest) = some ((elements.length + 5 : Nat) : Int) := by
    rw [frame, List.append_assoc, List.append_assoc]
    exact length?_lengthSlot h _
  simp only [documentSize?, slot, Option.bind_eq_bind, Option.bind_some, Int.toNat_natCast]
  rw [if_pos ⟨by omega, by rw [← last]; congr 1⟩]

/-- **A written value is as long as its kind and its own lengths say**, whatever follows it. -/
theorem Value.size?_toBytes (value : Value) (fits : value.toBytes.length ≤ maxLength)
    (clean : value.Clean) (rest : Bytes) :
    value.tag.size? (value.toBytes ++ rest) = some value.toBytes.length := by
  cases value with
  | double bits => simp [tag, Tag.size?, toBytes, Bytes.ofUInt64]
  | string text => exact textSize?_textBytes fits rest
  | document fields => exact documentSize?_frame fits rest
  | array fields => exact documentSize?_frame fits rest
  | binary subtype data =>
    have length : (Value.binary subtype data).toBytes.length = data.length + 5 := by
      simp [toBytes]; omega
    have slot : length? ((Value.binary subtype data).toBytes ++ rest) =
        some (data.length : Int) := by
      rw [toBytes, List.append_assoc]
      exact length?_lengthSlot (by omega) _
    simp only [tag, Tag.size?, slot, length, Option.bind_eq_bind, Option.bind_some,
      Int.natCast_nonneg, if_true, Int.toNat_natCast]
    rw [Nat.add_comm]
  | undefined => rfl
  | objectId data => simp [tag, Tag.size?, toBytes]
  | boolean value => rfl
  | dateTime milliseconds => simp [tag, Tag.size?, toBytes]
  | null => rfl
  | regex pattern options =>
    simp only [tag, Tag.size?, toBytes, List.append_assoc, cstring?_cstringBytes _ clean.1,
      cstring?_cstringBytes _ clean.2, Option.bind_eq_bind, Option.bind_some]
    simp [cstringBytes]
    omega
  | dbPointer collection data =>
    have length : (Value.dbPointer collection data).toBytes.length =
        (textBytes collection).length + 12 := by simp [toBytes]
    rw [length, tag, Tag.size?, toBytes, List.append_assoc, textSize?_textBytes (by omega)]
    rfl
  | code text => exact textSize?_textBytes fits rest
  | symbol text => exact textSize?_textBytes fits rest
  | codeWithScope text scope =>
    have length : (Value.codeWithScope text scope).toBytes.length =
        (textBytes text ++ frame (elementBytes scope)).length + 4 := by
      simp [toBytes]; omega
    have slot : length? ((Value.codeWithScope text scope).toBytes ++ rest) =
        some ((Value.codeWithScope text scope).toBytes.length : Int) := by
      rw [length, toBytes, List.append_assoc]
      exact length?_lengthSlot (by omega) _
    simp only [tag, Tag.size?, slot, Option.bind_eq_bind, Option.bind_some, Int.natCast_nonneg,
      if_true, Int.toNat_natCast]
  | int32 value => simp [tag, Tag.size?, toBytes]
  | timestamp value => simp [tag, Tag.size?, toBytes, Bytes.ofUInt64]
  | int64 value => simp [tag, Tag.size?, toBytes]
  | decimal128 data => simp [tag, Tag.size?, toBytes]
  | minKey => rfl
  | maxKey => rfl

/-! ### Elements -/

/-- A named value as the walk finds it. -/
def Element.ofField (field : String × Value) : Element := ⟨field.2.tag, field.1, field.2.toBytes⟩

@[simp] theorem name_ofField (field : String × Value) :
    (Element.ofField field).name = field.1 := rfl

/-- A named value that reads back: the name can end at the first zero byte, and so can the texts of
the value that do. -/
def CleanField (field : String × Value) : Prop := NoZero field.1 ∧ field.2.Clean

theorem elementBytes_cons (field : String × Value) (fields : List (String × Value)) :
    elementBytes (field :: fields) =
      field.2.tag.toByte :: cstringBytes field.1 ++ field.2.toBytes ++ elementBytes fields := by
  rw [elementBytes]

theorem length_elementBytes_nil : (elementBytes []).length = 0 := by
  rw [elementBytes]
  rfl

theorem length_elementBytes_cons (field : String × Value) (fields : List (String × Value)) :
    (elementBytes (field :: fields)).length =
      (Text.toBytes field.1).length + field.2.toBytes.length +
        (elementBytes fields).length + 2 := by
  simp [elementBytes_cons, cstringBytes]
  omega

theorem first?_elementBytes {field : String × Value} (fields : List (String × Value))
    (fits : field.2.toBytes.length ≤ maxLength) (clean : CleanField field) (rest : Bytes) :
    Element.first? (elementBytes (field :: fields) ++ rest) =
      some (Element.ofField field, elementBytes fields ++ rest) := by
  have cut : takeExact? field.2.toBytes.length (field.2.toBytes ++ (elementBytes fields ++ rest)) =
      some (field.2.toBytes, elementBytes fields ++ rest) := takeExact?_eq_some_iff.mpr ⟨rfl, rfl⟩
  rw [elementBytes_cons]
  simp only [List.cons_append, List.append_assoc, Element.first?, cstring?_cstringBytes _ clean.1,
    Tag.ofByte?_toByte, Value.size?_toBytes _ fits clean.2, cut, Option.bind_eq_bind,
    Option.bind_some]
  rfl

theorem elements_of_first? {bs rest : Bytes} {e : Element}
    (h : Element.first? bs = some (e, rest)) :
    elements bs = (e :: (elements rest).1, (elements rest).2) := by
  have length := Element.length_of_first? h
  match bs, length with
  | a :: b :: bs, _ =>
    rw [elements]
    split
    · next none => rw [none] at h; simp at h
    · next found => rw [found] at h; cases h; rfl

/-- **The walk over written elements finds them one by one.** -/
theorem elements_elementBytes {fields : List (String × Value)}
    (fits : (elementBytes fields).length ≤ maxLength) (clean : ∀ field ∈ fields, CleanField field) :
    elements (elementBytes fields ++ [0]) = (fields.map Element.ofField, true) := by
  induction fields with
  | nil => rw [elementBytes, List.nil_append, elements]; rfl
  | cons field fields ih =>
    rw [length_elementBytes_cons] at fits
    have first := first?_elementBytes fields (by omega)
      (clean field (List.mem_cons_self ..)) [0]
    rw [elements_of_first? first,
      ih (by omega) fun field member => clean field (List.mem_cons_of_mem _ member)]
    rfl

/-! ### Documents -/

theorem length_documentBytes (fields : List (String × Value)) :
    (documentBytes fields).length = (elementBytes fields).length + 5 := length_frame _

theorem body?_frame {elements : Bytes} (h : (frame elements).length ≤ maxLength) :
    body? (frame elements) = some (elements ++ [0]) := by
  have slot : length? (frame elements) = some ((elements.length + 5 : Nat) : Int) := by
    rw [length_frame] at h
    rw [frame, List.append_assoc]
    exact length?_lengthSlot h _
  have back : (frame elements).drop 4 = elements ++ [0] := by
    rw [frame, List.append_assoc]
    exact List.drop_left' (length_lengthSlot _)
  have last : (frame elements).getLast? = some 0 := by
    rw [frame]
    exact List.getLast?_concat
  simp only [body?, slot, back, last, length_frame, Option.bind_eq_bind, Option.bind_some]
  rw [if_pos ⟨by omega, trivial, trivial⟩]

/-- **Reading a written document is taking its elements in turn.** -/
theorem readDocument_documentBytes {σ : Type} (step : σ → Element → Except DecodeFault σ)
    (start : σ)
    {fields : List (String × Value)} (fits : (documentBytes fields).length ≤ maxLength)
    (clean : ∀ field ∈ fields, CleanField field) :
    readDocument step start (documentBytes fields) =
      (fields.map Element.ofField).foldlM step start := by
  have walk := elements_elementBytes (by rw [length_documentBytes] at fits; omega) clean
  rw [readDocument, documentBytes, body?_frame fits]
  simp only [walk, if_true]
  exact bind_pure _

theorem foldlM_cons_ok {α σ ε : Type} {step : σ → α → Except ε σ} {draft next : σ} {a : α}
    (h : step draft a = .ok next) (later : List α) :
    (a :: later).foldlM step draft = later.foldlM step next := by
  rw [List.foldlM_cons, h]
  rfl

/-! ### Contents of written values -/

theorem content?_string (name text : String) :
    (Element.ofField (name, .string text)).content? = some (.text text) := by
  have read : textAfterLength? (Element.ofField (name, .string text)).payload = some text :=
    textAfterLength?_textBytes text
  rw [Element.content?]
  simp only [Element.ofField, Value.tag] at read ⊢
  rw [read]
  rfl

theorem content?_int32 (name : String) (n : Int32) :
    (Element.ofField (name, .int32 n)).content? = some (.integer n.toInt) := by
  simp [Element.content?, Element.ofField, Value.tag, Value.toBytes]

theorem content?_int64 (name : String) (n : Int64) :
    (Element.ofField (name, .int64 n)).content? = some (.integer n.toInt) := by
  simp [Element.content?, Element.ofField, Value.tag, Value.toBytes]

theorem toInt32_integer (n : Int32) : (Content.integer n.toInt).toInt32 = .ok n := by
  rw [Content.toInt32, if_pos ⟨Int32.minValue_le_toInt n, Int32.toInt_le n⟩, Int32.ofInt_toInt]

theorem toInt64_integer (n : Int64) : (Content.integer n.toInt).toInt64 = .ok n := by
  rw [Content.toInt64, if_pos ⟨Int64.minValue_le_toInt n, Int64.toInt_le n⟩, Int64.ofInt_toInt]

theorem readOnce_none {α : Type} {e : Element} {content : Content} {value : α}
    (h : e.content? = some content) (read : Content → Except DecodeFault α)
    (taken : read content = .ok value) : e.readOnce none read = .ok (some value) := by
  simp only [Element.readOnce, Element.content, h]
  exact congrArg (Except.map some) taken

end DumpCatalog.Bson
