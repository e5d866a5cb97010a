import DumpCatalog.Proofs.Bson.Reading

/-! # Documents: well-formed values are sound

`Value.WellFormed` says of a value what its written form has to keep to, down to the innermost
value: names and patterns end at the first zero byte, and a binary value of the old subtype repeats
its length. A reader takes the written form of a well-formed value for `Value.content`
(`content?_ofField`), and finds nothing wrong with it at any depth (`isSound_documentBytes`,
`isSound_ofField`). -/

namespace DumpCatalog.Bson

/-! ### Well-formed values -/

/-- Data behind a length of four bytes, which says how much it is. -/
def RepeatsLength (data : Bytes) : Prop := data.take 4 = lengthSlot (data.length - 4)

instance (data : Bytes) : Decidable (RepeatsLength data) :=
  inferInstanceAs (Decidable (_ = _))

mutual

/-- A value whose written form keeps the rules of its kind, and so do all values inside. -/
def Value.WellFormed : Value → Prop
  | .document fields => WellFormed fields
  | .array fields => WellFormed fields
  | .codeWithScope _ scope => WellFormed scope
  | .regex pattern options => NoZero pattern ∧ NoZero options
  | .binary subtype data => subtype = 2 → RepeatsLength data
  | _ => True

/-- Named values that keep the rules: the names, and the values. -/
def WellFormed : List (String × Value) → Prop
  | [] => True
  | (name, value) :: fields => NoZero name ∧ value.WellFormed ∧ WellFormed fields

end

mutual

/-- Whether a value is well-formed can be computed. -/
def Value.decidableWellFormed : (value : Value) → Decidable value.WellFormed
  | .document fields => decidableWellFormed fields
  | .array fields => decidableWellFormed fields
  | .codeWithScope _ scope => decidableWellFormed scope
  | .regex pattern options => inferInstanceAs (Decidable (NoZero pattern ∧ NoZero options))
  | .binary subtype data => inferInstanceAs (Decidable (subtype = 2 → RepeatsLength data))
  | .double _ | .string _ | .undefined | .objectId _ | .boolean _ | .dateTime _ | .null
  | .dbPointer .. | .code _ | .symbol _ | .int32 _ | .timestamp _ | .int64 _ | .decimal128 _
  | .minKey | .maxKey => .isTrue trivial

/-- Whether named values are well-formed can be computed. -/
def decidableWellFormed : (fields : List (String × Value)) → Decidable (WellFormed fields)
  | [] => .isTrue trivial
  | (name, value) :: fields =>
    have := value.decidableWellFormed
    have := decidableWellFormed fields
    inferInstanceAs (Decidable (NoZero name ∧ value.WellFormed ∧ WellFormed fields))

end

instance (fields : List (String × Value)) : Decidable (WellFormed fields) :=
  decidableWellFormed fields

theorem wellFormed_cons {field : String × Value} {fields : List (String × Value)} :
    WellFormed (field :: fields) ↔
      NoZero field.1 ∧ field.2.WellFormed ∧ WellFormed fields := by
  rw [WellFormed]

theorem wellFormed_iff {fields : List (String × Value)} :
    WellFormed fields ↔ ∀ field ∈ fields, NoZero field.1 ∧ field.2.WellFormed := by
  induction fields with
  | nil => simp [WellFormed]
  | cons field fields ih => rw [wellFormed_cons, ih, List.forall_mem_cons, and_assoc]

theorem wellFormed_append {front back : List (String × Value)} :
    WellFormed (front ++ back) ↔ WellFormed front ∧ WellFormed back := by
  rw [wellFormed_iff, wellFormed_iff, wellFormed_iff, List.forall_mem_append]

theorem Value.WellFormed.clean {value : Value} (h : value.WellFormed) : value.Clean := by
  cases value with
  | regex pattern options => exact h
  | _ => exact trivial

theorem WellFormed.clean {fields : List (String × Value)} (h : WellFormed fields) :
    ∀ field ∈ fields, CleanField field := fun field member =>
  ⟨(wellFormed_iff.mp h field member).1, (wellFormed_iff.mp h field member).2.clean⟩

/-! ### What a written value is to a reader -/

/-- What a value is to the reader of a field. -/
def Value.content : Value → Content
  | .double bits => .floating bits
  | .string text => .text text
  | .array _ => .sequence
  | .binary subtype data => if subtype = 0 then .bytes data else .mapping
  | .boolean value => .boolean value
  | .null => .unit
  | .int32 value => .integer value.toInt
  | .int64 value => .integer value.toInt
  | _ => .mapping

/-- The document inside a value. -/
def Value.inner? : Value → Option (List (String × Value))
  | .document fields => some fields
  | .array fields => some fields
  | .codeWithScope _ scope => some scope
  | _ => none

theorem drop_four_lengthSlot (n : Nat) (rest : Bytes) : (lengthSlot n ++ rest).drop 4 = rest :=
  List.drop_left' (length_lengthSlot n)

theorem length?_of_repeatsLength {data : Bytes} (h : RepeatsLength data)
    (fits : data.length ≤ maxLength) :
    ∃ n, length? data = some n ∧ n + 4 = data.length := by
  have four : 4 ≤ data.length := by
    have := congrArg List.length h
    rw [List.length_take, length_lengthSlot] at this
    omega
  refine ⟨(data.length - 4 : Nat), ?_, by omega⟩
  rw [← List.take_append_drop 4 data, h, List.length_append, length_lengthSlot, List.length_drop,
    Nat.add_sub_cancel' four]
  exact length?_lengthSlot (by omega) _

theorem binaryContent?_toBytes {subtype : UInt8} {data : Bytes}
    (wellFormed : (Value.binary subtype data).WellFormed)
    (fits : (Value.binary subtype data).toBytes.length ≤ maxLength) :
    binaryContent? (Value.binary subtype data).toBytes =
      some (Value.binary subtype data).content := by
  rw [Value.toBytes] at fits ⊢
  simp only [List.length_append, length_lengthSlot, List.length_cons] at fits
  simp only [binaryContent?, drop_four_lengthSlot, Value.content]
  by_cases general : subtype = 0
  · rw [if_pos general, if_pos general]
  · by_cases old : subtype = 2
    · obtain ⟨n, read, whole⟩ := length?_of_repeatsLength (wellFormed old) (by omega)
      simp only [if_neg general, if_pos old, read, if_pos whole]
    · rw [if_neg general, if_neg general, if_neg old]

theorem length_codeWithScope (text : String) (scope : List (String × Value)) :
    (Value.codeWithScope text scope).toBytes.length =
      (textBytes text).length + (documentBytes scope).length + 4 := by
  simp [Value.toBytes, documentBytes]
  omega

theorem length_scope_le {text : String} {scope : List (String × Value)}
    (fits : (Value.codeWithScope text scope).toBytes.length ≤ maxLength) :
    (documentBytes scope).length ≤ maxLength := by
  rw [length_codeWithScope] at fits
  omega

theorem codeParts?_toBytes {text : String} {scope : List (String × Value)}
    (fits : (Value.codeWithScope text scope).toBytes.length ≤ maxLength) :
    codeParts? (Value.codeWithScope text scope).toBytes = some (text, documentBytes scope) := by
  have length := length_codeWithScope text scope
  have enough : ¬ (Value.codeWithScope text scope).toBytes.length < 14 := by
    rw [length, length_textBytes, length_documentBytes]
    omega
  have parts : (Value.codeWithScope text scope).toBytes.drop 4 =
      textBytes text ++ documentBytes scope := by
    rw [Value.toBytes]
    exact drop_four_lengthSlot _ _
  rw [codeParts?, if_neg enough]
  simp only [parts, textSize?_textBytes (by omega : (textBytes text).length ≤ maxLength),
    Option.bind_eq_bind, Option.bind_some, List.take_left, List.drop_left,
    textAfterLength?_textBytes]
  rfl

/-- **A well-formed value is to a reader what it is.** -/
theorem content?_ofField {name : String} {value : Value} (wellFormed : value.WellFormed)
    (fits : value.toBytes.length ≤ maxLength) :
    (Element.ofField (name, value)).content? = some value.content := by
  cases value with
  | double bits =>
    simp only [Element.content?, Element.ofField, Value.tag, Value.toBytes, Value.content,
      Bytes.toUInt64_ofUInt64]
  | string text => exact content?_string name text
  | document fields => rfl
  | array fields => rfl
  | binary subtype data => exact binaryContent?_toBytes wellFormed fits
  | undefined => rfl
  | objectId data => rfl
  | boolean value => cases value <;> rfl
  | dateTime milliseconds => rfl
  | null => rfl
  | regex pattern options => rfl
  | dbPointer collection data =>
    have front : (Value.dbPointer collection data).toBytes.take
        ((Value.dbPointer collection data).toBytes.length - 12) = textBytes collection := by
      simp [Value.toBytes]
    simp only [Element.content?, Element.ofField, Value.tag, front, textAfterLength?_textBytes]
    rfl
  | code text =>
    simp only [Element.content?, Element.ofField, Value.tag, Value.toBytes,
      textAfterLength?_textBytes]
    rfl
  | symbol text =>
    simp only [Element.content?, Element.ofField, Value.tag, Value.toBytes,
      textAfterLength?_textBytes]
    rfl
  | codeWithScope text scope =>
    have inside := length_scope_le fits
    simp only [Element.content?, Element.ofField, Value.tag, codeParts?_toBytes fits,
      Option.bind_eq_bind, Option.bind_some]
    rw [documentBytes] at inside ⊢
    rw [body?_frame inside]
    rfl
  | int32 value => exact content?_int32 name value
  | timestamp value => rfl
  | int64 value => exact content?_int64 name value
  | decimal128 data => rfl
  | minKey => rfl
  | maxKey => rfl

/-- The document inside a written value is the written form of the document inside the value. -/
theorem inner?_ofField {name : String} {value : Value} (fits : value.toBytes.length ≤ maxLength) :
    (Element.ofField (name, value)).inner? = value.inner?.map documentBytes := by
  cases value with
  | document fields =>
    simp only [Element.inner?, Element.ofField, Value.tag, Value.toBytes]
    rfl
  | array fields =>
    simp only [Element.inner?, Element.ofField, Value.tag, Value.toBytes]
    rfl
  | codeWithScope text scope =>
    simp only [Element.inner?, Element.ofField, Value.tag, codeParts?_toBytes fits]
    rfl
  | _ => rfl

/-! ### Soundness -/

theorem isSound_ofField_eq {name : String} {value : Value} (wellFormed : value.WellFormed)
    (fits : value.toBytes.length ≤ maxLength) :
    (Element.ofField (name, value)).isSound =
      match value.inner? with
      | none => true
      | some fields => isSound (documentBytes fields) := by
  rw [Element.isSound, content?_ofField wellFormed fits, inner?_ofField fits]
  cases value.inner? with
  | none => rfl
  | some fields => rfl

theorem isSound_of_elements {fields : List (String × Value)}
    (fits : (documentBytes fields).length ≤ maxLength) (wellFormed : WellFormed fields)
    (sound : ∀ field ∈ fields, (Element.ofField field).isSound = true) :
    isSound (documentBytes fields) = true := by
  have walk := elements_elementBytes (by rw [length_documentBytes] at fits; omega)
    wellFormed.clean
  rw [isSound_eq, documentBytes, body?_frame fits]
  simp only [walk, Bool.true_and, List.all_map]
  exact List.all_eq_true.mpr sound

theorem length_elementBytes_append (front back : List (String × Value)) :
    (elementBytes (front ++ back)).length =
      (elementBytes front).length + (elementBytes back).length := by
  induction front with
  | nil => rw [length_elementBytes_nil, List.nil_append, Nat.zero_add]
  | cons field front ih =>
    rw [List.cons_append, length_elementBytes_cons, length_elementBytes_cons, ih]
    omega

mutual

/-- **The written form of a well-formed value is sound**, whatever name it has. -/
theorem isSound_ofField (name : String) (value : Value) (wellFormed : value.WellFormed)
    (fits : value.toBytes.length ≤ maxLength) :
    (Element.ofField (name, value)).isSound = true := by
  rw [isSound_ofField_eq wellFormed fits]
  cases value with
  | document fields => exact isSound_documentBytes fields wellFormed fits
  | array fields => exact isSound_documentBytes fields wellFormed fits
  | codeWithScope text scope =>
    exact isSound_documentBytes scope wellFormed (length_scope_le fits)
  | _ => rfl

theorem isSound_of_mem (fields : List (String × Value)) (wellFormed : WellFormed fields)
    (fits : (elementBytes fields).length ≤ maxLength) :
    ∀ field ∈ fields, (Element.ofField field).isSound = true := by
  match fields with
  | [] => simp
  | (name, value) :: fields =>
    have length := length_elementBytes_cons (name, value) fields
    obtain ⟨-, head, rest⟩ := wellFormed_cons.mp wellFormed
    refine List.forall_mem_cons.mpr ⟨?_, ?_⟩
    · exact isSound_ofField name value head (by simp only at length; omega)
    · exact isSound_of_mem fields rest (by omega)

/-- **The written form of well-formed fields is a sound document.** -/
theorem isSound_documentBytes (fields : List (String × Value)) (wellFormed : WellFormed fields)
    (fits : (documentBytes fields).length ≤ maxLength) :
    isSound (documentBytes fields) = true :=
  isSound_of_elements fits wellFormed
    (isSound_of_mem fields wellFormed (by rw [length_documentBytes] at fits; omega))

end

end DumpCatalog.Bson
