import DumpCatalog.Bson.Element

/-! # What an element holds

The second step of taking a document apart looks into one value. `Element.content?` tells apart
what a reader of a field has to tell apart and refuses a value that breaks the rules of its kind; a
document inside the value is left alone. `isSound` also looks into the documents inside, down to
the innermost. -/

namespace DumpCatalog.Bson

/-- What a value is to the reader of a field. Every kind of value that no field takes, a document
among them, is a mapping. -/
inductive Content where
  | text (text : String)
  | bytes (data : Bytes)
  | integer (value : Int)
  | floating (bits : UInt64)
  | boolean (value : Bool)
  | unit
  | sequence
  | mapping
  deriving DecidableEq, Repr

/-- The text behind its length and before its closing zero. -/
def textAfterLength? (bs : Bytes) : Option String := Text.ofBytes? (bs.drop 4).dropLast

/-- The content of a binary value: one of the general subtype is bytes, and one of the old subtype
has to repeat its length. -/
def binaryContent? (payload : Bytes) : Option Content :=
  match payload.drop 4 with
  | [] => none
  | subtype :: data =>
    if subtype = 0 then some (.bytes data)
    else if subtype = 2 then
      match length? data with
      | some n => if n + 4 = data.length then some .mapping else none
      | none => none
    else some .mapping

/-- The text and the scope of code with scope, each whole. -/
def codeParts? (payload : Bytes) : Option (String × Bytes) := do
  if payload.length < 14 then none
  let parts := payload.drop 4
  let size ← textSize? parts
  let text ← textAfterLength? (parts.take size)
  return (text, parts.drop size)

/-- What the value of an element is. -/
def Element.content? (e : Element) : Option Content :=
  match e.tag with
  | .double => some (.floating (Bytes.toUInt64 e.payload))
  | .string => (textAfterLength? e.payload).map .text
  | .document => some .mapping
  | .array => some .sequence
  | .binary => binaryContent? e.payload
  | .boolean =>
    if e.payload = [0] then some (.boolean false)
    else if e.payload = [1] then some (.boolean true)
    else none
  | .null => some .unit
  | .int32 => some (.integer (Bytes.toInt32 e.payload).toInt)
  | .int64 => some (.integer (Bytes.toInt64 e.payload).toInt)
  | .code | .symbol => (textAfterLength? e.payload).map fun _ => .mapping
  | .dbPointer =>
    (textAfterLength? (e.payload.take (e.payload.length - 12))).map fun _ => .mapping
  | .codeWithScope => do
    let (_, scope) ← codeParts? e.payload
    let _ ← body? scope
    return .mapping
  | .undefined | .objectId | .dateTime | .regex | .timestamp | .decimal128 | .minKey | .maxKey =>
    some .mapping

/-- The document inside the value of an element, if its kind has one. -/
def Element.inner? (e : Element) : Option Bytes :=
  match e.tag with
  | .document | .array => some e.payload
  | .codeWithScope => (codeParts? e.payload).map (·.2)
  | _ => none

theorem Element.length_of_inner? {e : Element} {doc : Bytes} (h : e.inner? = some doc) :
    doc.length ≤ e.payload.length := by
  unfold inner? at h
  split at h
  · cases h; exact Nat.le_refl _
  · cases h; exact Nat.le_refl _
  · simp only [codeParts?, Option.map_eq_some_iff, Option.bind_eq_bind, Prod.exists] at h
    obtain ⟨text, scope, h, rfl⟩ := h
    split at h
    · cases h
    · simp only [Option.bind_eq_some_iff, pure, Option.some.injEq,
        Prod.mk.injEq] at h
      obtain ⟨_, _, size, _, _, _, _, rfl⟩ := h
      simp only [List.length_drop]
      omega
  · cases h

/-- Whether a document and all documents inside it follow the rules. -/
def isSound (doc : Bytes) : Bool :=
  match h : body? doc with
  | none => false
  | some bs =>
    (elements bs).2 && (elements bs).1.attach.all fun ⟨e, member⟩ =>
      e.content?.isSome &&
        match inner : e.inner? with
        | none => true
        | some doc' =>
          have := Element.length_of_inner? inner
          have := payload_lt_of_mem_elements member
          have := length_of_body? h
          isSound doc'
termination_by doc.length
decreasing_by omega

/-- Whether an element follows the rules, and all documents inside its value do. -/
def Element.isSound (e : Element) : Bool :=
  e.content?.isSome && match e.inner? with
    | none => true
    | some doc => Bson.isSound doc

private theorem all_attach_eq {l : List Element} {g : {e // e ∈ l} → Bool} {p : Element → Bool}
    (h : ∀ e, g e = p e.1) : l.attach.all g = l.all p := by
  rw [show g = p ∘ Subtype.val from funext h, ← List.all_map, List.attach_map_subtype_val]

/-- A document is sound exactly when its frame is right and its elements are complete and sound. -/
theorem isSound_eq (doc : Bytes) :
    isSound doc = match body? doc with
      | none => false
      | some bs => (elements bs).2 && (elements bs).1.all Element.isSound := by
  rw [isSound]
  split
  · next h => rw [h]
  · next bs h =>
    conv => rhs; rw [h]
    congr 1
    apply all_attach_eq
    rintro ⟨e, member⟩
    simp only [Element.isSound]
    congr 1
    split <;> simp_all

end DumpCatalog.Bson
