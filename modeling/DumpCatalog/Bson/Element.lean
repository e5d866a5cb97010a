import DumpCatalog.Bson.Value

/-! # Elements of a written document

A document is taken apart in two steps. This one cuts it into elements without looking into their
values: each value is as long as its kind and its own length fields say. The walk over the elements
is complete when it comes to rest exactly on the closing byte. The main statements say that an
element is cut off the front with what follows left over, and that the walk ends. -/

namespace DumpCatalog.Bson

/-- One element: its kind, its name, and the bytes of its value. -/
structure Element where
  tag : Tag
  name : String
  payload : Bytes
  deriving DecidableEq, Repr

/-! ### Cutting -/

/-- The first `n` bytes and the rest, when there are that many. -/
def takeExact? (n : Nat) (bs : Bytes) : Option (Bytes × Bytes) :=
  let front := bs.take n
  if front.length = n then some (front, bs.drop n) else none

/-- The signed length in the first four bytes. -/
def length? : Bytes → Option Int
  | a :: b :: c :: d :: _ => some (Bytes.toInt32 [a, b, c, d]).toInt
  | _ => none

/-- The bytes before the first zero byte, and those behind it. -/
def untilZero? (bs : Bytes) : Option (Bytes × Bytes) :=
  match bs.dropWhile (· != 0) with
  | [] => none
  | _ :: rest => some (bs.takeWhile (· != 0), rest)

/-- A text that ends at the first zero byte, and what is behind it. -/
def cstring? (bs : Bytes) : Option (String × Bytes) := do
  let (front, rest) ← untilZero? bs
  let text ← Text.ofBytes? front
  return (text, rest)

/-- How many bytes a text with a length in front takes; its last byte has to be zero. -/
def textSize? (bs : Bytes) : Option Nat := do
  let n ← length? bs
  let size := 4 + n.toNat
  if 1 ≤ n ∧ bs[size - 1]? = some 0 then some size else none

/-- How many bytes a document inside another takes; its last byte has to be zero. -/
def documentSize? (bs : Bytes) : Option Nat := do
  let n ← length? bs
  if 5 ≤ n ∧ bs[n.toNat - 1]? = some 0 then some n.toNat else none

/-- How many bytes the value at the front takes. -/
def Tag.size? (tag : Tag) (bs : Bytes) : Option Nat :=
  match tag with
  | undefined | null | minKey | maxKey => some 0
  | boolean => some 1
  | int32 => some 4
  | double | dateTime | timestamp | int64 => some 8
  | objectId => some 12
  | decimal128 => some 16
  | string | code | symbol => textSize? bs
  | dbPointer => (textSize? bs).map (· + 12)
  | document | array => documentSize? bs
  | binary => do
    let n ← length? bs
    if 0 ≤ n then some (5 + n.toNat) else none
  | codeWithScope => do
    let n ← length? bs
    if 0 ≤ n then some n.toNat else none
  | regex => do
    let (pattern, rest) ← cstring? bs
    let (options, _) ← cstring? rest
    return (Text.toBytes pattern).length + (Text.toBytes options).length + 2

/-- The element at the front, and what follows it. -/
def Element.first? : Bytes → Option (Element × Bytes)
  | [] => none
  | byte :: bs => do
    let (name, bs) ← cstring? bs
    let tag ← Tag.ofByte? byte
    let size ← tag.size? bs
    let (payload, rest) ← takeExact? size bs
    return (⟨tag, name, payload⟩, rest)

/-! ### What is cut off -/

theorem takeExact?_eq_some_iff {n : Nat} {bs front rest : Bytes} :
    takeExact? n bs = some (front, rest) ↔ bs = front ++ rest ∧ front.length = n := by
  simp only [takeExact?]
  constructor
  · intro h
    split at h
    · next hn => cases h; exact ⟨(List.take_append_drop n bs).symm, hn⟩
    · cases h
  · rintro ⟨rfl, rfl⟩; simp

theorem untilZero?_eq_some {bs front rest : Bytes} (h : untilZero? bs = some (front, rest)) :
    bs = front ++ 0 :: rest := by
  unfold untilZero? at h
  split at h
  · cases h
  · next b tail hd =>
    cases h
    have hb : b = 0 := by
      have := List.head?_dropWhile_not (· != (0 : UInt8)) bs
      simpa [hd] using this
    subst hb
    rw [← hd, List.takeWhile_append_dropWhile]

theorem untilZero?_append {front : Bytes} (rest : Bytes) (h : ∀ b ∈ front, b ≠ 0) :
    untilZero? (front ++ 0 :: rest) = some (front, rest) := by
  have keep : ∀ b ∈ front, (b != 0) = true := by simpa using h
  rw [untilZero?, List.dropWhile_append_of_pos keep, List.takeWhile_append_of_pos keep]
  simp

theorem cstring?_eq_some {bs rest : Bytes} {text : String} (h : cstring? bs = some (text, rest)) :
    bs = cstringBytes text ++ rest := by
  simp only [cstring?, Option.bind_eq_bind, Option.bind_eq_some_iff, Prod.exists] at h
  obtain ⟨front, rest', cut, text', read, h⟩ := h
  cases h
  rw [untilZero?_eq_some cut, cstringBytes, Text.toBytes_of_ofBytes? read]
  simp

theorem cstring?_cstringBytes {text : String} (rest : Bytes)
    (h : ∀ b ∈ Text.toBytes text, b ≠ 0) :
    cstring? (cstringBytes text ++ rest) = some (text, rest) := by
  simp [cstring?, cstringBytes, untilZero?_append rest h]

theorem Element.first?_eq_some {bs rest : Bytes} {e : Element} (h : first? bs = some (e, rest)) :
    bs = e.tag.toByte :: cstringBytes e.name ++ e.payload ++ rest := by
  cases bs with
  | nil => cases h
  | cons byte bs =>
    simp only [first?, Option.bind_eq_bind, Option.bind_eq_some_iff, Prod.exists] at h
    obtain ⟨name, after, named, tag, tagged, size, _, payload, rest', cut, h⟩ := h
    cases h
    have announced : tag.toByte = byte := by
      have := List.find?_some tagged
      simpa using this
    simp [cstring?_eq_some named, (takeExact?_eq_some_iff.1 cut).1, announced]

theorem Element.length_of_first? {bs rest : Bytes} {e : Element} (h : first? bs = some (e, rest)) :
    e.payload.length + rest.length + 2 ≤ bs.length := by
  rw [first?_eq_some h]
  simp [cstringBytes]

/-! ### The walk -/

/-- The elements in turn, and whether the walk over them came to rest on the last byte. -/
def elements : Bytes → List Element × Bool
  | [] => ([], false)
  | [_] => ([], true)
  | a :: b :: bs =>
    match h : Element.first? (a :: b :: bs) with
    | none => ([], false)
    | some (e, rest) =>
      have := Element.length_of_first? h
      let (es, complete) := elements rest
      (e :: es, complete)
termination_by bs => bs.length
decreasing_by simp only [List.length_cons] at this ⊢; omega

theorem payload_lt_of_mem_elements {bs : Bytes} {e : Element} (h : e ∈ (elements bs).1) :
    e.payload.length < bs.length := by
  fun_induction elements bs with
  | case1 => cases h
  | case2 => cases h
  | case3 => cases h
  | case4 a b bs first rest cut shorter es complete walked ih =>
    rw [walked] at ih
    rcases List.mem_cons.1 h with rfl | h
    · omega
    · have := ih h; omega

/-- What a document holds behind its length: the length has to be right, and the last byte zero. -/
def body? (doc : Bytes) : Option Bytes := do
  let n ← length? doc
  if 5 ≤ n ∧ n = doc.length ∧ doc.getLast? = some 0 then some (doc.drop 4) else none

theorem length_of_body? {doc bs : Bytes} (h : body? doc = some bs) : bs.length < doc.length := by
  simp only [body?, Option.bind_eq_bind, Option.bind_eq_some_iff] at h
  obtain ⟨n, _, h⟩ := h
  split at h
  · next hn => cases h; simp only [List.length_drop]; omega
  · cases h

end DumpCatalog.Bson
