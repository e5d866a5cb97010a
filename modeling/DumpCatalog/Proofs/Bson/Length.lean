import DumpCatalog.Proofs.Bson.Reading
import DumpCatalog.Proofs.Lists

/-! # Documents: how much can be read off them

A complete walk leaves nothing out: the elements and the closing byte are all there is behind the
length of a document (`elements_eq`). So a reader that lays up no more with each element than the
element is long has laid up no more at the end than the document is long
(`weight_le_of_readDocument`). A text that a field takes is written in as many bytes as it was read
from (`length_of_toText`), and an integer is read from four bytes at the least
(`length_of_integer`). -/

namespace DumpCatalog.Bson

/-! ### Elements -/

/-- The written form of an element. -/
def Element.bytes (e : Element) : Bytes := e.tag.toByte :: cstringBytes e.name ++ e.payload

theorem Element.length_bytes (e : Element) :
    e.bytes.length = (Text.toBytes e.name).length + e.payload.length + 2 := by
  simp [bytes, cstringBytes]
  omega

/-- The value of an element is as long as its kind and its own lengths say. -/
def Element.Whole (e : Element) : Prop :=
  ∃ rest, e.tag.size? (e.payload ++ rest) = some e.payload.length

theorem Element.whole_of_first? {bs rest : Bytes} {e : Element}
    (h : Element.first? bs = some (e, rest)) : e.Whole := by
  cases bs with
  | nil => cases h
  | cons byte bs =>
    simp only [first?, Option.bind_eq_bind, Option.bind_eq_some_iff, Prod.exists] at h
    obtain ⟨name, after, -, tag, -, size, sized, payload, rest', cut, h⟩ := h
    cases h
    obtain ⟨rfl, rfl⟩ := takeExact?_eq_some_iff.mp cut
    exact ⟨_, sized⟩

/-- **A complete walk leaves nothing out** but the closing byte. -/
theorem elements_eq {bs : Bytes} (complete : (elements bs).2 = true) :
    (∃ last, bs = (elements bs).1.flatMap Element.bytes ++ [last]) ∧
      ∀ e ∈ (elements bs).1, e.Whole := by
  fun_induction elements bs with
  | case1 => cases complete
  | case2 last => exact ⟨⟨last, rfl⟩, by simp⟩
  | case3 => cases complete
  | case4 a b bs first rest cut shorter es complete' walked ih =>
    rw [walked] at ih
    obtain ⟨⟨last, split⟩, whole⟩ := ih complete
    dsimp only at split whole ⊢
    refine ⟨⟨last, ?_⟩, List.forall_mem_cons.mpr ⟨Element.whole_of_first? cut, whole⟩⟩
    rw [Element.first?_eq_some cut, List.flatMap_cons, List.append_assoc first.bytes, ← split,
      Element.bytes]

theorem exists_elements_of_readDocument {σ : Type} {step : σ → Element → Except DecodeFault σ}
    {start draft : σ} {doc : Bytes} (h : readDocument step start doc = .ok draft) :
    ∃ es : List Element, es.foldlM step start = .ok draft ∧ (∀ e ∈ es, e.Whole) ∧
      doc.length = (es.flatMap Element.bytes).length + 5 := by
  unfold readDocument at h
  split at h
  · cases h
  · next bs cut =>
    obtain ⟨last, walked, h⟩ := bind_eq_ok_iff.mp h
    split at h
    · next complete =>
      cases h
      obtain ⟨⟨last, split⟩, whole⟩ := elements_eq complete
      refine ⟨_, walked, whole, ?_⟩
      simp only [body?, Option.bind_eq_bind, Option.bind_eq_some_iff] at cut
      obtain ⟨n, -, cut⟩ := cut
      split at cut
      · next frame =>
        have long := congrArg List.length (Option.some.inj cut)
        rw [List.length_drop] at long
        have parts := congrArg List.length split
        rw [List.length_append, List.length_singleton] at parts
        omega
      · cases cut
    · cases h

/-- **A reader that lays up no more with each element than the element is long has laid up no more
at the end than the document is long.** -/
theorem weight_le_of_readDocument {σ : Type} {step : σ → Element → Except DecodeFault σ}
    {start draft : σ} {doc : Bytes} (weight : σ → Nat)
    (grows : ∀ {before after : σ} {e : Element}, e.Whole → step before e = .ok after →
      weight after ≤ weight before + e.bytes.length)
    (h : readDocument step start doc = .ok draft) :
    weight draft + 5 ≤ weight start + doc.length := by
  obtain ⟨es, walked, whole, length⟩ := exists_elements_of_readDocument h
  suffices bound : weight draft ≤ weight start + (es.flatMap Element.bytes).length by omega
  clear length h
  induction es generalizing start with
  | nil =>
    cases walked
    exact Nat.le_add_right ..
  | cons e es ih =>
    rw [List.foldlM_cons] at walked
    obtain ⟨next, stepped, walked⟩ := bind_eq_ok_iff.mp walked
    rw [List.forall_mem_cons] at whole
    have first := grows whole.1 stepped
    have rest := ih walked whole.2
    rw [List.flatMap_cons, List.length_append]
    omega

/-! ### Contents -/

/-- **What the content of an element comes from.** -/
inductive Element.Holds (e : Element) : Content → Prop
  | text {text : String} (kind : e.tag = .string) (read : textAfterLength? e.payload = some text) :
      e.Holds (.text text)
  | bytes {subtype : UInt8} {data : Bytes} (behind : e.payload.drop 4 = subtype :: data) :
      e.Holds (.bytes data)
  | integer {n : Int} (kind : e.tag = .int32 ∨ e.tag = .int64) : e.Holds (.integer n)
  | floating {bits : UInt64} : e.Holds (.floating bits)
  | boolean {value : Bool} : e.Holds (.boolean value)
  | unit : e.Holds .unit
  | sequence : e.Holds .sequence
  | mapping : e.Holds .mapping

theorem Element.holds_of_binaryContent? {e : Element} {content : Content}
    (h : binaryContent? e.payload = some content) : e.Holds content := by
  unfold binaryContent? at h
  split at h
  · cases h
  · next subtype data behind =>
    split at h
    · cases h
      exact .bytes behind
    · split at h
      · split at h
        · split at h
          · cases h
            exact .mapping
          · cases h
        · cases h
      · cases h
        exact .mapping

theorem Element.holds_of_content? {e : Element} {content : Content}
    (h : e.content? = some content) : e.Holds content := by
  unfold Element.content? at h
  split at h
  · cases h
    exact .floating
  · next kind =>
    obtain ⟨text, read, rfl⟩ := Option.map_eq_some_iff.mp h
    exact .text kind read
  · cases h
    exact .mapping
  · cases h
    exact .sequence
  · exact holds_of_binaryContent? h
  · split at h
    · cases h
      exact .boolean
    · split at h
      · cases h
        exact .boolean
      · cases h
  · cases h
    exact .unit
  · next kind =>
    cases h
    exact .integer (.inl kind)
  · next kind =>
    cases h
    exact .integer (.inr kind)
  -- code, symbols and pointers have a text, which is checked
  iterate 3
    obtain ⟨text, -, rfl⟩ := Option.map_eq_some_iff.mp h
    exact .mapping
  · obtain ⟨parts, -, h⟩ := Option.bind_eq_some_iff.mp h
    obtain ⟨body, -, h⟩ := Option.bind_eq_some_iff.mp h
    cases h
    exact .mapping
  all_goals
    cases h
    exact .mapping

theorem readOnce_eq_ok {α : Type} {e : Element} {field field' : Option α}
    {read : Content → Except DecodeFault α} (h : e.readOnce field read = .ok field') :
    field = none ∧ ∃ content value, e.Holds content ∧ read content = .ok value ∧
      field' = some value := by
  cases field with
  | some value => cases h
  | none =>
    refine ⟨rfl, ?_⟩
    obtain ⟨content, known, h⟩ := bind_eq_ok_iff.mp h
    obtain ⟨value, taken, same⟩ := bind_eq_ok_iff.mp h
    refine ⟨content, value, ?_, taken, (Except.ok.inj same).symm⟩
    unfold Element.content at known
    split at known
    · next found =>
      cases known
      exact Element.holds_of_content? found
    · cases known

/-! ### Lengths of values -/

theorem five_le_of_textSize? {bs : Bytes} {size : Nat} (h : textSize? bs = some size) :
    5 ≤ size := by
  simp only [textSize?, Option.bind_eq_bind, Option.bind_eq_some_iff] at h
  obtain ⟨n, -, h⟩ := h
  split at h
  · next right =>
    have := Option.some.inj h
    omega
  · cases h

section Values
variable {e : Element} {content : Content}

/-- **A text is written in as many bytes as it was read from.** -/
theorem length_of_toText {text : String} (whole : e.Whole) (holds : e.Holds content)
    (taken : content.toText = .ok text) : (textBytes text).length = e.payload.length := by
  rw [length_textBytes]
  cases holds with
  | text kind read =>
    obtain ⟨rest, sized⟩ := whole
    rw [kind] at sized
    have least := five_le_of_textSize? sized
    cases taken
    rw [Text.toBytes_of_ofBytes? read, List.length_dropLast, List.length_drop]
    omega
  | @bytes subtype data behind =>
    have long := congrArg List.length behind
    rw [List.length_drop, List.length_cons] at long
    unfold Content.toText at taken
    dsimp only at taken
    split at taken
    · next read =>
      cases taken
      rw [Text.toBytes_of_ofBytes? read]
      omega
    · cases taken
  | integer => cases taken
  | floating => cases taken
  | boolean => cases taken
  | unit => cases taken
  | sequence => cases taken
  | mapping => cases taken

theorem length_of_integer {n : Int} (whole : e.Whole) (holds : e.Holds (.integer n)) :
    4 ≤ e.payload.length := by
  obtain ⟨rest, sized⟩ := whole
  cases holds with
  | integer kind =>
    rcases kind with kind | kind
    · rw [kind] at sized
      have := Option.some.inj sized
      omega
    · rw [kind] at sized
      have := Option.some.inj sized
      omega

theorem length_of_toInt32 {n : Int32} (whole : e.Whole) (holds : e.Holds content)
    (taken : content.toInt32 = .ok n) : 4 ≤ e.payload.length := by
  cases content with
  | integer value => exact length_of_integer whole holds
  | _ => cases taken

theorem length_of_toInt64 {n : Int64} (whole : e.Whole) (holds : e.Holds content)
    (taken : content.toInt64 = .ok n) : 4 ≤ e.payload.length := by
  cases content with
  | integer value => exact length_of_integer whole holds
  | _ => cases taken

end Values

end DumpCatalog.Bson
