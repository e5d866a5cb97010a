import DumpCatalog.Text.Utf8

/-! # Text: the order of characters is the order of bytes

Texts are compared character by character, and a system compares names byte by byte. In UTF-8 both
come to the same (`toBytes_lt_iff`): the bytes of a lesser character are less, and they differ from
those of a greater one before either ends (`encode_append_lt`). -/

namespace DumpCatalog.Text

theorem toBytes_eq_flatMap (text : String) :
    toBytes text = text.toList.flatMap String.utf8EncodeChar := by
  have whole : text.toByteArray = (text.toList.flatMap String.utf8EncodeChar).toByteArray := by
    rw [← String.utf8Encode_toList]
    rfl
  rw [toBytes, whole]
  simp

/-- **The bytes of a lesser character are less**, whatever follows either of them. -/
theorem encode_append_lt {c d : Char} (h : c < d) (tail tail' : Bytes) :
    String.utf8EncodeChar c ++ tail < String.utf8EncodeChar d ++ tail' := by
  have less : c.val.toNat < d.val.toNat := h
  have bound : d.val.toNat < 0x110000 := by
    have := d.valid
    omega
  unfold String.utf8EncodeChar
  dsimp only
  generalize c.val.toNat = m at less ⊢
  generalize d.val.toNat = n at less bound ⊢
  -- one case for each pair of lengths: the first byte tells two lengths apart, and the bytes of two
  -- characters of one length are the digits of their numbers
  repeat' split
  all_goals
    simp (disch := omega) only [List.cons_append, List.nil_append, List.cons_lt_cons_iff,
      UInt8.lt_iff_toNat_lt, UInt8.toNat_ofNat', ← UInt8.toNat_inj, Nat.mod_eq_of_lt]
    omega

theorem encode_ne_nil (c : Char) : String.utf8EncodeChar c ≠ [] := by
  intro none
  have length := String.length_utf8EncodeChar c
  have positive := c.utf8Size_pos
  rw [none, List.length_nil] at length
  omega

theorem flatMap_encode_lt {cs ds : List Char} (h : cs < ds) :
    cs.flatMap String.utf8EncodeChar < ds.flatMap String.utf8EncodeChar := by
  induction cs generalizing ds with
  | nil =>
    cases ds with
    | nil => exact absurd h (List.not_lt_nil _)
    | cons d ds =>
      obtain ⟨first, later, bytes⟩ := List.exists_cons_of_ne_nil (encode_ne_nil d)
      rw [List.flatMap_nil, List.flatMap_cons, bytes, List.cons_append]
      exact List.nil_lt_cons ..
  | cons c cs ih =>
    cases ds with
    | nil => exact absurd h (List.not_lt_nil _)
    | cons d ds =>
      rw [List.flatMap_cons, List.flatMap_cons]
      rcases List.cons_lt_cons_iff.mp h with less | ⟨rfl, less⟩
      · exact encode_append_lt less _ _
      · exact List.append_left_lt (ih less)

/-- **The order of texts is the order of their bytes.** -/
theorem toBytes_lt_iff {a b : String} : toBytes a < toBytes b ↔ a < b := by
  have forward {a b : String} (h : a < b) : toBytes a < toBytes b := by
    rw [toBytes_eq_flatMap, toBytes_eq_flatMap]
    exact flatMap_encode_lt (String.lt_iff.mp h)
  refine ⟨fun h => ?_, forward⟩
  by_cases less : a < b
  · exact less
  by_cases same : a = b
  · rw [same] at h
    exact absurd h (List.lt_irrefl _)
  · have greater : b < a := Std.lt_of_le_of_ne (String.not_lt.mp less) (Ne.symm same)
    exact absurd h (List.lt_asymm (forward greater))

end DumpCatalog.Text
