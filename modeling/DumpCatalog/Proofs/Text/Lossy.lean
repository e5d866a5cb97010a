import DumpCatalog.Proofs.Text.Order
import DumpCatalog.Text.Lossy

/-! # Text: what is shown for bytes

Bytes that write a text are shown as this text (`ofBytesLossy_toBytes`), and no others are written
by what is shown for them (`toBytes_ofBytesLossy_iff`). Only the byte of a separator is shown as a
separator (`slash_notMem_ofBytesLossy`), so a name without one is shown without one. -/

namespace DumpCatalog.Text

/-! ### One character -/

theorem leading_two {n : Nat} (h : 2 ≤ n) (h' : n < 0x20) :
    leading (n + 0xC0) = some ⟨1, 0x80, 0xBF, n⟩ := by
  rw [leading, if_neg (by omega), if_neg (by omega), if_pos (by omega), Nat.add_sub_cancel]

theorem leading_three {n : Nat} (h : n < 0x10) :
    leading (n + 0xE0) =
      some ⟨2, if n = 0 then 0xA0 else 0x80, if n = 0xD then 0x9F else 0xBF, n⟩ := by
  rw [leading, if_neg (by omega), if_neg (by omega), if_neg (by omega), if_pos (by omega),
    Nat.add_sub_cancel]
  simp only [Nat.add_eq_right, Nat.reduceEqDiff]

theorem leading_four {n : Nat} (h : n < 5) :
    leading (n + 0xF0) =
      some ⟨3, if n = 0 then 0x90 else 0x80, if n = 4 then 0x8F else 0xBF, n⟩ := by
  rw [leading, if_neg (by omega), if_neg (by omega), if_neg (by omega), if_neg (by omega),
    if_pos (by omega), Nat.add_sub_cancel]
  simp only [Nat.add_eq_right, Nat.reduceEqDiff]

section Digits
variable {byte owed low high number n : Nat}

theorem shownFrom_ofNat {begun : Option Partial} (small : byte < 256) (bytes : Bytes) :
    shownFrom begun (UInt8.ofNat byte :: bytes) =
      (feed begun byte).1 ++ shownFrom (feed begun byte).2 bytes := by
  have same : (UInt8.ofNat byte).toNat = byte := Nat.mod_eq_of_lt small
  rw [shownFrom, same]

theorem shownFrom_leading (small : byte < 256)
    (h : leading byte = some ⟨owed + 1, low, high, number⟩) (bytes : Bytes) :
    shownFrom none (UInt8.ofNat byte :: bytes) =
      shownFrom (some ⟨owed + 1, low, high, number⟩) bytes := by
  have first : feed none byte = ([], some ⟨owed + 1, low, high, number⟩) := by
    rw [feed, start, h]
    rfl
  rw [shownFrom_ofNat small, first, List.nil_append]

/-- A digit of six bits goes behind the number, and the next one is owed. -/
theorem shownFrom_digit (digits : number = n / 64) (below : low ≤ n % 64 + 128)
    (above : n % 64 + 128 ≤ high) (bytes : Bytes) :
    shownFrom (some ⟨owed + 2, low, high, number⟩) (UInt8.ofNat (n % 64 + 128) :: bytes) =
      shownFrom (some ⟨owed + 1, 0x80, 0xBF, n⟩) bytes := by
  have whole : number * 64 + (n % 64 + 128 - 0x80) = n := by omega
  have next : feed (some ⟨owed + 2, low, high, number⟩) (n % 64 + 128) =
      ([], some ⟨owed + 1, 0x80, 0xBF, n⟩) := by
    rw [feed, if_pos ⟨below, above⟩, whole]
    rfl
  rw [shownFrom_ofNat (by omega), next, List.nil_append]

theorem shownFrom_lastDigit (digits : number = n / 64) (bytes : Bytes) :
    shownFrom (some ⟨1, 0x80, 0xBF, number⟩) (UInt8.ofNat (n % 64 + 128) :: bytes) =
      Char.ofNat n :: shownFrom none bytes := by
  have whole : number * 64 + (n % 64 + 128 - 0x80) = n := by omega
  have within : 0x80 ≤ n % 64 + 128 ∧ n % 64 + 128 ≤ 0xBF := by omega
  have last : feed (some ⟨1, 0x80, 0xBF, number⟩) (n % 64 + 128) = ([Char.ofNat n], none) := by
    rw [feed, if_pos within, whole]
    rfl
  rw [shownFrom_ofNat (by omega), last, List.singleton_append]

end Digits

theorem shownFrom_encode (c : Char) (bytes : Bytes) :
    shownFrom none (String.utf8EncodeChar c ++ bytes) = c :: shownFrom none bytes := by
  have valid : c.val.toNat < 0xD800 ∨ 0xDFFF < c.val.toNat ∧ c.val.toNat < 0x110000 := c.valid
  have number : Char.ofNat c.val.toNat = c := Char.ofNat_toNat c
  unfold String.utf8EncodeChar
  dsimp only
  generalize c.val.toNat = n at valid number
  -- the cases are the lengths in which characters are written
  split
  · have first : feed none n = ([c], none) := by
      have ascii : leading n = some ⟨0, 0x80, 0xBF, n⟩ := if_pos (by omega)
      rw [feed, start, ascii, ← number]
      rfl
    rw [List.singleton_append, shownFrom_ofNat (by omega), first, List.singleton_append]
  split
  · have lead : n / 64 % 32 = n / 64 := Nat.mod_eq_of_lt (by omega)
    simp only [List.cons_append, List.nil_append]
    rw [lead, shownFrom_leading (by omega) (leading_two (by omega) (by omega)),
      shownFrom_lastDigit rfl, number]
  split
  · have lead : n / 4096 % 16 = n / 4096 := Nat.mod_eq_of_lt (by omega)
    simp only [List.cons_append, List.nil_append]
    rw [lead, shownFrom_leading (by omega) (leading_three (by omega)),
      shownFrom_digit (by omega) (by split <;> omega) (by split <;> omega),
      shownFrom_lastDigit rfl, number]
  · have lead : n / 262144 % 8 = n / 262144 := Nat.mod_eq_of_lt (by omega)
    simp only [List.cons_append, List.nil_append]
    rw [lead, shownFrom_leading (by omega) (leading_four (by omega)),
      shownFrom_digit (by omega) (by split <;> omega) (by split <;> omega),
      shownFrom_digit (by omega) (by omega) (by omega), shownFrom_lastDigit rfl, number]

/-! ### Texts -/

/-- **The bytes of a text are shown as this text.** -/
theorem ofBytesLossy_toBytes (text : String) : ofBytesLossy (toBytes text) = text := by
  have characters (cs : List Char) : shownFrom none (cs.flatMap String.utf8EncodeChar) = cs := by
    induction cs with
    | nil => rfl
    | cons c cs ih => rw [List.flatMap_cons, shownFrom_encode, ih]
  rw [ofBytesLossy, toBytes_eq_flatMap, characters, String.ofList_toList]

/-- What is shown writes the bytes again exactly when they write a text. -/
theorem toBytes_ofBytesLossy_iff {bytes : Bytes} :
    toBytes (ofBytesLossy bytes) = bytes ↔ ∃ text, toBytes text = bytes := by
  constructor
  · exact fun same => ⟨_, same⟩
  · rintro ⟨text, rfl⟩
    rw [ofBytesLossy_toBytes]

/-! ### Separators -/

/-- A character that has begun and will not turn out to be one of those that have a byte to
themselves. -/
structure Partial.Wide (char : Partial) : Prop where
  owed : char.owed ≠ 0
  next : 2 ≤ char.number * 64 + (char.low - 0x80)
  last : char.owed = 1 → 2 ≤ char.number

theorem wide_of_leading {byte : Nat} {char : Partial} (h : leading byte = some char)
    (more : char.owed ≠ 0) : char.Wide := by
  unfold leading at h
  repeat' split at h
  all_goals
    first
    | cases h
      refine ⟨more, ?_, ?_⟩
      · dsimp only at *
        omega
      · dsimp only at *
        omega
    | cases h

theorem eq_of_ofNat_eq_slash {n : Nat} (h : Char.ofNat n = '/') : n = 0x2F := by
  by_cases valid : n.isValidChar
  · rw [Char.ofNat, dif_pos valid] at h
    exact congrArg Char.toNat h
  · rw [Char.ofNat, dif_neg valid] at h
    exact absurd h (by decide)

theorem slash_of_start {byte : Nat} (h : '/' ∈ (start byte).1) : byte = 0x2F := by
  rw [start] at h
  cases first : leading byte with
  | none =>
    rw [first] at h
    exact absurd h (by decide)
  | some char =>
    rw [first] at h
    dsimp only [Partial.settle] at h
    split at h
    · next whole =>
      have number := eq_of_ofNat_eq_slash (List.mem_singleton.mp h).symm
      unfold leading at first
      repeat' split at first
      all_goals
        cases first
      · exact number
      all_goals
        cases whole
    · cases h

theorem wide_of_start {byte : Nat} {char : Partial} (h : (start byte).2 = some char) :
    char.Wide := by
  rw [start] at h
  cases first : leading byte with
  | none =>
    rw [first] at h
    cases h
  | some begun =>
    rw [first] at h
    dsimp only [Partial.settle] at h
    split at h
    · cases h
    · next more =>
      cases h
      exact wide_of_leading first more

section Feed
variable {begun : Option Partial} {byte : Nat}

theorem slash_of_feed (wide : ∀ char, begun = some char → char.Wide)
    (h : '/' ∈ (feed begun byte).1) : byte = 0x2F := by
  cases begun with
  | none => exact slash_of_start h
  | some char =>
    obtain ⟨owed, next, last⟩ := wide char rfl
    rw [feed] at h
    split at h
    · next within =>
      dsimp only [Partial.settle] at h
      split at h
      · have number := eq_of_ofNat_eq_slash (List.mem_singleton.mp h).symm
        omega
      · cases h
    · rcases List.mem_cons.mp h with same | shown
      · exact absurd same (by decide)
      · exact slash_of_start shown

theorem wide_of_feed (wide : ∀ char, begun = some char → char.Wide) {later : Partial}
    (h : (feed begun byte).2 = some later) : later.Wide := by
  cases begun with
  | none => exact wide_of_start h
  | some char =>
    obtain ⟨owed, next, last⟩ := wide char rfl
    rw [feed] at h
    split at h
    · next within =>
      dsimp only [Partial.settle] at h
      split at h
      · cases h
      · next more =>
        cases h
        refine ⟨more, ?_, ?_⟩
        · dsimp only
          omega
        · dsimp only
          omega
    · exact wide_of_start h

end Feed

theorem slash_of_shownFrom {bytes : Bytes} {begun : Option Partial}
    (wide : ∀ char, begun = some char → char.Wide) (h : '/' ∈ shownFrom begun bytes) :
    0x2F ∈ bytes := by
  induction bytes generalizing begun with
  | nil =>
    rw [shownFrom] at h
    split at h
    · exact absurd h (by decide)
    · cases h
  | cons byte bytes ih =>
    rcases List.mem_append.mp h with here | later
    · have same : byte = 0x2F := UInt8.toNat_inj.mp (slash_of_feed wide here)
      rw [same]
      exact List.mem_cons_self
    · exact List.mem_cons_of_mem _ (ih (fun char => wide_of_feed wide) later)

/-- A byte below `0x80` is all of its character. -/
theorem eq_of_mem_encode {c : Char} {byte : UInt8} (h : byte ∈ String.utf8EncodeChar c)
    (small : byte.toNat < 0x80) : c.val.toNat = byte.toNat := by
  unfold String.utf8EncodeChar at h
  dsimp only at h
  generalize c.val.toNat = n at h ⊢
  repeat' split at h
  all_goals
    simp (disch := omega) only [List.mem_cons, List.not_mem_nil, or_false, ← UInt8.toNat_inj,
      UInt8.toNat_ofNat', Nat.mod_eq_of_lt] at h
    omega

theorem eq_slash_of_mem_encode {c : Char} (h : 0x2F ∈ String.utf8EncodeChar c) : c = '/' :=
  Char.toNat_inj.mp (eq_of_mem_encode h (by decide))

theorem slash_notMem_ofBytesLossy {bytes : Bytes} (plain : 0x2F ∉ bytes) :
    0x2F ∉ toBytes (ofBytesLossy bytes) := by
  rw [toBytes_eq_flatMap, List.mem_flatMap]
  rintro ⟨c, shown, slash⟩
  rw [eq_slash_of_mem_encode slash, ofBytesLossy, String.toList_ofList] at shown
  exact plain (slash_of_shownFrom (by simp) shown)

end DumpCatalog.Text
