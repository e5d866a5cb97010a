/-! # Bytes

Byte strings, and fixed-width integers written with the least significant byte first. The main
statements say that reading a written integer gives it back, and that writing a read one gives the
bytes back. -/

namespace DumpCatalog

/-- A string of bytes. -/
abbrev Bytes := List UInt8

namespace Bytes

/-! ### Natural numbers -/

/-- The `width` lowest digits of `n` in base 256, least significant digit first. -/
def ofNat : (width : Nat) → (n : Nat) → Bytes
  | 0, _ => []
  | width + 1, n => UInt8.ofNat n :: ofNat width (n / 256)

/-- The number whose digits in base 256, least significant digit first, are these bytes. -/
def toNat : Bytes → Nat
  | [] => 0
  | b :: bs => b.toNat + 256 * toNat bs

/-- How many numbers have `width` digits in base 256. -/
def capacity : (width : Nat) → Nat
  | 0 => 1
  | width + 1 => 256 * capacity width

@[simp] theorem length_ofNat (width n : Nat) : (ofNat width n).length = width := by
  induction width generalizing n with
  | zero => rfl
  | succ width ih => simp [ofNat, ih]

theorem toNat_ofNat (width n : Nat) : toNat (ofNat width n) = n % capacity width := by
  induction width generalizing n with
  | zero => simp [ofNat, toNat, capacity, Nat.mod_one]
  | succ width ih =>
    have low : (UInt8.ofNat n).toNat = n % 256 := UInt8.toNat_ofNat'
    rw [ofNat, toNat, ih, low, capacity, Nat.mod_mul]

theorem toNat_lt (bs : Bytes) : toNat bs < capacity bs.length := by
  induction bs with
  | nil => simp [toNat, capacity]
  | cons b bs ih =>
    have := b.toNat_lt
    simp only [toNat, List.length_cons, capacity]
    omega

theorem ofNat_toNat (bs : Bytes) : ofNat bs.length (toNat bs) = bs := by
  induction bs with
  | nil => rfl
  | cons b bs ih =>
    have := b.toNat_lt
    have low : UInt8.ofNat (b.toNat + 256 * toNat bs) = b := by
      apply UInt8.toNat_inj.mp
      rw [UInt8.toNat_ofNat']
      omega
    have high : (b.toNat + 256 * toNat bs) / 256 = toNat bs := by omega
    rw [List.length_cons, toNat, ofNat, low, high, ih]

/-! ### Words -/

/-- The four bytes of a word of 32 bits. -/
def ofUInt32 (n : UInt32) : Bytes := ofNat 4 n.toNat

/-- The word of 32 bits that four bytes write. -/
def toUInt32 (bs : Bytes) : UInt32 := UInt32.ofNat (toNat bs)

/-- The eight bytes of a word of 64 bits. -/
def ofUInt64 (n : UInt64) : Bytes := ofNat 8 n.toNat

/-- The word of 64 bits that eight bytes write. -/
def toUInt64 (bs : Bytes) : UInt64 := UInt64.ofNat (toNat bs)

/-- The four bytes of a signed integer in two's complement. -/
def ofInt32 (n : Int32) : Bytes := ofUInt32 n.toUInt32

/-- The signed integer in two's complement that four bytes write. -/
def toInt32 (bs : Bytes) : Int32 := (toUInt32 bs).toInt32

/-- The eight bytes of a signed integer in two's complement. -/
def ofInt64 (n : Int64) : Bytes := ofUInt64 n.toUInt64

/-- The signed integer in two's complement that eight bytes write. -/
def toInt64 (bs : Bytes) : Int64 := (toUInt64 bs).toInt64

@[simp] theorem length_ofUInt32 (n : UInt32) : (ofUInt32 n).length = 4 := length_ofNat ..

@[simp] theorem length_ofInt32 (n : Int32) : (ofInt32 n).length = 4 := length_ofNat ..

@[simp] theorem length_ofInt64 (n : Int64) : (ofInt64 n).length = 8 := length_ofNat ..

@[simp] theorem toUInt32_ofUInt32 (n : UInt32) : toUInt32 (ofUInt32 n) = n := by
  have small : n.toNat < capacity 4 := n.toNat_lt
  rw [toUInt32, ofUInt32, toNat_ofNat, Nat.mod_eq_of_lt small]
  exact UInt32.ofNat_toNat

@[simp] theorem toUInt64_ofUInt64 (n : UInt64) : toUInt64 (ofUInt64 n) = n := by
  have small : n.toNat < capacity 8 := n.toNat_lt
  rw [toUInt64, ofUInt64, toNat_ofNat, Nat.mod_eq_of_lt small]
  exact UInt64.ofNat_toNat

@[simp] theorem toInt32_ofInt32 (n : Int32) : toInt32 (ofInt32 n) = n := by
  simp [toInt32, ofInt32]

@[simp] theorem toInt64_ofInt64 (n : Int64) : toInt64 (ofInt64 n) = n := by
  simp [toInt64, ofInt64]

theorem ofUInt32_toUInt32 {bs : Bytes} (h : bs.length = 4) : ofUInt32 (toUInt32 bs) = bs := by
  have small : toNat bs < 2 ^ 32 := by
    have := toNat_lt bs
    rw [h] at this
    exact this
  rw [ofUInt32, toUInt32, UInt32.toNat_ofNat', Nat.mod_eq_of_lt small, ← h, ofNat_toNat]

theorem ofUInt64_toUInt64 {bs : Bytes} (h : bs.length = 8) : ofUInt64 (toUInt64 bs) = bs := by
  have small : toNat bs < 2 ^ 64 := by
    have := toNat_lt bs
    rw [h] at this
    exact this
  rw [ofUInt64, toUInt64, UInt64.toNat_ofNat', Nat.mod_eq_of_lt small, ← h, ofNat_toNat]

theorem ofInt32_toInt32 {bs : Bytes} (h : bs.length = 4) : ofInt32 (toInt32 bs) = bs := by
  simp [ofInt32, toInt32, ofUInt32_toUInt32 h]

theorem ofInt64_toInt64 {bs : Bytes} (h : bs.length = 8) : ofInt64 (toInt64 bs) = bs := by
  simp [ofInt64, toInt64, ofUInt64_toUInt64 h]

end Bytes

end DumpCatalog
