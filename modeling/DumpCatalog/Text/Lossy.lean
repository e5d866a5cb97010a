import DumpCatalog.Text.Utf8

/-! # Bytes shown as text

Bytes that are to be shown are read as UTF-8 as far as they go. Where they stop being well-formed a
replacement character stands for what was read of the character that breaks off, and reading starts
again with the byte that broke it off. -/

namespace DumpCatalog.Text

/-- What stands for bytes that are no text. -/
def replacement : Char := '\uFFFD'

/-- A character of which some bytes are still owed: how many, between which bounds the next of them
is, and the number that the bytes so far write. -/
structure Partial where
  owed : Nat
  low : Nat
  high : Nat
  number : Nat
  deriving DecidableEq, Repr

/-- What the first byte of a character tells of it. No character begins with a byte that is not
needed for any, as it would write one that can be written with fewer bytes, or none at all. -/
def leading (byte : Nat) : Option Partial :=
  if byte < 0x80 then some ⟨0, 0x80, 0xBF, byte⟩
  else if byte < 0xC2 then none
  else if byte < 0xE0 then some ⟨1, 0x80, 0xBF, byte - 0xC0⟩
  else if byte < 0xF0 then
    some ⟨2, if byte = 0xE0 then 0xA0 else 0x80, if byte = 0xED then 0x9F else 0xBF, byte - 0xE0⟩
  else if byte < 0xF5 then
    some ⟨3, if byte = 0xF0 then 0x90 else 0x80, if byte = 0xF4 then 0x8F else 0xBF, byte - 0xF0⟩
  else none

/-- The character, once no byte of it is owed. -/
def Partial.settle (char : Partial) : List Char × Option Partial :=
  if char.owed = 0 then ([Char.ofNat char.number], none) else ([], some char)

/-- What a byte at the beginning of a character shows, and what it leaves owed. -/
def start (byte : Nat) : List Char × Option Partial :=
  match leading byte with
  | none => ([replacement], none)
  | some char => char.settle

/-- What one more byte shows, and what it leaves owed. -/
def feed (begun : Option Partial) (byte : Nat) : List Char × Option Partial :=
  match begun with
  | none => start byte
  | some char =>
    if char.low ≤ byte ∧ byte ≤ char.high then
      Partial.settle ⟨char.owed - 1, 0x80, 0xBF, char.number * 64 + (byte - 0x80)⟩
    else
      let (shown, later) := start byte
      (replacement :: shown, later)

/-- What is shown for bytes behind those of a character that has begun. -/
def shownFrom (begun : Option Partial) : Bytes → List Char
  | [] => if begun.isSome then [replacement] else []
  | byte :: bytes =>
    let (shown, later) := feed begun byte.toNat
    shown ++ shownFrom later bytes

/-- The text that is shown for bytes. -/
def ofBytesLossy (bytes : Bytes) : String := String.ofList (shownFrom none bytes)

-- Two bytes of a character of three, a byte that no character has, and a letter.
example : ofBytesLossy [0xE2, 0x82, 0xFF, 0x41] = "\uFFFD\uFFFDA" := by decide

end DumpCatalog.Text
