import DumpCatalog.Text.Unprintable
import DumpCatalog.Text.Combining

/-! # Quoted text

Text between double quotes, as error messages show it: what would be invisible, would join the
opening quote, or would end the text early is written as an escape. -/

namespace DumpCatalog.Text

/-- The digits of `n` in base sixteen, in lower case. -/
def hexDigits (n : Nat) : List Char := Nat.toDigits 16 n

/-- How one character is written between quotes. -/
def quotedChar (c : Char) : List Char :=
  if c = '"' then ['\\', '"']
  else if c = '\\' then ['\\', '\\']
  else if c = '\n' then ['\\', 'n']
  else if c = '\r' then ['\\', 'r']
  else if c = '\t' then ['\\', 't']
  else if c = '\x00' then ['\\', '0']
  else if isUnprintable c || isCombining c then
    ['\\', 'u', '\x7b'] ++ hexDigits c.toNat ++ ['\x7d']
  else [c]

/-- The text between double quotes, with escapes. -/
def quoted (text : String) : String :=
  String.ofList ('"' :: text.toList.flatMap quotedChar ++ ['"'])

theorem quotedChar_of_isAlphanum :
    ∀ n < 128, (Char.ofNat n).isAlphanum → quotedChar (Char.ofNat n) = [Char.ofNat n] := by
  decide +kernel

end DumpCatalog.Text
