import DumpCatalog.Decimal.Shortest

/-! # How a decimal is laid out

A decimal is written positionally or with an exponent; which of the two depends on where its point
falls. A format is a record of these decisions, and `Format.render` writes a double by one. -/

namespace DumpCatalog.Decimal

/-- The decisions of a format for doubles. `window` bounds the number of digits before the point
(zero or less when zeros follow the point) for which the decimal is written positionally; without a
window it always is. -/
structure Format where
  tie : Tie
  window : Option (Int × Int)

/-- The digits of a number in base ten. -/
def digitsOf (n : Nat) : List Char := Nat.toDigits 10 n

/-- The decimal without an exponent, always with a point. -/
def Written.positional (w : Written) : List Char :=
  let digits := digitsOf w.digits
  let whole := digits.length + w.exponent
  if 0 ≤ w.exponent then digits ++ List.replicate w.exponent.toNat '0' ++ ['.', '0']
  else if 0 < whole then digits.take whole.toNat ++ '.' :: digits.drop whole.toNat
  else '0' :: '.' :: List.replicate (-whole).toNat '0' ++ digits

/-- The decimal with one digit before the point and an exponent that bears its sign. -/
def Written.scientific (w : Written) : List Char :=
  let digits := digitsOf w.digits
  let exponent := digits.length + w.exponent - 1
  let fraction := if digits.length = 1 then [] else '.' :: digits.drop 1
  digits.take 1 ++ fraction ++ 'e' :: (if exponent < 0 then '-' else '+') ::
    digitsOf exponent.natAbs

/-- The decimal as the format writes it. -/
def Format.layOut (format : Format) (w : Written) : List Char :=
  let whole := (digitsOf w.digits).length + w.exponent
  match format.window with
  | none => w.positional
  | some (least, most) =>
    if least ≤ whole && whole ≤ most then w.positional else w.scientific

/-- The double with these 64 bits, as the format writes it. -/
def Format.render (format : Format) (bits : UInt64) : String :=
  let signed (negative : Bool) (digits : List Char) : String :=
    String.ofList (if negative then '-' :: digits else digits)
  match Reading.ofBits bits with
  | .notANumber => "NaN"
  | .infinite negative => signed negative ['i', 'n', 'f']
  | .zero negative => signed negative ['0', '.', '0']
  | .finite negative magnitude =>
    signed negative (format.layOut ((magnitude.shortest? format.tie).getD ⟨0, 0⟩))

/-- Messages write every double positionally, and a tie goes up. -/
def messageFormat : Format := ⟨.upward, none⟩

/-- Documents write a double positionally while at most sixteen digits stand before its point and
at most four zeros after it, and a tie goes to the even neighbour. -/
def documentFormat : Format := ⟨.toEven, some (-4, 16)⟩

example : messageFormat.render (0.1 + 0.2 : Float).toBits = "0.30000000000000004" := by
  decide +kernel

example : messageFormat.render 0x3E60000000000000 = "0.000000029802322387695313" := by
  decide +kernel

example : documentFormat.render 0x3E60000000000000 = "2.9802322387695312e-8" := by
  decide +kernel

example : documentFormat.render (1e16 : Float).toBits = "1e+16" := by decide +kernel

example : documentFormat.render 0x0000000000000001 = "5e-324" := by decide +kernel

example : documentFormat.render (0.00001 : Float).toBits = "0.00001" := by decide +kernel

end DumpCatalog.Decimal
