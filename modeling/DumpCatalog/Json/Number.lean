import DumpCatalog.Decimal.Layout

/-! # Numbers of a JSON text

A number without fraction and exponent stays an integer while it fits into 64 bits. Every other one
becomes a double: as many digits as fit into 64 bits are gathered into a significand, which is then
multiplied with or divided by a power of ten in double arithmetic. -/

namespace DumpCatalog.Json

/-- A number: an integer of 64 bits, or a double by its bits. -/
inductive Number where
  | integer (value : Int)
  | double (bits : UInt64)
  deriving DecidableEq, Repr

namespace Number

/-- The parts of a number's text. -/
structure Parts where
  negative : Bool
  whole : List Nat
  fraction : Option (List Nat)
  exponent : Option (Bool × List Nat)
  deriving DecidableEq, Repr

/-- The value of a digit. -/
def digitValue (c : Char) : Nat := c.toNat - '0'.toNat

/-- The digits at the front, and what follows them. -/
def digits (cs : List Char) : List Nat × List Char :=
  ((cs.takeWhile Char.isDigit).map digitValue, cs.dropWhile Char.isDigit)

/-- The fraction at the front: a point and at least one digit. -/
def fraction? : List Char → Option (Option (List Nat) × List Char)
  | '.' :: cs =>
    match digits cs with
    | ([], _) => none
    | (ds, rest) => some (some ds, rest)
  | cs => some (none, cs)

/-- The exponent behind its mark: perhaps a sign, and at least one digit. -/
def signedExponent? (cs : List Char) : Option (Option (Bool × List Nat) × List Char) :=
  let (negative, cs) : Bool × List Char :=
    match cs with
    | '+' :: cs => (false, cs)
    | '-' :: cs => (true, cs)
    | cs => (false, cs)
  match digits cs with
  | ([], _) => none
  | (ds, rest) => some (some (negative, ds), rest)

/-- The exponent at the front. -/
def exponent? : List Char → Option (Option (Bool × List Nat) × List Char)
  | 'e' :: cs | 'E' :: cs => signedExponent? cs
  | cs => some (none, cs)

/-- The parts of a text that is a number from end to end. A number begins with zero only when that
is the whole of its integral part. -/
def parts? (cs : List Char) : Option Parts := do
  let (negative, cs) : Bool × List Char :=
    match cs with
    | '-' :: cs => (true, cs)
    | cs => (false, cs)
  let (whole, cs) := digits cs
  if whole = [] ∨ (whole.head? = some 0 ∧ whole.length ≠ 1) then none
  let (fraction, cs) ← fraction? cs
  let (exponent, cs) ← exponent? cs
  if cs = [] then some ⟨negative, whole, fraction, exponent⟩ else none

/-- The greatest significand. -/
def maxSignificand : Nat := 0xFFFFFFFFFFFFFFFF

/-- Appends digits to a significand up to the first one that does not fit; gives the significand
and how many digits were appended. -/
def gather (significand : Nat) : List Nat → Nat × Nat
  | [] => (significand, 0)
  | d :: ds =>
    if maxSignificand < significand * 10 + d then (significand, 0)
    else
      let (result, count) := gather (significand * 10 + d) ds
      (result, count + 1)

/-- The double nearest to a power of ten. -/
def powerOfTen (n : Nat) : Float := Float.ofScientific 1 false n

/-- The greatest exponent of a power of ten that is a finite double. -/
def maxPower : Nat := 308

/-- Divides by a power of ten, at most `maxPower` at a time. A significand is used up by two such
divisions, so `rounds` need not be many. -/
def divide (f : Float) (n : Nat) : (rounds : Nat) → Float
  | 0 => 0
  | rounds + 1 =>
    if n ≤ maxPower then f / powerOfTen n
    else divide (f / powerOfTen maxPower) (n - maxPower) rounds

/-- The double of a significand and an exponent, unless it is too large. -/
def double? (negative : Bool) (significand : Nat) (exponent : Int) : Option Number :=
  let signed (f : Float) : Option Number := some (.double (if negative then -f else f).toBits)
  let f := significand.toUInt64.toFloat
  if significand = 0 then signed f
  else if 0 ≤ exponent then
    if maxPower < exponent.toNat then none
    else
      let f := f * powerOfTen exponent.toNat
      if f.isInf then none else signed f
  else signed (divide f exponent.natAbs 4)

/-- The number that these parts write, unless it is too large. -/
def ofParts? (parts : Parts) : Option Number :=
  let (significand, used) := gather 0 parts.whole
  let unused := parts.whole.length - used
  match parts.fraction, parts.exponent with
  | none, none =>
    if 0 < unused then double? parts.negative significand unused
    else if parts.negative then
      if significand = 0 ∨ 0x8000000000000000 < significand then double? true significand 0
      else some (.integer (-significand))
    else some (.integer significand)
  | fraction, exponent =>
    let (significand, places) := gather significand (fraction.getD [])
    let shift : Int := unused - places
    match exponent with
    | none => double? parts.negative significand shift
    | some (negative, ds) =>
      let value : Nat := ds.foldl (fun n d => n * 10 + d) 0
      if value < 0x80000000 then
        double? parts.negative significand (if negative then shift - value else shift + value)
      else if significand = 0 ∨ negative then double? parts.negative 0 0
      else none

/-- The number that a text writes. -/
def ofText? (cs : List Char) : Option Number := (parts? cs).bind ofParts?

/-- A number as documents write it. -/
def render : Number → String
  | integer n => toString n
  | double bits => Decimal.documentFormat.render bits

example : (ofText? "18446744073709551616".toList).map render = some "1.8446744073709552e+19" := by
  decide +kernel

example : (ofText? "-0".toList).map render = some "-0.0" := by decide +kernel

example : ofText? "1e309".toList = none := by decide +kernel

end Number

end DumpCatalog.Json
