/-! # The shortest decimal of a double

A double stands for the interval of reals that round to it. Its shortest decimal is a point of that
interval on the coarsest grid of multiples of a power of ten that has one; of two such points it is
the nearer, and an exact tie is left to the caller. The main statement says that the decimal found
lies in the interval. All is done on natural numbers: a double enters by its 64 bits. -/

namespace DumpCatalog.Decimal

/-- Which of two equally near decimals is taken. -/
inductive Tie where
  | toEven
  | upward
  deriving DecidableEq, Repr

/-- A positive double: `mantissa * 2 ^ exponent`. `narrow` says that the next smaller double is
half as far away as the next larger one. -/
structure Magnitude where
  mantissa : Nat
  exponent : Int
  narrow : Bool
  deriving DecidableEq, Repr

/-- What the 64 bits of a double say. -/
inductive Reading where
  | zero (negative : Bool)
  | finite (negative : Bool) (magnitude : Magnitude)
  | infinite (negative : Bool)
  | notANumber
  deriving DecidableEq, Repr

/-- The bit in front of a fraction of 52 bits. -/
def leadingBit : Nat := 1 <<< 52

/-- The reading of a double: a sign bit, eleven bits of exponent, and 52 bits of fraction. -/
def Reading.ofBits (bits : UInt64) : Reading :=
  let n := bits.toNat
  let negative := n >>> 63 == 1
  let exponent : Nat := (n >>> 52) % 2048
  let fraction := n % leadingBit
  if exponent = 2047 then
    if fraction = 0 then .infinite negative else .notANumber
  else if exponent = 0 then
    if fraction = 0 then .zero negative else .finite negative ⟨fraction, -1074, false⟩
  else .finite negative ⟨leadingBit + fraction, (exponent : Int) - 1075,
    fraction == 0 && exponent != 1⟩

/-- A decimal: `digits * 10 ^ exponent`. -/
structure Written where
  digits : Nat
  exponent : Int
  deriving DecidableEq, Repr

namespace Magnitude

/-- Four times the mantissa, so that the ends of the interval are whole. -/
def centre (x : Magnitude) : Nat := 4 * x.mantissa

/-- The lower end of the interval, in quarters of the mantissa's unit. -/
def lower (x : Magnitude) : Nat := x.centre - if x.narrow then 1 else 2

/-- The upper end of the interval, in quarters of the mantissa's unit. -/
def upper (x : Magnitude) : Nat := x.centre + 2

/-- Factors `(p, g)` such that the decimal `d * 10 ^ k` compares with `n` quarters of the unit as
`d * g` compares with `n * p`. -/
def factors (x : Magnitude) (k : Int) : Nat × Nat :=
  (Nat.pow 2 (x.exponent - 2).toNat * Nat.pow 10 (-k).toNat,
    Nat.pow 10 k.toNat * Nat.pow 2 (2 - x.exponent).toNat)

/-- Whether `d * 10 ^ k` rounds to `x`; the ends do when the mantissa is even. -/
def covers (x : Magnitude) (k : Int) (d : Nat) : Bool :=
  let (p, g) := x.factors k
  if x.mantissa % 2 = 0 then x.lower * p ≤ d * g && d * g ≤ x.upper * p
  else x.lower * p < d * g && d * g < x.upper * p

/-- The point of the grid of multiples of `10 ^ k` that is taken for `x`, if one rounds to it. -/
def onGrid? (x : Magnitude) (tie : Tie) (k : Int) : Option Nat :=
  let (p, g) := x.factors k
  let below := x.centre * p / g
  let above := below + 1
  match x.covers k below, x.covers k above with
  | true, false => some below
  | false, true => some above
  | false, false => none
  | true, true =>
    let rest := 2 * (x.centre * p % g)
    if rest < g then some below
    else if g < rest then some above
    else match tie with
      | .upward => some above
      | .toEven => if below % 2 = 0 then some below else some above

theorem covers_of_onGrid? {x : Magnitude} {tie : Tie} {k : Int} {d : Nat}
    (h : x.onGrid? tie k = some d) : x.covers k d = true := by
  simp only [onGrid?] at h
  split at h
  · simp_all
  · simp_all
  · cases h
  · split at h
    · simp_all
    · split at h
      · simp_all
      · cases tie with
        | upward => simp_all
        | toEven => dsimp only at h; split at h <;> simp_all

/-- The first hit on the grids of exponents `k`, `k - 1`, …, at most `grids` of them. -/
def search (x : Magnitude) (tie : Tie) : (grids : Nat) → (k : Int) → Option Written
  | 0, _ => none
  | grids + 1, k =>
    match x.onGrid? tie k with
    | some d => some ⟨d, k⟩
    | none => search x tie grids (k - 1)

theorem covers_of_search {x : Magnitude} {tie : Tie} {grids : Nat} {k : Int} {w : Written}
    (h : x.search tie grids k = some w) : x.covers w.exponent w.digits = true := by
  induction grids generalizing k with
  | zero => cases h
  | succ grids ih =>
    simp only [search] at h
    split at h
    · next hit => cases h; exact covers_of_onGrid? hit
    · exact ih h

/-- The exponent of a grid that is too coarse for `x`. The interval ends below two to the power of
the exponent and the mantissa's length together, and `0.30103` is so little above the decimal
logarithm of two that two more grids make up for it. -/
def firstGrid (x : Magnitude) : Int :=
  (x.exponent + x.mantissa.log2 + 1) * 30103 / 100000 + 2

/-- The shortest decimal that rounds to `x`. Every double is a multiple of the unit of grid
`-1074`, so the search need not go below it. -/
def shortest? (x : Magnitude) (tie : Tie) : Option Written :=
  x.search tie (x.firstGrid + 1075).toNat x.firstGrid

/-- The shortest decimal rounds to the double that it is written for. -/
theorem covers_shortest {x : Magnitude} {tie : Tie} {w : Written} (h : x.shortest? tie = some w) :
    x.covers w.exponent w.digits = true := covers_of_search h

end Magnitude

end DumpCatalog.Decimal
