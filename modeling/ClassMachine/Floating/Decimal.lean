import ClassMachine.Floating.Format

/-!
Shortest decimal text of a binary floating-point number: the fewest digits that read back, of
those the nearest, written positionally without an exponent.
-/
namespace ClassMachine.Floating

/-- The number `digits · 10 ^ exponent`. -/
structure Decimal where
  digits : Nat
  exponent : Int
  deriving DecidableEq, Repr

/-- The reals that read back as `value / scale` lie between `low / scale` and `high / scale`. -/
structure Interval where
  low : Nat
  value : Nat
  high : Nat
  scale : Nat
  closed : Bool
  deriving Repr

namespace Interval

/-- Interval of `m · 2 ^ e`. Below a power of two the gap is half of the one above. -/
def ofFinite (f : Format) (m : Nat) (e : Int) : Interval :=
  let narrow := m = Nat.pow 2 f.fractionBits
  let up := Nat.pow 2 e.toNat
  { low := (if narrow then 4 * m - 1 else 4 * m - 2) * up
    value := 4 * m * up
    high := (4 * m + 2) * up
    scale := 4 * Nat.pow 2 (-e).toNat
    closed := m % 2 = 0 }

/-- Whether `n · 10 ^ k` reads back as the value. -/
def holds (i : Interval) (n : Nat) (k : Int) : Bool :=
  let x := n * Nat.pow 10 k.toNat * i.scale
  let unit := Nat.pow 10 (-k).toNat
  if i.closed then i.low * unit ≤ x && x ≤ i.high * unit
  else i.low * unit < x && x < i.high * unit

/-- The largest multiple of `10 ^ k` not above the value. -/
def floorAt (i : Interval) (k : Int) : Nat :=
  i.value * Nat.pow 10 (-k).toNat / (i.scale * Nat.pow 10 k.toNat)

/-- Whether the value lies in the upper half of its cell on the grid of `10 ^ k`, or midway. -/
def roundsUp (i : Interval) (k : Int) : Bool :=
  let cell := i.scale * Nat.pow 10 k.toNat
  cell ≤ 2 * (i.value * Nat.pow 10 (-k).toNat % cell)

/-- A neighbour of the value on the grid of `10 ^ k` that reads back, the nearer one first. -/
def neighbour? (i : Interval) (k : Int) : Option Nat :=
  let n := i.floorAt k
  let near := if i.roundsUp k then n + 1 else n
  let far := if i.roundsUp k then n else n + 1
  if i.holds near k then some near
  else if i.holds far k then some far
  else none

/-- The coarsest of the grids from `10 ^ k` down that has a neighbour which reads back. -/
def search (i : Interval) : Nat → Int → Decimal
  | 0, k => ⟨i.floorAt k, k⟩
  | fuel + 1, k =>
    match i.neighbour? k with
    | some n => ⟨n, k⟩
    | none => search i fuel (k - 1)

end Interval

/-- Number of decimal digits of `n`. -/
def digitCount (n : Nat) : Nat := (Nat.toDigits 10 n).length

/-- Seventeen digits separate all numbers of the two formats. -/
def digitLimit : Nat := 17

/-- Shortest decimal of `m · 2 ^ e`, for a positive `m`. -/
def shortest (f : Format) (m : Nat) (e : Int) : Decimal :=
  let i := Interval.ofFinite f m e
  let whole := i.value / i.scale
  let top : Int :=
    if whole ≠ 0 then digitCount whole
    else (1 : Int) - digitCount (i.scale / i.value)
  i.search (digitLimit + 2) top

/-- Digits with the point where it belongs: zeros fill the gap on either side. -/
def Decimal.positional (d : Decimal) : String :=
  let text := Nat.toDigits 10 d.digits
  if 0 ≤ d.exponent then String.ofList (text ++ List.replicate d.exponent.toNat '0')
  else
    let places := (-d.exponent).toNat
    let padded := List.replicate (places + 1 - text.length) '0' ++ text
    let whole := padded.take (padded.length - places)
    let fraction := (padded.drop (padded.length - places)).reverse.dropWhile (· == '0')
    if fraction.isEmpty then String.ofList whole
    else String.ofList (whole ++ '.' :: fraction.reverse)

/-- Text of a pattern of bits: no exponent, no point after a whole number, a sign also on zero. -/
def Format.text (f : Format) (bits : Nat) : String :=
  match f.datum bits with
  | .nan => "NaN"
  | .infinite neg => if neg then "-inf" else "inf"
  | .finite neg m e =>
    let sign := if neg then "-" else ""
    if m = 0 then sign ++ "0" else sign ++ (shortest f m e).positional

end ClassMachine.Floating
