/-!
Binary floating-point layouts. A pattern of bits is read as a sign, a significand and a power of
two; equality, order, negation and the exact remainder are defined on the pattern alone, so they can be
reasoned about without the arithmetic unit. The quotient of a remainder is cut off toward zero, so the result
has the sign of the dividend and is always representable.
-/
namespace ClassMachine.Floating

/-- A layout with `exponentBits` bits of exponent above `fractionBits` bits of fraction. -/
structure Format where
  exponentBits : Nat
  fractionBits : Nat
  deriving DecidableEq, Repr

/-- Thirty-two bits. -/
def single : Format := ⟨8, 23⟩

/-- Sixty-four bits. -/
def double : Format := ⟨11, 52⟩

/-- What a pattern of bits stands for: `finite neg m e` is `± m · 2 ^ e`. -/
inductive Datum where
  | nan
  | infinite (neg : Bool)
  | finite (neg : Bool) (significand : Nat) (exponent : Int)
  deriving DecidableEq, Repr

namespace Format

def signBit (f : Format) : Nat := Nat.pow 2 (f.exponentBits + f.fractionBits)

/-- Exponent of the last significand bit of a subnormal number. -/
def leastExponent (f : Format) : Int := 2 - Nat.pow 2 (f.exponentBits - 1) - f.fractionBits

def isNegative (f : Format) (bits : Nat) : Bool := f.signBit ≤ bits

/-- The pattern with its sign taken off. -/
def magnitude (f : Format) (bits : Nat) : Nat := bits % f.signBit

/-- Pattern of positive infinity; every larger magnitude is not a number. -/
def infinity (f : Format) : Nat := (Nat.pow 2 f.exponentBits - 1) * Nat.pow 2 f.fractionBits

/-- The quiet pattern used for every invalid result. -/
def quietNan (f : Format) : Nat := f.infinity + Nat.pow 2 (f.fractionBits - 1)

def isNan (f : Format) (bits : Nat) : Bool := f.infinity < f.magnitude bits

def datum (f : Format) (bits : Nat) : Datum :=
  let m := f.magnitude bits
  if f.infinity < m then .nan
  else if m = f.infinity then .infinite (f.isNegative bits)
  else
    let fraction := m % Nat.pow 2 f.fractionBits
    let biased := m / Nat.pow 2 f.fractionBits
    if biased = 0 then .finite (f.isNegative bits) fraction f.leastExponent
    else .finite (f.isNegative bits) (fraction + Nat.pow 2 f.fractionBits) (f.leastExponent + (biased - 1))

/-- Pattern of `± m · 2 ^ e` when that number is representable. -/
def pack (f : Format) (neg : Bool) (m : Nat) (e : Int) : Nat :=
  let sign := if neg then f.signBit else 0
  if m = 0 then sign
  else
    let top := e + Nat.log2 m
    let biased := max 1 (top - f.leastExponent - f.fractionBits + 1)
    let last := f.leastExponent + (biased - 1)
    let scaled := if last ≤ e then m <<< (e - last).toNat else m >>> (last - e).toNat
    sign + (biased - 1).toNat * Nat.pow 2 f.fractionBits + scaled

/-- Both zeros have key zero, and keys are ordered as the numbers are. -/
def orderKey (f : Format) (bits : Nat) : Int :=
  if f.isNegative bits then -(f.magnitude bits : Int) else f.magnitude bits

/-- Order of two numbers, or nothing when one of them is not a number. -/
def compare? (f : Format) (a b : Nat) : Option Ordering :=
  if f.isNan a || f.isNan b then none else some (compare (f.orderKey a) (f.orderKey b))

/-- Numerical equality: zeros of either sign agree, and nothing equals an invalid pattern. -/
def equal (f : Format) (a b : Nat) : Bool := f.compare? a b = some .eq

end Format

/-- `m · 2 ^ e` in units of `2 ^ unit`, for `unit ≤ e`. -/
def alignedTo (unit : Int) (m : Nat) (e : Int) : Nat := m <<< (e - unit).toNat

/-- Remainder of the magnitudes `a · 2 ^ p` and `b · 2 ^ q`, in units of `2 ^ min p q`. -/
def remainder (a : Nat) (p : Int) (b : Nat) (q : Int) : Nat :=
  alignedTo (min p q) a p % alignedTo (min p q) b q

/-- Remainder on patterns: invalid for an infinite dividend or a zero divisor. -/
def Format.rem (f : Format) (x y : Nat) : Nat :=
  match f.datum x, f.datum y with
  | .nan, _ | _, .nan | .infinite _, _ => f.quietNan
  | .finite _ _ _, .infinite _ => x
  | .finite neg a p, .finite _ b q =>
    if b = 0 then f.quietNan
    else f.pack neg (remainder a p b q) (min p q)

end ClassMachine.Floating
