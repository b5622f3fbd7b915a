import ClassMachine.Bytecode.Instruction
import ClassMachine.Floating.Format

/-!
Arithmetic on operands. Integers wrap at their width, division goes toward zero, and shift distances
are taken modulo the width; floating-point numbers are rounded to nearest.
-/
namespace ClassMachine

namespace ArithOp

/-- Integer arithmetic at width `w`. Dividing by zero has no result. -/
def bits? {w : Nat} (op : ArithOp) (a b : BitVec w) : Option (BitVec w) :=
  match op with
  | add => some (a + b)
  | sub => some (a - b)
  | mul => some (a * b)
  | div => if b = 0 then none else some (a.sdiv b)
  | rem => if b = 0 then none else some (a.srem b)
  | shl => some (a <<< (b.toNat % w))
  | shr => some (a.sshiftRight (b.toNat % w))
  | ushr => some (a >>> (b.toNat % w))
  | and => some (a &&& b)
  | or => some (a ||| b)
  | xor => some (a ^^^ b)

def int? (op : ArithOp) (a b : Int32) : Option Int32 :=
  (op.bits? a.toBitVec b.toBitVec).map Int32.ofBitVec

def long? (op : ArithOp) (a b : Int64) : Option Int64 :=
  (op.bits? a.toBitVec b.toBitVec).map Int64.ofBitVec

/-- Shifts of a long take the distance from an `int`. -/
def longShift (op : ArithOp) (a : Int64) (distance : Int32) : Int64 :=
  let n := distance.toBitVec.toNat % 64
  match op with
  | shl => .ofBitVec (a.toBitVec <<< n)
  | shr => .ofBitVec (a.toBitVec.sshiftRight n)
  | _ => .ofBitVec (a.toBitVec >>> n)

/-- Floating-point arithmetic; operations on bits are invalid. -/
def float (op : ArithOp) (a b : UInt32) : UInt32 :=
  match op with
  | add => (Float32.ofBits a + Float32.ofBits b).toBits
  | sub => (Float32.ofBits a - Float32.ofBits b).toBits
  | mul => (Float32.ofBits a * Float32.ofBits b).toBits
  | div => (Float32.ofBits a / Float32.ofBits b).toBits
  | rem => .ofNat (Floating.single.rem a.toNat b.toNat)
  | _ => .ofNat Floating.single.quietNan

def double (op : ArithOp) (a b : UInt64) : UInt64 :=
  match op with
  | add => (Float.ofBits a + Float.ofBits b).toBits
  | sub => (Float.ofBits a - Float.ofBits b).toBits
  | mul => (Float.ofBits a * Float.ofBits b).toBits
  | div => (Float.ofBits a / Float.ofBits b).toBits
  | rem => .ofNat (Floating.double.rem a.toNat b.toNat)
  | _ => .ofNat Floating.double.quietNan

end ArithOp

/-- Negative, zero or positive. -/
def signOf : Ordering → Int32
  | .lt => -1
  | .eq => 0
  | .gt => 1

def compareLong (a b : Int64) : Int32 := signOf (compare a.toInt b.toInt)

/-- How a pair that is not ordered compares. -/
def CompareOp.bias : CompareOp → Int32
  | floatG | doubleG => 1
  | _ => -1

def CompareOp.floating (op : CompareOp) (format : Floating.Format) (a b : Nat) : Int32 :=
  match format.compare? a b with
  | some o => signOf o
  | none => op.bias

/-- Conversion between number types. Leaving the floating-point numbers rounds toward zero and stops
at the limits of the target. References have no conversion. -/
def Value.convert? (v : Value) (target : NumType) : Option Value :=
  match v, target with
  | .int x, .int => some (.int x)
  | .int x, .long => some (.long x.toInt64)
  | .int x, .float => some (.float x.toFloat32.toBits)
  | .int x, .double => some (.double x.toFloat.toBits)
  | .long x, .int => some (.int x.toInt32)
  | .long x, .long => some (.long x)
  | .long x, .float => some (.float x.toFloat32.toBits)
  | .long x, .double => some (.double x.toFloat.toBits)
  | .float x, .int => some (.int (Float32.ofBits x).toInt32)
  | .float x, .long => some (.long (Float32.ofBits x).toInt64)
  | .float x, .float => some (.float x)
  | .float x, .double => some (.double (Float32.ofBits x).toFloat.toBits)
  | .double x, .int => some (.int (Float.ofBits x).toInt32)
  | .double x, .long => some (.long (Float.ofBits x).toInt64)
  | .double x, .float => some (.float (Float.ofBits x).toFloat32.toBits)
  | .double x, .double => some (.double x)
  | .ref _, _ => none

/-- Entry a search by halving ends at: the one it would find in a table sorted by key. -/
def seekPair (pairs : Array (Int32 × Nat)) (key : Int32) (base size : Nat) : Nat :=
  if size ≤ 1 then base
  else
    let half := size / 2
    let mid := base + half
    seekPair pairs key (if key < (pairs.getD mid (0, 0)).1 then base else mid) (size - half)
termination_by size
decreasing_by omega

/-- Target a lookup switch finds for a key. -/
def lookupTarget (pairs : List (Int32 × Nat)) (default : Nat) (key : Int32) : Nat :=
  let table := pairs.toArray
  match table[seekPair table key 0 table.size]? with
  | some (k, target) => if k = key then target else default
  | none => default

/-- Target a table switch finds for a key. -/
def tableTarget (low : Int32) (targets : List Nat) (default : Nat) (key : Int32) : Nat :=
  let offset := key.toInt - low.toInt
  if offset < 0 then default else targets.getD offset.toNat default

end ClassMachine
