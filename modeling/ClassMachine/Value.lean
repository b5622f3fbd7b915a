import ClassMachine.Kind
import ClassMachine.Floating.Decimal

/-!
Identifiers, object references and operand values. Floating-point values are kept as their bit
patterns, so a stored value is the value read back, bit for bit.
-/
namespace ClassMachine

/-- Position of a class in its class table. -/
abbrev ClassId := Nat

/-- Number of a pair of method name and descriptor. -/
abbrev SignatureId := Nat

abbrev ThreadId := UInt32

/-- Position of a host native in its registry. -/
abbrev NativeId := Nat

/-- A method, by declaring class and position among the methods declared there. -/
structure MethodId where
  owner : ClassId
  index : Nat
  deriving DecidableEq, Repr, Inhabited

def ClassId.text (id : ClassId) : String := s!"class#{id}"

def ThreadId.text (id : ThreadId) : String := s!"thread#{id}"

def MethodId.text (id : MethodId) : String := s!"method#{id.owner}.{id.index}"

/-- Reference to a heap object; handle zero is null. -/
structure Ref where
  handle : UInt32
  deriving DecidableEq, Repr, Inhabited

namespace Ref

def null : Ref := ⟨0⟩

def isNull (r : Ref) : Bool := r.handle == 0

def nonNull? (r : Ref) : Option Ref := if r.isNull then none else some r

def text (r : Ref) : String := if r.isNull then "null" else s!"@{r.handle}"

@[simp] theorem isNull_null : null.isNull = true := rfl

end Ref

/-- An entry of the operand stack, a local slot, a field or an array element. -/
inductive Value where
  | int (v : Int32)
  | long (v : Int64)
  | float (bits : UInt32)
  | double (bits : UInt64)
  | ref (r : Ref)
  deriving DecidableEq, Repr

namespace Value

instance : Inhabited Value := ⟨.int 0⟩

def null : Value := .ref .null

def zeroOf : Kind → Value
  | .long => .long 0
  | .float => .float 0
  | .double => .double 0
  | .reference => null
  | _ => .int 0

def category : Value → Category
  | .long _ | .double _ => .two
  | _ => .one

@[simp] theorem category_zeroOf (k : Kind) : (zeroOf k).category = k.category := by cases k <;> rfl

def int? : Value → Option Int32
  | .int v => some v
  | _ => none

def long? : Value → Option Int64
  | .long v => some v
  | _ => none

def float? : Value → Option UInt32
  | .float b => some b
  | _ => none

def double? : Value → Option UInt64
  | .double b => some b
  | _ => none

def ref? : Value → Option Ref
  | .ref r => some r
  | _ => none

/-- The reference in a value, null for a value of another type. -/
def refOrNull (v : Value) : Ref := v.ref?.getD .null

def isNull : Value → Bool
  | .ref r => r.isNull
  | _ => false

/-- Cuts an `int` down to a narrower kind; other values and kinds are left alone. -/
def narrowTo (value : Value) (kind : Kind) : Value :=
  match value, kind with
  | .int v, .boolean => .int (v &&& 1)
  | .int v, .byte => .int v.toInt8.toInt32
  | .int v, .char => .int (v &&& 0xffff)
  | .int v, .short => .int v.toInt16.toInt32
  | other, _ => other

@[simp] theorem category_narrowTo (v : Value) (k : Kind) :
    (v.narrowTo k).category = v.category := by
  cases v <;> cases k <;> rfl

def text : Value → String
  | .int v => toString v.toInt
  | .long v => toString v.toInt ++ "L"
  | .float b => Floating.single.text b.toNat ++ "f"
  | .double b => Floating.double.text b.toNat ++ "d"
  | .ref r => r.text

/-- The references among some values, null ones left out. -/
def liveRefs (values : List Value) : List Ref :=
  values.filterMap fun v => v.ref?.bind Ref.nonNull?

end Value

end ClassMachine
