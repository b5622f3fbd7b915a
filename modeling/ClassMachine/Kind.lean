/-!
Kinds of fields and array elements, and the stack categories they load as. A kind fixes the
descriptor character, the accounting weight and the number of slots of a value.
-/
namespace ClassMachine

/-- Width of a value on the operand stack and in the locals. -/
inductive Category where
  | one
  | two
  deriving DecidableEq, Repr, Inhabited

namespace Category

def slots : Category → Nat
  | one => 1
  | two => 2

@[simp] theorem slots_pos (c : Category) : 0 < c.slots := by cases c <;> decide

end Category

/-- Declared kind of a field, parameter or array element. -/
inductive Kind where
  | boolean
  | byte
  | char
  | short
  | int
  | long
  | float
  | double
  | reference
  deriving DecidableEq, Repr, Inhabited

namespace Kind

def ofDescriptorChar? : Char → Option Kind
  | 'Z' => some boolean
  | 'B' => some byte
  | 'C' => some char
  | 'S' => some short
  | 'I' => some int
  | 'J' => some long
  | 'F' => some float
  | 'D' => some double
  | 'L' => some reference
  | '[' => some reference
  | _ => none

/-- Operand of the `newarray` instruction. -/
def ofArrayCode? : UInt8 → Option Kind
  | 4 => some boolean
  | 5 => some char
  | 6 => some float
  | 7 => some double
  | 8 => some byte
  | 9 => some short
  | 10 => some int
  | 11 => some long
  | _ => none

def descriptorChar : Kind → Char
  | boolean => 'Z'
  | byte => 'B'
  | char => 'C'
  | short => 'S'
  | int => 'I'
  | long => 'J'
  | float => 'F'
  | double => 'D'
  | reference => 'L'

@[simp] theorem ofDescriptorChar?_descriptorChar (k : Kind) :
    ofDescriptorChar? k.descriptorChar = some k := by cases k <;> rfl

/-- Accounting units of one stored element of this kind. -/
def weight : Kind → Nat
  | boolean | byte => 1
  | char | short => 2
  | int | float | reference => 4
  | long | double => 8

def category : Kind → Category
  | long | double => .two
  | _ => .one

def isReference (k : Kind) : Bool := k = reference

def name : Kind → String
  | boolean => "boolean"
  | byte => "byte"
  | char => "char"
  | short => "short"
  | int => "int"
  | long => "long"
  | float => "float"
  | double => "double"
  | reference => "reference"

end Kind

/-- The four types arithmetic instructions work on. -/
inductive NumType where
  | int
  | long
  | float
  | double
  deriving DecidableEq, Repr, Inhabited

namespace NumType

def category : NumType → Category
  | long | double => .two
  | _ => .one

def name : NumType → String
  | int => "Int"
  | long => "Long"
  | float => "Float"
  | double => "Double"

end NumType

/-- Sum of the numbers a function gives to the members of a list. -/
def total {α : Type} (size : α → Nat) (xs : List α) : Nat := xs.foldr (fun x n => size x + n) 0

@[simp] theorem total_nil {α : Type} (size : α → Nat) : total size [] = 0 := rfl

@[simp] theorem total_cons {α : Type} (size : α → Nat) (x : α) (xs : List α) :
    total size (x :: xs) = size x + total size xs := rfl

@[simp] theorem total_append {α : Type} (size : α → Nat) (xs ys : List α) :
    total size (xs ++ ys) = total size xs + total size ys := by
  induction xs with
  | nil => simp
  | cons x xs ih => simp [ih, Nat.add_assoc]

/-- Accounting units of every object's header. -/
def headerWeight : Nat := 8

end ClassMachine
