import ClassMachine.Value

/-!
Constant pools. Indices start at one, and a long or double takes the index after it as well, so that
operands of raw bytecode index the pool directly.
-/
namespace ClassMachine

/-- A field or method named by class, name and descriptor. -/
structure MemberRef where
  owner : String
  name : String
  descriptor : String
  deriving DecidableEq, Repr, Inhabited

def MemberRef.text (m : MemberRef) : String := s!"{m.owner}.{m.name}:{m.descriptor}"

inductive Constant where
  | unusable
  | utf8 (text : String)
  | integer (v : Int32)
  | float (bits : UInt32)
  | long (v : Int64)
  | double (bits : UInt64)
  | type (name : String)
  | string (text : String)
  | fieldRef (member : MemberRef)
  | methodRef (member : MemberRef)
  | interfaceMethodRef (member : MemberRef)
  deriving DecidableEq, Repr, Inhabited

namespace Constant

def isWide : Constant → Bool
  | long _ | double _ => true
  | _ => false

def tag : Constant → String
  | unusable => "unusable"
  | utf8 _ => "utf8"
  | integer _ => "integer"
  | float _ => "float"
  | long _ => "long"
  | double _ => "double"
  | type _ => "class"
  | string _ => "string"
  | fieldRef _ => "fieldref"
  | methodRef _ => "methodref"
  | interfaceMethodRef _ => "interface methodref"

/-- Equality used for sharing entries: floating-point constants compare as numbers. -/
def same : Constant → Constant → Bool
  | float a, float b => Floating.single.equal a.toNat b.toNat
  | double a, double b => Floating.double.equal a.toNat b.toNat
  | a, b => a = b

end Constant

structure ConstantPool where
  entries : Array Constant
  deriving DecidableEq, Repr

namespace ConstantPool

/-- Index zero names nothing. -/
def empty : ConstantPool := ⟨#[.unusable]⟩

instance : Inhabited ConstantPool := ⟨empty⟩

/-- Indices are written in sixteen bits. -/
def indexLimit : Nat := 65536

/-- Appends an entry and returns its index. -/
def push (p : ConstantPool) (c : Constant) : Nat × ConstantPool :=
  let entries := p.entries.push c
  (p.entries.size % indexLimit, ⟨if c.isWide then entries.push .unusable else entries⟩)

def ofConstants (constants : List Constant) : ConstantPool :=
  constants.foldl (fun p c => (p.push c).2) empty

/-- Position of the first usable entry that `c` may share. -/
def position? (p : ConstantPool) (c : Constant) : Option Nat :=
  ((p.entries.toList.drop 1).findIdx? fun e => e.same c).map (· + 1)

/-- Index of an equal entry, appended when there is none. -/
def intern (p : ConstantPool) (c : Constant) : Nat × ConstantPool :=
  match p.position? c with
  | some index => (index % indexLimit, p)
  | none => p.push c

def get? (p : ConstantPool) (index : Nat) : Option Constant := p.entries[index]?

def size (p : ConstantPool) : Nat := p.entries.size

def isEmpty (p : ConstantPool) : Bool := p.size ≤ 1

/-- The constants that were put in, in order. -/
def constants (p : ConstantPool) : List Constant :=
  (p.entries.toList.drop 1).filter (· ≠ .unusable)

end ConstantPool

end ClassMachine
