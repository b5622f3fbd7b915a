import ClassMachine.Bytecode.Instruction

/-!
Method bodies before and after linking. A raw body addresses bytes and names what it catches by
constant index; a linked body addresses instructions.
-/
namespace ClassMachine

/-- Range of byte offsets guarded by a handler; catch type zero catches everything. -/
structure RawHandler where
  startPc : Nat
  endPc : Nat
  handlerPc : Nat
  catchType : Nat
  deriving DecidableEq, Repr, Inhabited

structure RawCode where
  maxStack : Nat := 0
  maxLocals : Nat := 0
  code : Array UInt8 := #[]
  handlers : List RawHandler := []
  deriving DecidableEq, Repr, Inhabited

inductive CatchType where
  | any
  | type (id : ClassId)
  | unresolved (name : String)
  deriving DecidableEq, Repr, Inhabited

/-- Half-open range of instructions guarded by a handler. -/
structure Handler where
  start : Nat
  stop : Nat
  target : Nat
  catches : CatchType
  deriving DecidableEq, Repr, Inhabited

def Handler.covers (h : Handler) (index : Nat) : Bool := h.start ≤ index && index < h.stop

structure LinkedCode where
  instructions : Array Instruction := #[]
  handlers : List Handler := []
  maxStack : Nat := 0
  maxLocals : Nat := 0
  deriving DecidableEq, Repr, Inhabited

namespace LinkedCode

def length (c : LinkedCode) : Nat := c.instructions.size

def get? (c : LinkedCode) (index : Nat) : Option Instruction := c.instructions[index]?

theorem get?_isSome_iff (c : LinkedCode) (index : Nat) :
    (c.get? index).isSome ↔ index < c.length := by
  simp [get?, length]

end LinkedCode

end ClassMachine
