import ClassMachine.Value

/-!
Linked instructions. Every payload is resolved: constants carry their value, calls a method or a
signature, branches the index of an instruction. An instruction whose symbol could not be resolved
keeps the stack effect it would have had.
-/
namespace ClassMachine

inductive ArithOp where
  | add
  | sub
  | mul
  | div
  | rem
  | shl
  | shr
  | ushr
  | and
  | or
  | xor
  deriving DecidableEq, Repr, Inhabited

def ArithOp.isShift : ArithOp → Bool
  | shl | shr | ushr => true
  | _ => false

/-- Three-way comparisons; the bias says how a pair that is not ordered compares. -/
inductive CompareOp where
  | long
  | floatL
  | floatG
  | doubleL
  | doubleG
  deriving DecidableEq, Repr, Inhabited

def CompareOp.operandCategory : CompareOp → Category
  | long | doubleL | doubleG => .two
  | floatL | floatG => .one

inductive Cond where
  | eq
  | ne
  | lt
  | ge
  | gt
  | le
  deriving DecidableEq, Repr, Inhabited

def Cond.test (cond : Cond) (a b : Int32) : Bool :=
  match cond with
  | eq => a = b
  | ne => a ≠ b
  | lt => a < b
  | ge => b ≤ a
  | gt => b < a
  | le => a ≤ b

/-- Instructions that only rearrange the operand stack. -/
inductive StackOp where
  | pop
  | pop2
  | dup
  | dupX1
  | dupX2
  | dup2
  | dup2X1
  | dup2X2
  | swap
  deriving DecidableEq, Repr, Inhabited

/-- Categories of the arguments, receiver apart, and of the result. -/
structure CallSite where
  params : List Category
  returns : Option Category
  deriving DecidableEq, Repr, Inhabited

inductive SymbolKind where
  | type
  | method
  | field
  deriving DecidableEq, Repr, Inhabited

def SymbolKind.name : SymbolKind → String
  | type => "Class"
  | method => "Method"
  | field => "Field"

/-- Placeholder for an instruction whose symbol is missing, with its stack effect. -/
structure Unresolved where
  kind : SymbolKind
  symbol : String
  pops : List Category
  push : Option Category
  deriving DecidableEq, Repr, Inhabited

inductive Instruction where
  | nop
  | pushInt (v : Int32)
  | pushLong (v : Int64)
  | pushFloat (bits : UInt32)
  | pushDouble (bits : UInt64)
  | pushNull
  | pushString (text : String)
  | pushClass (id : ClassId)
  | load (index : Nat) (category : Category)
  | store (index : Nat) (category : Category)
  | increment (index : Nat) (delta : Int16)
  | arrayLoad (kind : Kind)
  | arrayStore (kind : Kind)
  | stack (op : StackOp)
  | arith (op : ArithOp) (type : NumType)
  | neg (type : NumType)
  | convert (source target : NumType)
  | narrow (kind : Kind)
  | compare (op : CompareOp)
  | ifZero (cond : Cond) (target : Nat)
  | ifCmp (cond : Cond) (target : Nat)
  | ifRefEq (equal : Bool) (target : Nat)
  | ifNull (null : Bool) (target : Nat)
  | goto (target : Nat)
  | tableSwitch (low : Int32) (targets : List Nat) (default : Nat)
  | lookupSwitch (pairs : List (Int32 × Nat)) (default : Nat)
  | returnVoid
  | returnValue (category : Category)
  | getStatic (owner : ClassId) (slot : Nat) (kind : Kind)
  | putStatic (owner : ClassId) (slot : Nat) (kind : Kind)
  | getField (name descriptor : String) (kind : Kind)
  | putField (name descriptor : String) (kind : Kind)
  | getFieldSlot (slot : Nat) (kind : Kind)
  | putFieldSlot (slot : Nat) (kind : Kind)
  | invokeStatic (method : MethodId) (site : CallSite)
  | invokeSpecial (method : MethodId) (site : CallSite)
  | invokeVirtual (signature : SignatureId) (site : CallSite)
  | invokeInterface (signature : SignatureId) (site : CallSite)
  | invokeVoidNoArgs (signature : SignatureId)
  | new (id : ClassId)
  | newArray (kind : Kind)
  | newRefArray (id : ClassId)
  | multiNewArray (id : ClassId) (dims : Nat)
  | arrayLength
  | throw
  | checkCast (id : ClassId)
  | instanceOf (id : ClassId)
  | monitorEnter
  | monitorExit
  | unresolved (symbol : Unresolved)
  deriving DecidableEq, Repr, Inhabited

namespace Instruction

/-- Instructions control may jump to, the default of a switch last. -/
def branchTargets : Instruction → List Nat
  | ifZero _ t | ifCmp _ t | ifRefEq _ t | ifNull _ t | goto t => [t]
  | tableSwitch _ targets default => targets ++ [default]
  | lookupSwitch pairs default => pairs.map (·.2) ++ [default]
  | _ => []

/-- Whether control never reaches the following instruction from here. -/
def isTerminator : Instruction → Bool
  | goto _ | tableSwitch _ _ _ | lookupSwitch _ _ | returnVoid | returnValue _ | throw => true
  | _ => false

end Instruction

end ClassMachine
