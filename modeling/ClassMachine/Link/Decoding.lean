import ClassMachine.Bytecode.Code
import ClassMachine.Bytecode.LinkError
import ClassMachine.Bytecode.Opcode

/-!
Decoding of raw bodies. A first pass splits the bytes into instructions; a second reads each one
and turns byte distances into instruction indices. Operands that name constants are left as indices,
so decoding depends on the bytes alone.
-/
namespace ClassMachine

inductive InvokeKind where
  | virtual
  | special
  | static
  | interface
  deriving DecidableEq, Repr, Inhabited

/-- Instructions whose operand is a class. -/
inductive ClassUse where
  | new
  | newRefArray
  | multiNewArray (dims : Nat)
  | checkCast
  | instanceOf
  deriving DecidableEq, Repr, Inhabited

/-- A decoded instruction: complete, or still to be resolved through a constant. -/
inductive Operation where
  | plain (i : Instruction)
  | loadConstant (index : Nat) (wide : Bool)
  | staticField (index : Nat) (put : Bool)
  | instanceField (index : Nat) (put : Bool)
  | invoke (kind : InvokeKind) (index : Nat)
  | classUse (use : ClassUse) (index : Nat)
  deriving DecidableEq, Repr, Inhabited

namespace Bytes

/-- The byte at an offset. A read outside the body is a failure of its own. -/
def byteAt (code : Array UInt8) (i : Nat) : Except LinkError UInt8 :=
  match code[i]? with
  | some b => .ok b
  | none => .error (.outside i)

def natAt (code : Array UInt8) (i : Nat) : Except LinkError Nat := do
  return (← byteAt code i).toNat

def word16 (code : Array UInt8) (i : Nat) : Except LinkError Nat := do
  return (← natAt code i) * 256 + (← natAt code (i + 1))

def signed8 (code : Array UInt8) (i : Nat) : Except LinkError Int := do
  return ((← natAt code i) : Int).bmod 256

def signed16 (code : Array UInt8) (i : Nat) : Except LinkError Int := do
  return ((← word16 code i) : Int).bmod 65536

def signed32 (code : Array UInt8) (i : Nat) : Except LinkError Int := do
  return (((← word16 code i) * 65536 + (← word16 code (i + 2)) : Nat) : Int).bmod 4294967296

end Bytes

namespace Decoding
open Bytes

/-- Offset of the first aligned operand of a switch. -/
def switchBase (pc : Nat) : Nat := (pc + 4) / 4 * 4

def emptyRange (low high : Int) : String := s!"tableswitch range {low}..{high} is empty"

/-- Length of the table switch at `pc`, before it is compared with the body. -/
def tableLength (code : Array UInt8) (pc : Nat) : Except LinkError Nat := do
  let base := switchBase pc
  if code.size < base + 12 then throw (.truncated pc)
  else
    let low ← signed32 code (base + 4)
    let high ← signed32 code (base + 8)
    if high < low then throw (.badConstant pc 0 (emptyRange low high))
    else return base + 12 + 4 * (high - low + 1).toNat - pc

def lookupLength (code : Array UInt8) (pc : Nat) : Except LinkError Nat := do
  let base := switchBase pc
  if code.size < base + 8 then throw (.truncated pc)
  else
    let pairs ← signed32 code (base + 4)
    if pairs < 0 then throw (.badConstant pc 0 "negative lookupswitch pair count")
    else return base + 8 + 8 * pairs.toNat - pc

/-- Length of an instruction behind the prefix for wide operands. -/
def wideLength? (inner : Nat) : Option Nat :=
  if inner = 0x84 then some 6
  else if (0x15 ≤ inner ∧ inner ≤ 0x19) ∨ (0x36 ≤ inner ∧ inner ≤ 0x3a) ∨ inner = 0xa9 then some 4
  else none

def wideLength (code : Array UInt8) (pc : Nat) : Except LinkError Nat :=
  match code[pc + 1]? with
  | none => .error (.truncated pc)
  | some inner =>
    match wideLength? inner.toNat with
    | some n => .ok n
    | none => .error (.invalidOpcode (pc + 1) inner)

/-- Length of the switch or prefixed instruction that `op` starts at `pc`. -/
def variableLength (code : Array UInt8) (pc : Nat) (op : UInt8) : Except LinkError Nat :=
  match op with
  | 0xaa => tableLength code pc
  | 0xab => lookupLength code pc
  | 0xc4 => wideLength code pc
  | op => .error (.invalidOpcode pc op)

/-- Length of the instruction that `op` starts at `pc`: fixed by the opcode or read off its operands. -/
def claimedLength (code : Array UInt8) (pc : Nat) (op : UInt8) : Except LinkError Nat :=
  match Opcode.fixedLength? op with
  | some n => .ok n
  | none => variableLength code pc op

/-- Length of the instruction at `pc`, which must end inside the body. -/
def instructionLength (code : Array UInt8) (pc : Nat) : Except LinkError Nat := do
  let op ← byteAt code pc
  let length ← claimedLength code pc op
  if code.size < pc + length then throw (.truncated pc) else return length

/-- Offsets at which instructions start, from `pc` on. Instructions are not empty, so the body's
length is enough fuel. -/
def startsFrom (code : Array UInt8) : Nat → Nat → Except LinkError (List Nat)
  | 0, _ => .ok []
  | fuel + 1, pc =>
    if code.size ≤ pc then .ok []
    else do
      let length ← instructionLength code pc
      return pc :: (← startsFrom code fuel (pc + length))

def starts (code : Array UInt8) : Except LinkError (List Nat) := startsFrom code code.size 0

/-- Index of the instruction at each offset; the end of the body counts as one more. -/
def boundaries (size : Nat) (starts : List Nat) : Array (Option Nat) :=
  (starts ++ [size]).zipIdx.foldl (fun b (pc, index) => b.setIfInBounds pc (some index))
    (Array.replicate (size + 1) none)

/-- A body split into instructions. -/
structure Body where
  code : Array UInt8
  boundaries : Array (Option Nat)

namespace Body

/-- A body whose instructions start at the given offsets. -/
def ofStarts (code : Array UInt8) (starts : List Nat) : Body :=
  ⟨code, Decoding.boundaries code.size starts⟩

/-- Instruction at a signed distance from the one at `pc`. -/
def target (b : Body) (pc : Nat) (distance : Int) : Except LinkError Nat :=
  let offset : Int := pc + distance
  if offset < 0 ∨ b.code.size ≤ offset then .error (.brokenFlow pc offset)
  else
    match b.boundaries[offset.toNat]? with
    | some (some index) => .ok index
    | some none => .error (.brokenFlow pc offset)
    | none => .error (.outside offset.toNat)

/-- Instruction at an offset of a handler's range, which may be the end of the body. -/
def handlerIndex (b : Body) (h : RawHandler) (offset : Nat) (allowEnd : Bool) :
    Except LinkError Nat :=
  match b.boundaries[offset]? with
  | some (some index) =>
    if offset < b.code.size ∨ (allowEnd ∧ offset = b.code.size) then .ok index
    else .error (.brokenFlow h.startPc offset)
  | _ => .error (.brokenFlow h.startPc offset)

end Body

def numTypes : List NumType := [.int, .long, .float, .double]

def numType (n : Nat) : NumType := numTypes.getD n .int

def cond (n : Nat) : Cond := [Cond.eq, .ne, .lt, .ge, .gt, .le].getD n .eq

/-- Loads and stores come in the order int, long, float, double, reference. -/
def localCategory (n : Nat) : Category := [Category.one, .two, .one, .two, .one].getD n .one

def arrayKind (n : Nat) : Kind :=
  [Kind.int, .long, .float, .double, .reference, .byte, .char, .short].getD n .int

def stackOp (n : Nat) : StackOp :=
  [StackOp.pop, .pop2, .dup, .dupX1, .dupX2, .dup2, .dup2X1, .dup2X2, .swap].getD n .pop

def compareOp (n : Nat) : CompareOp :=
  [CompareOp.long, .floatL, .floatG, .doubleL, .doubleG].getD n .long

def narrowKind (n : Nat) : Kind := [Kind.byte, .char, .short].getD n .byte

/-- Target of the `n`-th conversion from a type: the other types in order. -/
def convertTarget (source : NumType) (n : Nat) : NumType :=
  (numTypes.filter (· ≠ source)).getD n .int

def invokeKind (n : Nat) : InvokeKind :=
  [InvokeKind.virtual, .special, .static, .interface].getD n .virtual

/-- Bits of the float constants zero, one and two. -/
def floatConstant (n : Nat) : UInt32 := [(0 : UInt32), 0x3f800000, 0x40000000].getD n 0

/-- Bits of the double constants zero and one. -/
def doubleConstant (n : Nat) : UInt64 := [(0 : UInt64), 0x3ff0000000000000].getD n 0

def tableTargets (b : Body) (pc base : Nat) : Nat → Nat → Except LinkError (List Nat)
  | 0, _ => .ok []
  | count + 1, i => do
    let t ← b.target pc (← signed32 b.code (base + 12 + 4 * i))
    return t :: (← tableTargets b pc base count (i + 1))

def lookupPairs (b : Body) (pc base : Nat) : Nat → Nat → Except LinkError (List (Int32 × Nat))
  | 0, _ => .ok []
  | count + 1, i => do
    let key ← signed32 b.code (base + 8 + 8 * i)
    let t ← b.target pc (← signed32 b.code (base + 8 + 8 * i + 4))
    return (Int32.ofInt key, t) :: (← lookupPairs b pc base count (i + 1))

def tableSwitch (b : Body) (pc : Nat) : Except LinkError Instruction := do
  let base := switchBase pc
  let default ← b.target pc (← signed32 b.code base)
  let low ← signed32 b.code (base + 4)
  let high ← signed32 b.code (base + 8)
  let targets ← tableTargets b pc base (high - low + 1).toNat 0
  return .tableSwitch (Int32.ofInt low) targets default

def lookupSwitch (b : Body) (pc : Nat) : Except LinkError Instruction := do
  let base := switchBase pc
  let default ← b.target pc (← signed32 b.code base)
  let count ← signed32 b.code (base + 4)
  let pairs ← lookupPairs b pc base count.toNat 0
  return .lookupSwitch pairs default

/-- An instruction with a sixteen-bit local index. -/
def wide (b : Body) (pc : Nat) : Except LinkError Instruction := do
  let inner ← byteAt b.code (pc + 1)
  let n := inner.toNat
  let index ← word16 b.code (pc + 2)
  if n = 0x84 then return .increment index (Int16.ofInt (← signed16 b.code (pc + 4)))
  else if 0x15 ≤ n ∧ n ≤ 0x19 then return .load index (localCategory (n - 0x15))
  else if 0x36 ≤ n ∧ n ≤ 0x3a then return .store index (localCategory (n - 0x36))
  else throw (.unsupported pc (Opcode.mnemonic inner))

/-- Constants, loads, stores and stack instructions: opcodes below the arithmetic ones. -/
def simple (code : Array UInt8) (pc n : Nat) : Except LinkError Operation := do
  if n = 0x00 then return .plain .nop
  else if n = 0x01 then return .plain .pushNull
  else if n ≤ 0x08 then return .plain (.pushInt (Int32.ofInt (n - 3)))
  else if n ≤ 0x0a then return .plain (.pushLong (Int64.ofInt (n - 9)))
  else if n ≤ 0x0d then return .plain (.pushFloat (floatConstant (n - 0x0b)))
  else if n ≤ 0x0f then return .plain (.pushDouble (doubleConstant (n - 0x0e)))
  else if n = 0x10 then return .plain (.pushInt (Int32.ofInt (← signed8 code (pc + 1))))
  else if n = 0x11 then return .plain (.pushInt (Int32.ofInt (← signed16 code (pc + 1))))
  else if n = 0x12 then return .loadConstant (← natAt code (pc + 1)) false
  else if n = 0x13 then return .loadConstant (← word16 code (pc + 1)) false
  else if n = 0x14 then return .loadConstant (← word16 code (pc + 1)) true
  else if n ≤ 0x19 then return .plain (.load (← natAt code (pc + 1)) (localCategory (n - 0x15)))
  else if n ≤ 0x2d then return .plain (.load ((n - 0x1a) % 4) (localCategory ((n - 0x1a) / 4)))
  else if n ≤ 0x35 then return .plain (.arrayLoad (arrayKind (n - 0x2e)))
  else if n ≤ 0x3a then return .plain (.store (← natAt code (pc + 1)) (localCategory (n - 0x36)))
  else if n ≤ 0x4e then return .plain (.store ((n - 0x3b) % 4) (localCategory ((n - 0x3b) / 4)))
  else if n ≤ 0x56 then return .plain (.arrayStore (arrayKind (n - 0x4f)))
  else return .plain (.stack (stackOp (n - 0x57)))

/-- Arithmetic, conversions and comparisons. -/
def numeric (code : Array UInt8) (pc n : Nat) : Except LinkError Instruction := do
  if n ≤ 0x73 then
    return .arith ([ArithOp.add, .sub, .mul, .div, .rem].getD ((n - 0x60) / 4) .add)
      (numType ((n - 0x60) % 4))
  else if n ≤ 0x77 then return .neg (numType (n - 0x74))
  else if n ≤ 0x7d then
    return .arith ([ArithOp.shl, .shr, .ushr].getD ((n - 0x78) / 2) .shl) (numType ((n - 0x78) % 2))
  else if n ≤ 0x83 then
    return .arith ([ArithOp.and, .or, .xor].getD ((n - 0x7e) / 2) .and) (numType ((n - 0x7e) % 2))
  else if n = 0x84 then
    return .increment (← natAt code (pc + 1)) (Int16.ofInt (← signed8 code (pc + 2)))
  else if n ≤ 0x90 then
    let source := numType ((n - 0x85) / 3)
    return .convert source (convertTarget source ((n - 0x85) % 3))
  else if n ≤ 0x93 then return .narrow (narrowKind (n - 0x91))
  else return .compare (compareOp (n - 0x94))

/-- The instruction at a distance of sixteen bits, which stand after the opcode at `pc`. -/
def shortTarget (b : Body) (pc : Nat) : Except LinkError Nat := do
  b.target pc (← signed16 b.code (pc + 1))

/-- Branches, switches and returns. -/
def flow (b : Body) (pc n : Nat) : Except LinkError Instruction := do
  if n ≤ 0x9e then return .ifZero (cond (n - 0x99)) (← shortTarget b pc)
  else if n ≤ 0xa4 then return .ifCmp (cond (n - 0x9f)) (← shortTarget b pc)
  else if n ≤ 0xa6 then return .ifRefEq (n == 0xa5) (← shortTarget b pc)
  else if n = 0xa7 then return .goto (← shortTarget b pc)
  else if n = 0xaa then tableSwitch b pc
  else if n = 0xab then lookupSwitch b pc
  else if n = 0xac ∨ n = 0xae ∨ n = 0xb0 then return .returnValue .one
  else if n = 0xad ∨ n = 0xaf then return .returnValue .two
  else return .returnVoid

/-- Instructions that name a field, a method or a class, and those on objects and arrays. -/
def symbolic (code : Array UInt8) (pc n : Nat) : Except LinkError Operation := do
  let index := word16 code (pc + 1)
  if n = 0xb2 then return .staticField (← index) false
  else if n = 0xb3 then return .staticField (← index) true
  else if n = 0xb4 then return .instanceField (← index) false
  else if n = 0xb5 then return .instanceField (← index) true
  else if n ≤ 0xb9 then return .invoke (invokeKind (n - 0xb6)) (← index)
  else if n = 0xbb then return .classUse .new (← index)
  else if n = 0xbc then
    let type ← byteAt code (pc + 1)
    match Kind.ofArrayCode? type with
    | some kind => return .plain (.newArray kind)
    | none => throw (.badConstant pc type.toNat "invalid newarray type code")
  else if n = 0xbd then return .classUse .newRefArray (← index)
  else if n = 0xbe then return .plain .arrayLength
  else if n = 0xbf then return .plain .throw
  else if n = 0xc0 then return .classUse .checkCast (← index)
  else if n = 0xc1 then return .classUse .instanceOf (← index)
  else if n = 0xc2 then return .plain .monitorEnter
  else return .plain .monitorExit

/-- The instruction at `pc`. -/
def operation (b : Body) (pc : Nat) : Except LinkError Operation := do
  let code := b.code
  let op ← byteAt code pc
  let n := op.toNat
  if n = 0xa8 ∨ n = 0xa9 ∨ n = 0xba ∨ n = 0xc9 then throw (.unsupported pc (Opcode.mnemonic op))
  else if n ≤ 0x5f then simple code pc n
  else if n ≤ 0x98 then return .plain (← numeric code pc n)
  else if n ≤ 0xb1 then return .plain (← flow b pc n)
  else if n ≤ 0xc3 then symbolic code pc n
  else if n = 0xc4 then return .plain (← wide b pc)
  else if n = 0xc5 then
    let dims ← natAt code (pc + 3)
    let index ← word16 code (pc + 1)
    if dims = 0 then throw (.badConstant pc index "multianewarray with zero dimensions")
    else return .classUse (.multiNewArray dims) index
  else if n ≤ 0xc7 then return .plain (.ifNull (n == 0xc6) (← shortTarget b pc))
  else if n = 0xc8 then return .plain (.goto (← b.target pc (← signed32 code (pc + 1))))
  else throw (.invalidOpcode pc op)

end Decoding

end ClassMachine
