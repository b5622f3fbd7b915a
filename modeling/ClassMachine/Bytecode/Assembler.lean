import ClassMachine.Bytecode.Code

/-!
Building raw method bodies with labels. Bytes are appended one instruction at a time; operands that
depend on labels are filled in when the body is finished.
-/
namespace ClassMachine

abbrev Label := Nat

inductive AssemblyError where
  | unboundLabel (label : Label)
  | outOfRange (offset : Nat)
  deriving DecidableEq, Repr

def AssemblyError.message : AssemblyError → String
  | unboundLabel label => s!"label {label} was never bound"
  | outOfRange offset => s!"branch at offset {offset} is out of range"

/-- Big-endian bytes of the low sixteen bits. -/
def bytes16 (n : Int) : List UInt8 := [UInt8.ofInt (n / 256), UInt8.ofInt n]

/-- Big-endian bytes of the low thirty-two bits. -/
def bytes32 (n : Int) : List UInt8 := bytes16 (n / 65536) ++ bytes16 n

@[simp] theorem length_bytes16 (n : Int) : (bytes16 n).length = 2 := rfl

@[simp] theorem length_bytes32 (n : Int) : (bytes32 n).length = 4 := rfl

/-- An operand to fill in: the distance from `base` to a label, in two or four bytes at `position`. -/
structure Fixup where
  wide : Bool
  position : Nat
  base : Nat
  label : Label
  deriving DecidableEq, Repr

structure PendingHandler where
  start : Label
  stop : Label
  target : Label
  catchType : Nat
  deriving DecidableEq, Repr

structure Assembler where
  maxStack : Nat
  maxLocals : Nat
  code : Array UInt8 := #[]
  labels : Array (Option Nat) := #[]
  fixups : Array Fixup := #[]
  handlers : Array PendingHandler := #[]
  deriving Repr

namespace Assembler

def offset (a : Assembler) : Nat := a.code.size

/-- A new label and the assembler that knows it. -/
def label (a : Assembler) : Label × Assembler :=
  (a.labels.size, { a with labels := a.labels.push none })

/-- Puts a label at the current offset; a later binding replaces an earlier one. -/
def bind (a : Assembler) (label : Label) : Assembler :=
  { a with labels := a.labels.setIfInBounds label (some a.offset) }

def raw (a : Assembler) (bytes : List UInt8) : Assembler := { a with code := a.code ++ bytes }

def emit (a : Assembler) (op : UInt8) : Assembler := a.raw [op]

def emitByte (a : Assembler) (op operand : UInt8) : Assembler := a.raw [op, operand]

def emitShort (a : Assembler) (op : UInt8) (operand : Int) : Assembler := a.raw (op :: bytes16 operand)

def increment (a : Assembler) (slot delta : UInt8) : Assembler := a.raw [0x84, slot, delta]

def invokeInterface (a : Assembler) (index : Nat) (slots : UInt8) : Assembler :=
  (a.emitShort 0xb9 index).raw [slots, 0]

def multiNewArray (a : Assembler) (index : Nat) (dims : UInt8) : Assembler :=
  (a.emitShort 0xc5 index).raw [dims]

/-- Leaves four bytes for the distance from `base` to a label. -/
def wideSlot (a : Assembler) (base : Nat) (label : Label) : Assembler :=
  { a.raw [0, 0, 0, 0] with fixups := a.fixups.push ⟨true, a.offset, base, label⟩ }

/-- Leaves two bytes for the distance from `base` to a label. -/
def shortSlot (a : Assembler) (base : Nat) (label : Label) : Assembler :=
  { a.raw [0, 0] with fixups := a.fixups.push ⟨false, a.offset, base, label⟩ }

/-- A branch; only `goto_w` has room for long distances. -/
def branch (a : Assembler) (op : UInt8) (label : Label) : Assembler :=
  let base := a.offset
  let a := a.emit op
  if op = 0xc8 then a.wideSlot base label else a.shortSlot base label

/-- Opcode, padding to a multiple of four, and the default of a switch. -/
def switchHeader (a : Assembler) (op : UInt8) (default : Label) : Assembler :=
  let base := a.offset
  let a := a.emit op
  (a.raw (List.replicate ((4 - a.offset % 4) % 4) 0)).wideSlot base default

/-- Key of the last of so many targets. It is counted in 32 bits, where the key behind it has to have room too. -/
def lastKey (low : Int32) (count : Nat) : Int32 := low + Int32.ofNat count - 1

def tableSwitch (a : Assembler) (low : Int32) (targets : List Label) (default : Label) : Assembler :=
  let base := a.offset
  let a := (a.switchHeader 0xaa default).raw (bytes32 low.toInt ++ bytes32 (lastKey low targets.length).toInt)
  targets.foldl (fun a t => a.wideSlot base t) a

def lookupSwitch (a : Assembler) (pairs : List (Int32 × Label)) (default : Label) : Assembler :=
  let base := a.offset
  let a := (a.switchHeader 0xab default).raw (bytes32 pairs.length)
  pairs.foldl (fun a p => (a.raw (bytes32 p.1.toInt)).wideSlot base p.2) a

def handler (a : Assembler) (start stop target : Label) (catchType : Nat) : Assembler :=
  { a with handlers := a.handlers.push ⟨start, stop, target, catchType⟩ }

def resolve (a : Assembler) (label : Label) : Except AssemblyError Nat :=
  match a.labels[label]? with
  | some (some offset) => .ok offset
  | _ => .error (.unboundLabel label)

/-- Writes bytes over the ones from `position` on. -/
def overwrite (code : Array UInt8) (position : Nat) : List UInt8 → Array UInt8
  | [] => code
  | b :: bs => overwrite (code.setIfInBounds position b) (position + 1) bs

/-- Fills in one operand. A short distance must fit sixteen bits; a wide one is cut to thirty-two. -/
def fill (a : Assembler) (code : Array UInt8) (f : Fixup) : Except AssemblyError (Array UInt8) := do
  let distance : Int := (← a.resolve f.label) - f.base
  if f.wide then return overwrite code f.position (bytes32 distance)
  else if -32768 ≤ distance ∧ distance ≤ 32767 then
    return overwrite code f.position (bytes16 distance)
  else throw (.outOfRange f.base)

/-- Offsets of a handler, cut to sixteen bits. -/
def resolveHandler (a : Assembler) (h : PendingHandler) : Except AssemblyError RawHandler := do
  let start ← a.resolve h.start
  let stop ← a.resolve h.stop
  let target ← a.resolve h.target
  return ⟨start % 65536, stop % 65536, target % 65536, h.catchType⟩

/-- The finished body: operands first, in the order they were left open, then handlers. -/
def finish (a : Assembler) : Except AssemblyError RawCode := do
  let code ← a.fixups.foldlM (fun code f => a.fill code f) a.code
  let handlers ← a.handlers.toList.mapM a.resolveHandler
  return ⟨a.maxStack, a.maxLocals, code, handlers⟩

end Assembler

end ClassMachine
