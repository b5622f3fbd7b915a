/-!
The raw instruction set: for each opcode byte its mnemonic and, when it is fixed, the length of the
instruction it starts.
-/
namespace ClassMachine

/-- A run of consecutive opcodes that share mnemonic and length. -/
structure OpcodeRange where
  first : Nat
  last : Nat
  mnemonic : String
  length? : Option Nat
  deriving DecidableEq, Repr

namespace Opcode

/-- Every assigned opcode, in ascending order. Switches and `wide` have no fixed length. -/
def ranges : List OpcodeRange := [
  ⟨0x00, 0x00, "nop", some 1⟩, ⟨0x01, 0x01, "aconst_null", some 1⟩, ⟨0x02, 0x08, "iconst", some 1⟩,
  ⟨0x09, 0x0a, "lconst", some 1⟩, ⟨0x0b, 0x0d, "fconst", some 1⟩, ⟨0x0e, 0x0f, "dconst", some 1⟩,
  ⟨0x10, 0x10, "bipush", some 2⟩, ⟨0x11, 0x11, "sipush", some 3⟩, ⟨0x12, 0x12, "ldc", some 2⟩,
  ⟨0x13, 0x14, "ldc", some 3⟩, ⟨0x15, 0x19, "load", some 2⟩, ⟨0x1a, 0x2d, "load", some 1⟩,
  ⟨0x2e, 0x35, "arrayload", some 1⟩, ⟨0x36, 0x3a, "store", some 2⟩, ⟨0x3b, 0x4e, "store", some 1⟩,
  ⟨0x4f, 0x56, "arraystore", some 1⟩, ⟨0x57, 0x5f, "stack", some 1⟩, ⟨0x60, 0x83, "arith", some 1⟩,
  ⟨0x84, 0x84, "iinc", some 3⟩, ⟨0x85, 0x93, "convert", some 1⟩, ⟨0x94, 0x98, "compare", some 1⟩,
  ⟨0x99, 0xa6, "if", some 3⟩, ⟨0xa7, 0xa7, "goto", some 3⟩, ⟨0xa8, 0xa8, "jsr", some 3⟩,
  ⟨0xa9, 0xa9, "ret", some 2⟩, ⟨0xaa, 0xaa, "tableswitch", none⟩, ⟨0xab, 0xab, "lookupswitch", none⟩,
  ⟨0xac, 0xb1, "return", some 1⟩, ⟨0xb2, 0xb2, "getstatic", some 3⟩,
  ⟨0xb3, 0xb3, "putstatic", some 3⟩, ⟨0xb4, 0xb4, "getfield", some 3⟩,
  ⟨0xb5, 0xb5, "putfield", some 3⟩, ⟨0xb6, 0xb6, "invokevirtual", some 3⟩,
  ⟨0xb7, 0xb7, "invokespecial", some 3⟩, ⟨0xb8, 0xb8, "invokestatic", some 3⟩,
  ⟨0xb9, 0xb9, "invokeinterface", some 5⟩, ⟨0xba, 0xba, "invokedynamic", some 5⟩,
  ⟨0xbb, 0xbb, "new", some 3⟩, ⟨0xbc, 0xbc, "newarray", some 2⟩, ⟨0xbd, 0xbd, "anewarray", some 3⟩,
  ⟨0xbe, 0xbe, "arraylength", some 1⟩, ⟨0xbf, 0xbf, "athrow", some 1⟩,
  ⟨0xc0, 0xc0, "checkcast", some 3⟩, ⟨0xc1, 0xc1, "instanceof", some 3⟩,
  ⟨0xc2, 0xc2, "monitorenter", some 1⟩, ⟨0xc3, 0xc3, "monitorexit", some 1⟩,
  ⟨0xc4, 0xc4, "wide", none⟩, ⟨0xc5, 0xc5, "multianewarray", some 4⟩, ⟨0xc6, 0xc7, "if", some 3⟩,
  ⟨0xc8, 0xc8, "goto", some 5⟩, ⟨0xc9, 0xc9, "jsr", some 5⟩]

def range? (op : UInt8) : Option OpcodeRange :=
  ranges.find? fun r => r.first ≤ op.toNat && op.toNat ≤ r.last

def fixedLength? (op : UInt8) : Option Nat := (range? op).bind (·.length?)

def mnemonic (op : UInt8) : String := ((range? op).map (·.mnemonic)).getD "invalid"

/-- An instruction is never empty. -/
theorem fixedLength?_pos {op : UInt8} {n : Nat} (h : fixedLength? op = some n) : 0 < n := by
  have all : ∀ r ∈ ranges, ∀ k, r.length? = some k → 0 < k := by decide
  unfold fixedLength? range? at h
  obtain ⟨r, hr, hk⟩ := Option.bind_eq_some_iff.1 h
  exact all r (List.mem_of_find?_eq_some hr) n hk

end Opcode

end ClassMachine
