import ClassMachine.Hex

/-!
Reasons a method body cannot be linked.
-/
namespace ClassMachine

inductive LinkError where
  | brokenFlow (offset : Nat) (target : Int)
  | stackMismatch (index expected found : Nat)
  | underflow (index : Nat)
  | categoryMismatch (index : Nat)
  | stackOverflow (index maxStack : Nat)
  | badLocal (index slot maxLocals : Nat)
  | fallsOffEnd
  | truncated (offset : Nat)
  | invalidOpcode (offset : Nat) (opcode : UInt8)
  | unsupported (offset : Nat) (mnemonic : String)
  | badConstant (offset index : Nat) (reason : String)
  | emptyCode
  /-- A read where there is nothing to read. Decoding never comes to it. -/
  | outside (offset : Nat)
  deriving DecidableEq, Repr

def LinkError.message : LinkError → String
  | brokenFlow offset target =>
    s!"broken flow: branch at offset {offset} targets offset {target}, which is not an instruction boundary"
  | stackMismatch index expected found =>
    s!"stack mismatch at instruction {index}: depth {expected} vs {found}"
  | underflow index => s!"operand stack underflow at instruction {index}"
  | categoryMismatch index => s!"operand category mismatch at instruction {index}"
  | stackOverflow index maxStack =>
    s!"operand stack exceeds max_stack {maxStack} at instruction {index}"
  | badLocal index slot maxLocals =>
    s!"local {slot} out of range (max_locals {maxLocals}) at instruction {index}"
  | fallsOffEnd => "control falls off the end of the code"
  | truncated offset => s!"truncated instruction at offset {offset}"
  | invalidOpcode offset opcode => s!"invalid opcode 0x{hexByte opcode} at offset {offset}"
  | unsupported offset mnemonic => s!"unsupported instruction {mnemonic} at offset {offset}"
  | badConstant offset index reason => s!"bad constant #{index} at offset {offset}: {reason}"
  | emptyCode => "empty code"
  | outside offset => s!"read outside the code at offset {offset}"

end ClassMachine
