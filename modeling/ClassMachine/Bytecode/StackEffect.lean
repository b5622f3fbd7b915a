import ClassMachine.Bytecode.Code
import ClassMachine.Bytecode.LinkError

/-!
Effect of instructions on the categories of the operand stack. Stacks are lists with the top first.
-/
namespace ClassMachine

/-- Categories of the operand stack, top first. -/
abbrev CategoryStack := List Category

namespace CategoryStack

/-- Slots a stack takes. -/
def depth (stack : CategoryStack) : Nat := total Category.slots stack

/-- Takes the top entry whatever its category. -/
def popAny (index : Nat) : CategoryStack → Except LinkError (Category × CategoryStack)
  | [] => .error (.underflow index)
  | c :: rest => .ok (c, rest)

/-- Takes a top entry of the expected category. -/
def pop (index : Nat) (expected : Category) (stack : CategoryStack) :
    Except LinkError CategoryStack :=
  match stack with
  | [] => .error (.underflow index)
  | c :: rest => if c = expected then .ok rest else .error (.categoryMismatch index)

/-- Takes entries of the expected categories one after the other. -/
def popAll (index : Nat) : List Category → CategoryStack → Except LinkError CategoryStack
  | [], stack => .ok stack
  | c :: cs, stack =>
    match pop index c stack with
    | .ok rest => popAll index cs rest
    | .error e => .error e

end CategoryStack

open CategoryStack in
/-- Effect of a rearranging instruction, with the categories it insists on. -/
def StackOp.simulate (index : Nat) (op : StackOp) (stack : CategoryStack) :
    Except LinkError CategoryStack :=
  match op with
  | .pop => CategoryStack.pop index .one stack
  | .pop2 => do
    match ← popAny index stack with
    | (.one, rest) => CategoryStack.pop index .one rest
    | (.two, rest) => return rest
  | .dup => do
    let rest ← CategoryStack.pop index .one stack
    return .one :: .one :: rest
  | .dupX1 => do
    let rest ← popAll index [.one, .one] stack
    return .one :: .one :: .one :: rest
  | .dupX2 => do
    let rest ← CategoryStack.pop index .one stack
    match ← popAny index rest with
    | (.two, rest) => return .one :: .two :: .one :: rest
    | (.one, rest) =>
      let rest ← CategoryStack.pop index .one rest
      return .one :: .one :: .one :: .one :: rest
  | .dup2 => do
    match ← popAny index stack with
    | (.two, rest) => return .two :: .two :: rest
    | (.one, rest) =>
      let rest ← CategoryStack.pop index .one rest
      return .one :: .one :: .one :: .one :: rest
  | .dup2X1 => do
    match ← popAny index stack with
    | (.two, rest) =>
      let rest ← CategoryStack.pop index .one rest
      return .two :: .one :: .two :: rest
    | (.one, rest) =>
      let rest ← popAll index [.one, .one] rest
      return .one :: .one :: .one :: .one :: .one :: rest
  | .dup2X2 => do
    match ← popAny index stack with
    | (.two, rest) =>
      match ← popAny index rest with
      | (.two, rest) => return .two :: .two :: .two :: rest
      | (.one, rest) =>
        let rest ← CategoryStack.pop index .one rest
        return .two :: .one :: .one :: .two :: rest
    | (.one, rest) =>
      let rest ← CategoryStack.pop index .one rest
      match ← popAny index rest with
      | (.two, rest) => return .one :: .one :: .two :: .one :: .one :: rest
      | (.one, rest) =>
        let rest ← CategoryStack.pop index .one rest
        return .one :: .one :: .one :: .one :: .one :: .one :: rest
  | .swap => do
    let rest ← popAll index [.one, .one] stack
    return .one :: .one :: rest

namespace Instruction

/-- The local slot an instruction touches, with the category it expects there. -/
def localUse? : Instruction → Option (Nat × Category)
  | load n c | store n c => some (n, c)
  | increment n _ => some (n, .one)
  | _ => none

/-- Categories an instruction takes off the stack, top first; rearranging ones apart. -/
def operands : Instruction → List Category
  | store _ c => [c]
  | arrayLoad _ => [.one, .one]
  | arrayStore kind => [kind.category, .one, .one]
  | arith op type => [if op.isShift then .one else type.category, type.category]
  | neg type => [type.category]
  | convert source _ => [source.category]
  | narrow _ => [.one]
  | compare op => [op.operandCategory, op.operandCategory]
  | ifZero _ _ | ifNull _ _ | tableSwitch _ _ _ | lookupSwitch _ _ => [.one]
  | ifCmp _ _ | ifRefEq _ _ => [.one, .one]
  | returnValue c => [c]
  | putStatic _ _ kind => [kind.category]
  | getField _ _ _ | getFieldSlot _ _ => [.one]
  | putField _ _ kind | putFieldSlot _ kind => [kind.category, .one]
  | invokeStatic _ site => site.params.reverse
  | invokeSpecial _ site | invokeVirtual _ site | invokeInterface _ site =>
    site.params.reverse ++ [.one]
  | invokeVoidNoArgs _ => [.one]
  | newArray _ | newRefArray _ | arrayLength | checkCast _ | instanceOf _ => [.one]
  | multiNewArray _ dims => List.replicate dims .one
  | throw | monitorEnter | monitorExit => [.one]
  | unresolved symbol => symbol.pops.reverse
  | _ => []

/-- Category an instruction leaves on the stack; rearranging ones apart. -/
def result? : Instruction → Option Category
  | pushInt _ | pushFloat _ | pushNull | pushString _ | pushClass _ => some .one
  | pushLong _ | pushDouble _ => some .two
  | load _ c => some c
  | arrayLoad kind => some kind.category
  | arith _ type | neg type => some type.category
  | convert _ target => some target.category
  | narrow _ | compare _ => some .one
  | getStatic _ _ kind | getField _ _ kind | getFieldSlot _ kind => some kind.category
  | invokeStatic _ site | invokeSpecial _ site | invokeVirtual _ site | invokeInterface _ site =>
    site.returns
  | new _ | newArray _ | newRefArray _ | multiNewArray _ _ | arrayLength | checkCast _
  | instanceOf _ => some .one
  | unresolved symbol => symbol.push
  | _ => none

/-- Fails when an instruction touches a slot past the declared locals. -/
def checkLocal (maxLocals index : Nat) (i : Instruction) : Except LinkError Unit :=
  match i.localUse? with
  | some (slot, category) =>
    if maxLocals < slot + category.slots then .error (.badLocal index slot maxLocals) else .ok ()
  | none => .ok ()

/-- Stack after the instruction at `index`. -/
def simulate (maxLocals index : Nat) (i : Instruction) (stack : CategoryStack) :
    Except LinkError CategoryStack :=
  match i with
  | .stack op => op.simulate index stack
  | i => do
    i.checkLocal maxLocals index
    let rest ← CategoryStack.popAll index i.operands stack
    return i.result?.toList ++ rest

end Instruction

end ClassMachine
