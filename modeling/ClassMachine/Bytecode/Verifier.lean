import ClassMachine.Bytecode.StackEffect

/-!
Operand stack verification. The categories on the stack are followed along every edge of control,
also the ones from a guarded instruction to its handlers, and must agree wherever edges meet.
-/
namespace ClassMachine

/-- What is known while a body is verified. -/
structure StackMap where
  /-- Stack before each instruction, once some edge has reached it. -/
  recorded : Array (Option CategoryStack)
  /-- Reached instructions not yet followed, oldest first. -/
  work : List Nat
  deepest : Nat
  deriving DecidableEq, Repr

namespace StackMap

/-- Only the first instruction is reached, with nothing on the stack. -/
def entry (length : Nat) : StackMap :=
  ⟨(Array.replicate length none).setIfInBounds 0 (some []), [0], 0⟩

/-- Follows an edge to `target`. -/
def merge (m : StackMap) (target : Nat) (incoming : CategoryStack) : Except LinkError StackMap :=
  match m.recorded[target]? with
  | some none =>
    .ok { m with recorded := m.recorded.setIfInBounds target (some incoming), work := m.work ++ [target] }
  | some (some existing) =>
    if existing = incoming then .ok m
    else .error (.stackMismatch target existing.depth incoming.depth)
  | none => .ok m

/-- Follows the edges to the handlers that guard the instruction at `index`. -/
def mergeHandlers (m : StackMap) (index : Nat) (handlers : List Handler) :
    Except LinkError StackMap :=
  handlers.foldlM (fun m h => if h.covers index then m.merge h.target [.one] else .ok m) m

/-- Follows a branch from `index`, which must stay inside the body. -/
def mergeBranch (m : StackMap) (length index : Nat) (stack : CategoryStack) (target : Nat) :
    Except LinkError StackMap :=
  if length ≤ target then .error (.brokenFlow index target) else m.merge target stack

/-- Follows every edge out of the instruction at `index`. -/
def follow (code : LinkedCode) (m : StackMap) (index : Nat) (i : Instruction)
    (before : CategoryStack) : Except LinkError StackMap := do
  let m ← m.mergeHandlers index code.handlers
  let after ← i.simulate code.maxLocals index before
  if code.maxStack < after.depth then throw (.stackOverflow index code.maxStack)
  let m := { m with deepest := max m.deepest after.depth }
  let m ← i.branchTargets.foldlM (fun m t => m.mergeBranch code.length index after t) m
  if i.isTerminator then return m
  else if code.length ≤ index + 1 then throw .fallsOffEnd
  else m.merge (index + 1) after

/-- Follows reached instructions until none is left. An instruction is reached once, so `fuel` of
at least the body's length is never used up. -/
def saturate (code : LinkedCode) : Nat → StackMap → Except LinkError StackMap
  | fuel, m =>
    match m.work with
    | [] => .ok m
    | index :: work =>
      match fuel with
      | 0 => .error .emptyCode
      | fuel + 1 =>
        let m := { m with work := work }
        match m.recorded[index]?, code.get? index with
        | some (some before), some i =>
          match m.follow code index i before with
          | .ok m => saturate code fuel m
          | .error e => .error e
        | _, _ => saturate code fuel m

end StackMap

namespace LinkedCode

/-- A handler's range and target must lie inside the body. -/
def checkHandlers (c : LinkedCode) : List Handler → Except LinkError Unit
  | [] => .ok ()
  | h :: rest =>
    if h.stop < h.start ∨ c.length < h.stop ∨ c.length ≤ h.target then
      .error (.brokenFlow h.start h.target)
    else c.checkHandlers rest

/-- Stacks before every reachable instruction and the deepest stack of a body. -/
def stackMap (c : LinkedCode) : Except LinkError StackMap := do
  if c.length = 0 then throw .emptyCode
  c.checkHandlers c.handlers
  StackMap.saturate c c.length (.entry c.length)

/-- Verifies a body and returns the deepest operand stack in slots. -/
def verify (c : LinkedCode) : Except LinkError Nat := c.stackMap.map (·.deepest)

end LinkedCode

end ClassMachine
