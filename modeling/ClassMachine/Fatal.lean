import ClassMachine.Value

/-!
Failures that no program running on the machine can catch, and the texts they are reported with.
-/
namespace ClassMachine

/-- A state the machine should never reach. -/
inductive Inconsistency where
  | stackUnderflow
  | mistyped (expected : String) (found : Value)
  | localOutOfRange (index : Nat)
  | localNotInt (index : Nat) (found : Value)
  | noActiveFrame
  | returnWithoutFrame
  | pcPastEnd (pc : Nat) (method : MethodId)
  | cannotConvert (value : Value) (target : NumType)
  | noStaticSlot (slot : Nat) (owner : ClassId)
  | unknownMethod (method : MethodId)
  | unknownClass (id : ClassId)
  | unknownThread (thread : ThreadId)
  | deadObject (r : Ref)
  | deadThrown (r : Ref)
  | deadMonitor (r : Ref)
  | monitorCount (thread : ThreadId) (object : Ref) (count saved : UInt32)
  | noDimensions
  | notArrayClass (id : ClassId)
  | nativeNotRegistered (id : NativeId)
  | argumentMissing (index : Nat)
  | classRejected (reason : String)
  deriving DecidableEq, Repr

namespace Inconsistency

def message : Inconsistency → String
  | stackUnderflow => "operand stack underflow"
  | mistyped expected found => s!"expected {expected} on the operand stack, found {found.text}"
  | localOutOfRange index => s!"local {index} out of range"
  | localNotInt index found => s!"local {index} holds {found.text}, expected int"
  | noActiveFrame => "no active frame"
  | returnWithoutFrame => "return with no frame"
  | pcPastEnd pc method => s!"pc {pc} past the end of {method.text}"
  | cannotConvert value target => s!"cannot convert {value.text} to {target.name}"
  | noStaticSlot slot owner => s!"no static slot {slot} in {owner.text}"
  | unknownMethod method =>
    s!"unknown method MethodId \x7b class: ClassId({method.owner}), index: {method.index} \x7d"
  | unknownClass id => s!"unknown class {id.text}"
  | unknownThread thread => s!"unknown thread {thread.text}"
  | deadObject r => s!"{r.text} is not a live object"
  | deadThrown r => s!"thrown object {r.text} is not live"
  | deadMonitor r => s!"monitor on dead object Reference({r.handle})"
  | monitorCount thread object count saved =>
    s!"{thread.text} resumed owning monitor Reference({object.handle}) with count {count} but saved {saved}"
  | noDimensions => "multianewarray with no dimensions"
  | notArrayClass id => s!"{id.text} is not an array class"
  | nativeNotRegistered id => s!"native NativeId({id}) not registered"
  | argumentMissing index => s!"native argument {index} missing"
  | classRejected reason => reason

end Inconsistency

/-- A request the machine refuses as a whole. -/
inductive Misuse where
  | host (detail : String)
  | stuckCall (method : MethodId)
  | notOutOfMemoryError (r : Ref)
  deriving DecidableEq, Repr

namespace Misuse

def message : Misuse → String
  | host detail => detail
  | stuckCall method => s!"synthetic call to {method.text} blocked with nothing to wake it"
  | notOutOfMemoryError r => s!"{r.text} is not an OutOfMemoryError"

end Misuse

/-- An error that stops the machine. -/
inductive Fatal where
  | link (method reason : String)
  | inconsistent (what : Inconsistency)
  | outOfMemory (requested used capacity : Nat)
  | missingSymbol (symbol : String)
  | uncaught (thread : ThreadId) (className : String)
  | invalid (what : Misuse)
  deriving DecidableEq, Repr

namespace Fatal

def message : Fatal → String
  | link method reason => s!"method {method} failed to link: {reason}"
  | inconsistent what => s!"internal consistency violation: {what.message}"
  | outOfMemory requested used capacity =>
    s!"heap exhausted: requested {requested} units with {used}/{capacity} in use"
  | missingSymbol symbol => s!"missing symbol: {symbol}"
  | uncaught thread className => s!"uncaught {className} on {thread.text}"
  | invalid what => s!"invalid engine operation: {what.message}"

end Fatal

end ClassMachine
