import ClassMachine.Machine.Builtins
import ClassMachine.Machine.HostCall

/-!
Calling methods and returning from them. A call of bytecode puts a frame in front; a native runs to
its end at once.
-/
namespace ClassMachine

/-- How a thread goes on after an instruction. -/
inductive Flow where
  | next
  /-- The slice ends here. -/
  | pause
  /-- The last frame has returned. -/
  | finished (v : Option Value)
  deriving DecidableEq, Repr, Inhabited

namespace Machine

/-- Hands a result to the caller, or ends the thread when there is none. -/
def deliver (result : Option Value) : MachineM Flow := do
  match (← get).active with
  | [] => return .finished result
  | _ :: _ =>
    match result with
    | some v => push v
    | none => pure ()
    return .next

/-- Runs what a native method is bound to. -/
def runNative (k : Nested) (thread : ThreadId) (m : Method) (args : List Value) :
    NativeBinding → MachineM (Option Value)
  | .builtin b => callBuiltin k thread args b
  | .host id => do
    match (← get).natives.get? id with
    | none => inconsistent (.nativeNotRegistered id)
    | some native => pinning (Value.liveRefs args) (callHost thread args native)
  | .unbound => raise CoreName.unsatisfiedLink (some m.text)

/-- Whether the thread is to stop after a native: it yielded, or it is parked. -/
def takePause (thread : ThreadId) : MachineM Bool := fun m =>
  let parked := ((m.scheduler.get? thread).map Thread.isDetached).getD true
  .ok (m.yieldRequested || parked) { m with yieldRequested := false }

def callNative (k : Nested) (thread : ThreadId) (m : Method) (args : List Value) :
    MachineM Flow := do
  let find := (← get).natives.find?
  let binding ← onLinker (Linker.bindNative find m.id)
  let result ← runNative k thread m args (binding.getD .unbound)
  let paused ← takePause thread
  match ← deliver result with
  | .next => return if paused then .pause else .next
  | flow => return flow

/-- Takes the frame in front back when `x` traps. -/
def orPopFrame {α : Type} (x : MachineM α) : MachineM α := fun m =>
  match x m with
  | .ok a m => .ok a m
  | .error e m => .error e { m with active := m.active.tail }

/-- Enters the monitor of a synchronized method whose frame is in front. -/
def enterMonitor (thread : ThreadId) (object : Ref) : MachineM Flow := do
  match ← onSync (Sync.enter thread object) with
  | .ok outcome =>
    onTop (modify fun f => { f with monitor := some object })
    return match outcome with
      | .acquired => .next
      | .blocked => .pause
  | .error e =>
    popFrame
    raiseSync e

/-- Puts the frame of a call in front. -/
def pushFrame (f : Frame) : MachineM Unit := modify fun m => { m with active := f :: m.active }

def callBytecode (thread : ThreadId) (m : Method) (args : List Value) : MachineM Flow := do
  match ← onLinker (Linker.link m.id) with
  | .error e => fatal (.link m.text e.message)
  | .ok code =>
    let machine ← get
    if machine.config.maxFrameDepth.toNat ≤ machine.active.length then
      raise CoreName.stackOverflow none
    else
      pushFrame (Frame.ofCall m.id code args)
      if m.isSynchronized then
        let object ←
          if m.isStatic then orPopFrame (mirror m.id.owner)
          else pure ((args.head?.map Value.refOrNull).getD .null)
        enterMonitor thread object
      else return .next

/-- Calls a method with its arguments, the receiver first. -/
def invokeMethod (k : Nested) (thread : ThreadId) (method : MethodId) (args : List Value) :
    MachineM Flow := do
  match (← get).classes.method? method with
  | none => inconsistent (.unknownMethod method)
  | some m =>
    match m.body with
    | .abstract => raise CoreName.abstractMethod (some m.text)
    | .native _ => callNative k thread m args
    | .bytecode _ _ => callBytecode thread m args

/-- Leaves the frame in front with a result. -/
def returnFrom (thread : ThreadId) (result : Option Value) : MachineM Flow := do
  match (← get).active with
  | [] => inconsistent .returnWithoutFrame
  | f :: _ =>
    popFrame
    match f.monitor with
    | some object => synchronize (Sync.exit thread object)
    | none => pure ()
    deliver result

end Machine

end ClassMachine
