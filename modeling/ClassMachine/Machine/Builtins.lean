import ClassMachine.Machine.Access
import ClassMachine.Machine.Initialization

/-!
Native methods the machine implements itself: monitors, threads, the clock and array copies.
-/
namespace ClassMachine.Machine

def argument (args : List Value) (index : Nat) : MachineM Value :=
  match args[index]? with
  | some v => return v
  | none => inconsistent (.argumentMissing index)

def refArgument (args : List Value) (index : Nat) : MachineM Ref :=
  return (← argument args index).refOrNull

def intArgument (args : List Value) (index : Nat) : MachineM Int32 :=
  return (← argument args index).int?.getD 0

def longArgument (args : List Value) (index : Nat) : MachineM Int64 :=
  return (← argument args index).long?.getD 0

/-- Lets an interrupt reach the thread while it is parked. -/
def setInterruptible (thread : ThreadId) : MachineM Unit :=
  updateThread thread fun t => { t with interruptible := true }

/-- Turns an interrupt that came before into an exception. -/
def checkInterrupt (thread : ThreadId) : MachineM Unit := do
  if ← onScheduler (·.takeInterrupt thread) then raise CoreName.interrupted none

def requestYield : MachineM Unit := modify fun m => { m with yieldRequested := true }

/-- Time to wait for; a fraction of a millisecond counts as one. Zero has no end. -/
def waitTimeout (millis : Int64) (nanos : Int32) : Timeout :=
  if millis = 0 then if 0 < nanos then .millis 1 else .indefinite else .millis millis.toUInt64

def objectWait (thread : ThreadId) (object : Ref) (millis : Int64) (nanos : Int32) :
    MachineM Unit := do
  if millis < 0 then raise CoreName.illegalArgument (some "timeout value is negative")
  else if nanos < 0 ∨ 999999 < nanos then
    raise CoreName.illegalArgument (some "nanosecond timeout value out of range")
  else if ((← get).heap.get? object).bind (·.monitor.owner) ≠ some thread then
    raise CoreName.illegalMonitorState (some "current thread is not owner")
  else
    checkInterrupt thread
    synchronize (Sync.wait thread object (waitTimeout millis nanos))
    setInterruptible thread

def threadSleep (thread : ThreadId) (millis : Int64) : MachineM Unit := do
  if millis < 0 then raise CoreName.illegalArgument (some "timeout value is negative")
  else
    checkInterrupt thread
    if millis = 0 then requestYield
    else
      let _ ← onScheduler (·.detach thread (.millis millis.toUInt64))
      setInterruptible thread

def threadJoin (thread : ThreadId) (object : Ref) : MachineM Unit := do
  let target := (← get).threadOf? object
  checkInterrupt thread
  match target with
  | none => return
  | some target => if ← onScheduler (·.join thread target) then setInterruptible thread

/-- Method a call on an object runs. -/
def selectVirtual (object : Ref) (signature : SignatureId) : MachineM MethodId := do
  let id ← classOf object
  match ← onLinker (Linker.prepare id) with
  | none => inconsistent (.unknownClass id)
  | some c =>
    match c.dispatch? signature with
    | some method => return method
    | none =>
      let message :=
        match (← get).linker.signatures.describe? signature with
        | some (name, descriptor) => s!"{c.name}.{name}{descriptor}"
        | none => c.name
      raise CoreName.abstractMethod (some message)

/-- Starts the thread an object stands for, once. -/
def threadStart (k : Nested) (thread : ThreadId) (object : Ref) : MachineM Unit := do
  if object.isNull then raiseNullPointer
  else if ((← get).threadOf? object).isSome then raise CoreName.illegalThreadState none
  else
    let run ← selectVirtual object (← get).core.run
    let started ← spawnThread object
    match ← attempt (withParked thread (k.enter started run [.ref object])) with
    | .ok () => return
    | .error (.exception exception) => threadDied started exception
    | .error trap => throw trap

/-- Array behind a reference: element type and elements. -/
def arrayOf? (m : Machine) (r : Ref) : Option (ElementType × Array Value) := do
  let o ← m.heap.get? r
  let element ← (← m.classes.get? o.type).element
  let (_, elements) ← o.elements?
  return (element, elements)

/-- Whether elements of two types may be copied into each other at all. -/
def copyable : ElementType → ElementType → Bool
  | .primitive a, .primitive b => a = b
  | .reference _, .reference _ => true
  | _, _ => false

/-- Whether `length` elements from `position` on lie inside an array. -/
def inRange (position length : Int32) (size : Nat) : Bool :=
  0 ≤ position.toInt && 0 ≤ length.toInt && position.toInt + length.toInt ≤ size

/-- Leading values an array with elements of a type takes. -/
def acceptedPart (element : ElementType) : List Value → MachineM (List Value)
  | [] => return []
  | v :: rest => do
    if ← accepts (some element) v then return v :: (← acceptedPart element rest) else return []

/-- Writes values one after the other. -/
def writeElements (array : Ref) : Nat → List Value → MachineM Unit
  | _, [] => return
  | index, v :: rest => do
    writeElement array index v
    writeElements array (index + 1) rest

/-- Copies elements as they were before the call, up to the first one the target refuses. -/
def arrayCopy (source : Ref) (sourcePos : Int32) (target : Ref) (targetPos length : Int32) :
    MachineM Unit := do
  if source.isNull || target.isNull then raiseNullPointer
  else
    let m ← get
    match m.arrayOf? source, m.arrayOf? target with
    | some (sourceType, elements), some (targetType, targetElements) =>
      if !copyable sourceType targetType then
        raise CoreName.arrayStore (some "arraycopy: type mismatch")
      else if !(inRange sourcePos length elements.size && inRange targetPos length targetElements.size) then
        raise CoreName.arrayIndexOutOfBounds (some (s!"arraycopy: last source index " ++
          s!"{sourcePos.toInt + length.toInt} out of bounds for length {elements.size}"))
      else
        let copied := (elements.toList.drop sourcePos.toInt.toNat).take length.toInt.toNat
        let accepted ← acceptedPart targetType copied
        writeElements target targetPos.toInt.toNat accepted
        if accepted.length < copied.length then
          raise CoreName.arrayStore (some "arraycopy: element type mismatch")
    | _, _ => raise CoreName.arrayStore (some "arraycopy: argument type mismatch")

def collectGarbage : MachineM CollectionStats := fun m =>
  let (cycle, h) := m.heap.collect m.roots
  .ok cycle { m with heap := h }

def callBuiltin (k : Nested) (thread : ThreadId) (args : List Value) :
    Builtin → MachineM (Option Value)
  | .objectWait => do
    let object ← refArgument args 0
    let millis ← if 1 < args.length then longArgument args 1 else pure 0
    let nanos ← if 2 < args.length then intArgument args 2 else pure 0
    objectWait thread object millis nanos
    return none
  | .objectNotify => do
    let object ← refArgument args 0
    let _ ← synchronize (Sync.notify thread object)
    return none
  | .objectNotifyAll => do
    let object ← refArgument args 0
    let _ ← synchronize (Sync.notifyAll thread object)
    return none
  | .objectHashCode | .systemIdentityHashCode => do
    let object ← refArgument args 0
    return some (.int (if object.isNull then 0 else Heap.identityHash object))
  | .objectGetClass => do
    let id ← classOf (← refArgument args 0)
    return some (.ref (← mirror id))
  | .threadSleep => do
    threadSleep thread (← longArgument args 0)
    return none
  | .threadYield => do
    requestYield
    return none
  | .threadCurrentThread => return some (.ref (← threadObject thread))
  | .threadStart => do
    threadStart k thread (← refArgument args 0)
    return none
  | .threadInterrupt => do
    match (← get).threadOf? (← refArgument args 0) with
    | none => return none
    | some target =>
      let _ ← onScheduler (·.interrupt target)
      return none
  | .threadIsAlive => do
    let object ← refArgument args 0
    let m ← get
    let alive := ((m.threadOf? object).bind m.scheduler.get?).map Thread.isAlive
    return some (.int (if alive.getD false then 1 else 0))
  | .threadJoin => do
    threadJoin thread (← refArgument args 0)
    return none
  | .systemGc => do
    let _ ← collectGarbage
    return none
  | .systemArraycopy => do
    let source ← refArgument args 0
    let sourcePos ← intArgument args 1
    let target ← refArgument args 2
    let targetPos ← intArgument args 3
    arrayCopy source sourcePos target targetPos (← intArgument args 4)
    return none
  | .systemCurrentTimeMillis => do
    let now := (← get).scheduler.now
    return some (.long (Int64.ofNat (min now.toNat 0x7fffffffffffffff)))

end ClassMachine.Machine
