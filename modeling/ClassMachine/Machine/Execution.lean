import ClassMachine.Machine.Arithmetic
import ClassMachine.Machine.Invocation

/-!
Execution of linked instructions. The counter of the frame in front is moved past an instruction
before it runs; branches then set it to their target.
-/
namespace ClassMachine.Machine

/-- An instruction that only changes the frame in front. -/
def frameStep (x : FrameM Unit) : MachineM Flow := do
  onTop x
  return .next

/-- Pushes a result. -/
def pushing (x : MachineM Value) : MachineM Flow := do
  push (← x)
  return .next

def pushingRef (x : MachineM Ref) : MachineM Flow := do
  push (.ref (← x))
  return .next

/-- Takes the operands of an arithmetic instruction and computes its result, if it has one. -/
def arithmetic (op : ArithOp) : NumType → FrameM (Option Value)
  | .int => do
    let b ← Frame.popInt
    let a ← Frame.popInt
    return (op.int? a b).map .int
  | .long => do
    if op.isShift then
      let distance ← Frame.popInt
      let a ← Frame.popLong
      return some (.long (op.longShift a distance))
    else
      let b ← Frame.popLong
      let a ← Frame.popLong
      return (op.long? a b).map .long
  | .float => do
    let b ← Frame.popFloat
    let a ← Frame.popFloat
    return some (.float (op.float a b))
  | .double => do
    let b ← Frame.popDouble
    let a ← Frame.popDouble
    return some (.double (op.double a b))

def executeArith (op : ArithOp) (type : NumType) : MachineM Flow := do
  match ← onTop (arithmetic op type) with
  | some v =>
    push v
    return .next
  | none =>
    raise CoreName.arithmetic (some (if op = .rem then "% by zero" else "/ by zero"))

/-- Negation; of a floating-point number the sign bit alone changes. -/
def negate : NumType → FrameM Unit
  | .int => do Frame.push (.int (-(← Frame.popInt)))
  | .long => do Frame.push (.long (-(← Frame.popLong)))
  | .float => do Frame.push (.float ((← Frame.popFloat) ^^^ 0x80000000))
  | .double => do Frame.push (.double ((← Frame.popDouble) ^^^ 0x8000000000000000))

def convert (target : NumType) : FrameM Unit := do
  let v ← Frame.pop
  match v.convert? target with
  | some w => Frame.push w
  | none => throw (.cannotConvert v target)

def compareTop (op : CompareOp) : FrameM Unit := do
  match op with
  | .long =>
    let b ← Frame.popLong
    let a ← Frame.popLong
    Frame.push (.int (compareLong a b))
  | .floatL | .floatG =>
    let b ← Frame.popFloat
    let a ← Frame.popFloat
    Frame.push (.int (op.floating Floating.single a.toNat b.toNat))
  | .doubleL | .doubleG =>
    let b ← Frame.popDouble
    let a ← Frame.popDouble
    Frame.push (.int (op.floating Floating.double a.toNat b.toNat))

/-- Jumps when a condition holds. -/
def branchIf (holds : Bool) (target : Nat) : FrameM Unit := if holds then Frame.jump target else return

/-- Takes the value and the object of a field store. -/
def popStore : FrameM (Value × Ref) := do
  let v ← Frame.pop
  let object ← Frame.popRef
  return (v, object)

def getStatic (k : Nested) (thread : ThreadId) (owner : ClassId) (slot : Nat) : MachineM Value := do
  ensureInitialized k thread owner
  match (← get).statics.get? owner slot with
  | some v => return v
  | none => inconsistent (.noStaticSlot slot owner)

def putStatic (k : Nested) (thread : ThreadId) (owner : ClassId) (slot : Nat) (kind : Kind) :
    MachineM Unit := do
  ensureInitialized k thread owner
  let v ← onTop Frame.pop
  match (← get).statics.set? owner slot (v.narrowTo kind) with
  | some s => modify fun m => { m with statics := s }
  | none => inconsistent (.noStaticSlot slot owner)

/-- A call whose method depends on the receiver's class. -/
def invokeVirtual (k : Nested) (thread : ThreadId) (signature : SignatureId) (params : Nat) :
    MachineM Flow := do
  let args ← onTop (Frame.popN (params + 1))
  let method ← selectVirtual ((args.head?.map Value.refOrNull).getD .null) signature
  invokeMethod k thread method args

def invokeSpecial (k : Nested) (thread : ThreadId) (method : MethodId) (params : Nat) :
    MachineM Flow := do
  let args ← onTop (Frame.popN (params + 1))
  if (args.head?.map Value.isNull).getD false then raiseNullPointer
  else invokeMethod k thread method args

def newPrimitiveArray (kind : Kind) : MachineM Ref := do
  let length ← onTop Frame.popInt
  match ← onClasses (ClassTable.arrayOf (.primitive kind)) with
  | .ok id => newArray id kind length
  | .error e => inconsistent (.classRejected e.message)

def newNestedArray (id : ClassId) (dims : Nat) : MachineM Ref := do
  let counts := (← onTop (Frame.popN dims)).map fun v => v.int?.getD 0
  match counts.find? (· < 0) with
  | some negative => raise CoreName.negativeArraySize (some (toString negative.toInt))
  | none => newMultiArray counts id

/-- Raises unless the object on top is null or an instance of the class. -/
def checkCast (id : ClassId) : MachineM Unit := do
  let object := (← onTop Frame.peek).refOrNull
  if !object.isNull then
    let actual ← classOf object
    if !(← onClasses (ClassTable.isSubclass actual id)) then
      let t := (← get).classes
      raise CoreName.classCast (some s!"{t.nameOf actual} cannot be cast to {t.nameOf id}")

def instanceOf (id : ClassId) : MachineM Value := do
  let object ← onTop Frame.popRef
  match (← get).liveClass? object with
  | some actual => return .int (if ← onClasses (ClassTable.isSubclass actual id) then 1 else 0)
  | none => return .int 0

def monitorEnter (thread : ThreadId) : MachineM Flow := do
  let object ← onTop Frame.popRef
  if object.isNull then raiseNullPointer
  else
    match ← synchronize (Sync.enter thread object) with
    | .acquired => return .next
    | .blocked => return .pause

def monitorExit (thread : ThreadId) : MachineM Flow := do
  let object ← onTop Frame.popRef
  if object.isNull then raiseNullPointer
  else
    synchronize (Sync.exit thread object)
    return .next

/-- Runs one instruction of the frame in front. -/
def executeInstruction (k : Nested) (thread : ThreadId) : Instruction → MachineM Flow
  | .nop => return .next
  | .pushInt v => frameStep (Frame.push (.int v))
  | .pushLong v => frameStep (Frame.push (.long v))
  | .pushFloat b => frameStep (Frame.push (.float b))
  | .pushDouble b => frameStep (Frame.push (.double b))
  | .pushNull => frameStep (Frame.push .null)
  | .pushString text => pushingRef (internString text)
  | .pushClass id => pushingRef (mirror id)
  | .load index _ => frameStep do Frame.push (← Frame.getLocal index)
  | .store index _ => frameStep (Frame.store index)
  | .increment index delta => frameStep (Frame.increment index delta)
  | .arrayLoad _ => pushing do
    let index ← onTop Frame.popInt
    let array ← onTop Frame.popRef
    loadElement array index
  | .arrayStore _ => do
    let v ← onTop Frame.pop
    let index ← onTop Frame.popInt
    let array ← onTop Frame.popRef
    storeElement array index v
    return .next
  | .stack op => frameStep (Frame.rearrange op)
  | .arith op type => executeArith op type
  | .neg type => frameStep (negate type)
  | .convert _ target => frameStep (convert target)
  | .narrow kind => frameStep do
    let x ← Frame.popInt
    Frame.push ((Value.int x).narrowTo kind)
  | .compare op => frameStep (compareTop op)
  | .ifZero cond target => frameStep do
    let x ← Frame.popInt
    branchIf (cond.test x 0) target
  | .ifCmp cond target => frameStep do
    let b ← Frame.popInt
    let a ← Frame.popInt
    branchIf (cond.test a b) target
  | .ifRefEq equal target => frameStep do
    let b ← Frame.popRef
    let a ← Frame.popRef
    branchIf ((a == b) == equal) target
  | .ifNull null target => frameStep do
    let r ← Frame.popRef
    branchIf (r.isNull == null) target
  | .goto target => frameStep (Frame.jump target)
  | .tableSwitch low targets default => frameStep do
    let key ← Frame.popInt
    Frame.jump (tableTarget low targets default key)
  | .lookupSwitch pairs default => frameStep do
    let key ← Frame.popInt
    Frame.jump (lookupTarget pairs default key)
  | .returnVoid => returnFrom thread none
  | .returnValue _ => do
    let v ← onTop Frame.pop
    returnFrom thread (some v)
  | .getStatic owner slot _ => pushing (getStatic k thread owner slot)
  | .putStatic owner slot kind => do
    putStatic k thread owner slot kind
    return .next
  | .getField name descriptor _ => pushing do
    let object ← onTop Frame.popRef
    let slot ← fieldSlot object name descriptor
    readField object slot
  | .putField name descriptor kind => do
    let (v, object) ← onTop popStore
    let slot ← fieldSlot object name descriptor
    writeField object slot (v.narrowTo kind)
    return .next
  | .getFieldSlot slot _ => pushing do
    let object ← onTop Frame.popRef
    let _ ← classOf object
    readField object slot
  | .putFieldSlot slot kind => do
    let (v, object) ← onTop popStore
    let _ ← classOf object
    writeField object slot (v.narrowTo kind)
    return .next
  | .invokeStatic method site => do
    ensureInitialized k thread method.owner
    let args ← onTop (Frame.popN site.params.length)
    invokeMethod k thread method args
  | .invokeSpecial method site => invokeSpecial k thread method site.params.length
  | .invokeVirtual signature site => invokeVirtual k thread signature site.params.length
  | .invokeInterface signature site => invokeVirtual k thread signature site.params.length
  | .invokeVoidNoArgs signature => invokeVirtual k thread signature 0
  | .new id => pushingRef do
    ensureInitialized k thread id
    newInstance id
  | .newArray kind => pushingRef (newPrimitiveArray kind)
  | .newRefArray id => pushingRef do
    let length ← onTop Frame.popInt
    newArray id .reference length
  | .multiNewArray id dims => pushingRef (newNestedArray id dims)
  | .arrayLength => pushing do
    let array ← onTop Frame.popRef
    return .int (← arrayLength array)
  | .throw => do
    let exception ← onTop Frame.popRef
    if exception.isNull then raiseNullPointer else throw (.exception exception)
  | .checkCast id => do
    checkCast id
    return .next
  | .instanceOf id => pushing (instanceOf id)
  | .monitorEnter => monitorEnter thread
  | .monitorExit => monitorExit thread
  | .unresolved symbol => raiseMissing symbol

/-- The next instruction of the frame in front; the counter moves past it. -/
def fetch : FrameM Instruction := fun f =>
  match f.code.get? f.pc with
  | some i => .ok i { f with pc := f.pc + 1 }
  | none => .error (.pcPastEnd f.pc f.method) f

def executeOne (k : Nested) (thread : ThreadId) : MachineM Flow := do
  executeInstruction k thread (← onTop fetch)

end ClassMachine.Machine
