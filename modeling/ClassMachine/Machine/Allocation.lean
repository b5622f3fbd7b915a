import ClassMachine.Machine.Basic

/-!
Making objects, and raising exceptions, which are objects made by the machine. Every allocation may
collect, so what was made before is pinned while more is made.
-/
namespace ClassMachine.Machine

/-- An allocation that failed is an exception made in advance, or the end. -/
def allocFailure (m : Machine) : AllocError → Trap
  | .exhausted _ _ _ => .exception m.outOfMemory
  | .fatal error => .fatal error

/-- Makes room without making anything. -/
def reserve (units : Nat) : MachineM Unit := fun m =>
  match m.heap.reserve m.roots units with
  | (.ok (), h) => .ok () { m with heap := h }
  | (.error e, h) => .error (m.allocFailure e) { m with heap := h }

/-- Adds an object. When every handle is in use there is none to go on with. -/
def insertObject (o : Object) : MachineM Ref := fun m =>
  let (r, h) := m.heap.insert o
  if m.heap.contains r then .error .outOfFuel m else .ok r { m with heap := h }

/-- Makes room for an object and adds it. -/
def allocate (o : Object) : MachineM Ref := do
  reserve o.weight
  insertObject o

/-- An instance with zeroed fields. -/
def newInstance (id : ClassId) : MachineM Ref := do
  match ← onLinker (Linker.prepare id) with
  | none => inconsistent (.unknownClass id)
  | some c => allocate (Object.instanceOf id ((c.layout.map (·.kinds)).getD []))

def stringObject (text : String) : MachineM Ref := do
  allocate (Object.ofPayload (← get).core.string [] (.str text))

/-- Raises an exception of a class found by name. -/
def raise {α : Type} (className : String) (message : Option String) : MachineM α := do
  match (← get).classes.lookup? className with
  | none => fatal (.missingSymbol className)
  | some id =>
    let text ← message.mapM stringObject
    let exception ← pinning text.toList (newInstance id)
    match (← get).core.messageSlot, text with
    | some slot, some text => updateHeap fun h => h.update exception (·.setField slot (.ref text))
    | _, _ => pure ()
    throw (.exception exception)

def raiseNullPointer {α : Type} : MachineM α := raise CoreName.nullPointer none

/-- A monitor used against its rules is an exception. -/
def raiseSync {α : Type} : SyncError → MachineM α
  | .monitor e => raise CoreName.illegalMonitorState (some e.message)
  | .fatal e => fatal e

/-- Runs an operation on monitors. -/
def synchronize {α : Type} (x : SyncM FrameStack α) : MachineM α := do
  match ← onSync x with
  | .ok a => return a
  | .error e => raiseSync e

/-- An array of zero values. Room is made before the array is. -/
def newArray (id : ClassId) (kind : Kind) (length : Int32) : MachineM Ref := do
  if length < 0 then raise CoreName.negativeArraySize (some (toString length.toInt))
  else
    let count := length.toInt.toNat
    reserve (Object.arrayWeight kind count)
    insertObject (Object.arrayOf id kind count)

/-- Fills elements from `index` on with new objects. -/
def fillArray (array : Ref) (make : MachineM Ref) : Nat → Nat → MachineM Unit
  | 0, _ => return
  | count + 1, index => do
    let child ← make
    updateHeap fun h => h.update array (·.setElement index (.ref child))
    fillArray array make count (index + 1)

/-- Arrays of arrays, the outermost length first. -/
def newMultiArray : List Int32 → ClassId → MachineM Ref
  | [], _ => inconsistent .noDimensions
  | length :: rest, id => do
    match ((← get).classes.get? id).bind (·.element) with
    | none => inconsistent (.notArrayClass id)
    | some element =>
      let array ← newArray id element.kind length
      match element with
      | .primitive _ => return array
      | .reference inner =>
        if !rest.isEmpty then
          pinning [array] (fillArray array (newMultiArray rest inner) length.toInt.toNat 0)
        return array

/-- The one string object for a literal. -/
def internString (text : String) : MachineM Ref := do
  match (← get).heap.interned? text with
  | some r => return r
  | none =>
    let r ← stringObject text
    updateHeap (·.intern text r)
    return r

/-- The one object that stands for a class. -/
def mirror (id : ClassId) : MachineM Ref := do
  match (← get).heap.mirror? id with
  | some r => return r
  | none =>
    let r ← allocate (Object.ofPayload (← get).core.type [] (.mirror id))
    updateHeap (·.registerMirror id r)
    return r

/-- The object that stands for a thread, made on first use for threads the host started. -/
def threadObject (thread : ThreadId) : MachineM Ref := do
  let existing := (((← get).scheduler.get? thread).map (·.object)).getD .null
  if !existing.isNull then return existing
  else
    let r ← newInstance (← get).core.thread
    updateThread thread fun t => { t with object := r }
    return r

/-- The thread an object stands for. -/
def threadOf? (m : Machine) (object : Ref) : Option ThreadId :=
  if object.isNull then none else (m.scheduler.toList.find? (·.object = object)).map (·.id)

end ClassMachine.Machine
