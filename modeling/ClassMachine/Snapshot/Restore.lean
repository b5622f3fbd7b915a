import ClassMachine.Snapshot.Capture

/-!
Restoration of an image. Every class the image refers to and every method with a frame in it must
have the shape it had when the image was made; only then is anything but the class table changed.
-/
namespace ClassMachine.Snapshot

/-- Steps that may load array classes and link methods, and keep that when they fail. -/
abbrev RestoreM := EStateM SnapshotError Linker

def ofExcept {σ α : Type} : Except SnapshotError α → EStateM SnapshotError σ α
  | .ok a => return a
  | .error e => throw e

/-- Numbers of the image's classes in the table they were looked up in. -/
abbrev Resolved := List (String × ClassId)

def Resolved.find (classes : Resolved) (name : String) : Except SnapshotError ClassId :=
  match classes.lookup name with
  | some id => .ok id
  | none => .error (.corrupt (.unlistedClass name))

/-- The class of that name, arrays being made on demand. -/
def findClass (name : String) : RestoreM (Option ClassInfo) := fun l =>
  let (id?, l) := Linker.onClasses (ClassTable.resolveName name) l
  .ok (id?.bind l.classes.get?) l

/-- Looks up a listed class, which must have the listed hash. -/
def resolveClass (record : ClassRecord) : RestoreM (String × ClassId) := do
  match ← findClass record.name with
  | none => throw (.missingClass record.name)
  | some c =>
    let hash := c.structuralHash
    if hash ≠ record.hash then throw (.classHashMismatch record.name record.hash hash)
    return (record.name, c.id)

/-- The declared method a frame stands in. -/
def frameMethod (t : ClassTable) (classes : Resolved) (f : FrameRecord) : Except SnapshotError Method := do
  let id ← classes.find f.className
  match (t.declaredMethod? f.name f.descriptor id).bind t.method? with
  | some m => return m
  | none => throw (.missingMethod f.methodText)

/-- Checks that the method of a frame has the hash it had. -/
def checkFrame (t : ClassTable) (classes : Resolved) (f : FrameRecord) : Except SnapshotError Unit := do
  let m ← frameMethod t classes f
  if m.structuralHash ≠ f.methodHash then
    throw (.methodHashMismatch f.methodText f.methodHash m.structuralHash)

/-- Compares an image with the loaded classes and finds its classes among them. -/
def resolve (i : Image) : RestoreM Resolved := do
  let classes ← i.classes.mapM resolveClass
  ofExcept (i.frames.forM (checkFrame (← get).classes classes))
  return classes

def payload (classes : Resolved) (codecs : CodecRegistry) (owner : String) :
    PayloadRecord → Except SnapshotError Payload
  | .none => .ok .none
  | .array kind elements => .ok (.array kind elements.toArray)
  | .str text => .ok (.str text)
  | .mirror name => (classes.find name).map .mirror
  | .companion bytes => do
    let codec ← codecs.find owner
    return .companion (← codec.decode owner bytes)

/-- Adds a recorded object under its old handle. -/
def insertObject (classes : Resolved) (codecs : CodecRegistry) (h : Heap) (o : ObjectRecord) :
    Except SnapshotError Heap := do
  let id ← classes.find o.className
  let payload ← payload classes codecs o.className o.payload
  let object := { Object.ofPayload id o.fields payload with monitor := o.monitor }
  match h.insertAt? o.ref object with
  | none => throw (.corrupt (.badHandle o.ref))
  | some h =>
    match object.mirrored? with
    | some mirrored => return h.registerMirror mirrored o.ref
    | none => return h

/-- The heap of an image, with room for at least what `config` asks for. -/
def heap (classes : Resolved) (codecs : CodecRegistry) (config : Config) (i : Image) :
    Except SnapshotError Heap := do
  let empty : Heap :=
    { capacity := (max i.heapCapacity config.heapCapacity).toNat, overflow := config.overflow }
  let h ← i.objects.foldlM (insertObject classes codecs) empty
  return i.interned.foldl (fun h (text, r) => h.intern text r) h

/-- Static fields by the numbers their classes have here. -/
def staticFields (classes : Resolved) (i : Image) : Except SnapshotError (List (ClassId × List Value)) :=
  i.statics.mapM fun s => do return (← classes.find s.className, s.values)

/-- The linked body of a method, or why it has none. -/
def linkMethod (id : MethodId) : RestoreM (Except LinkError LinkedCode) := fun l =>
  let (result, l) := Linker.link id l
  .ok result l

/-- A frame whose method is linked here. -/
def frame (classes : Resolved) (f : FrameRecord) : RestoreM Frame := do
  let m ← ofExcept (frameMethod (← get).classes classes f)
  match ← linkMethod m.id with
  | .error e => throw (.link e)
  | .ok code =>
    if code.instructions.size ≤ f.pc.toNat then throw (.corrupt (.pcPastEnd f.pc f.methodText))
    return { method := m.id, code := code, pc := f.pc.toNat, locals := f.locals.toArray
             stack := f.stack.reverse, monitor := f.monitor }

/-- State of a thread that goes on at `now`. -/
def threadState (now : UInt64) : StateRecord → ThreadState
  | .ready => .ready
  | .detachedFor millis => Scheduler.detachedState now (.millis millis)
  | .detached => .detached

def thread (classes : Resolved) (now : UInt64) (t : ThreadRecord) : RestoreM (Thread FrameStack) := do
  let frames ← t.frames.mapM (frame classes)
  return { id := t.id, object := t.object, stack := frames.reverse, state := threadState now t.state
           interrupted := t.interrupted, interruptible := t.interruptible, pending := t.pending
           joiners := t.joiners }

/-- Threads that may not run come first, the others in the order of the rotation. -/
def inRotation (ready : List ThreadId) (threads : List (Thread FrameStack)) : List (Thread FrameStack) :=
  let (running, parked) := threads.partition (·.state = .ready)
  let byPlace (ts : List (Thread FrameStack)) :=
    ts.mergeSort fun a b => ready.idxOf a.id ≤ ready.idxOf b.id
  byPlace parked ++ byPlace running

/-- What a machine goes on from. -/
structure State where
  heap : Heap
  statics : List (ClassId × List Value)
  threads : List (Thread FrameStack)
  outOfMemory : Ref

/-- Builds the state an image describes. -/
def state (classes : Resolved) (codecs : CodecRegistry) (config : Config) (now : UInt64) (i : Image) :
    RestoreM State := do
  let heap ← ofExcept (heap classes codecs config i)
  let statics ← ofExcept (staticFields classes i)
  let threads ← i.threads.mapM (thread classes now)
  return ⟨heap, statics, inRotation i.ready threads, i.outOfMemory⟩

/-- Marks a class as initialized. -/
def markInitialized (id : ClassId) : StateM Linker Unit := do
  if (← Linker.prepare id).isSome then
    let _ ← Linker.onClasses (ClassTable.takePendingInit id)

/-- Replaces heap, static fields and threads. Initializers of classes with static fields have run. -/
def install (m : Machine) (s : State) : Machine :=
  let (_, linker) := (s.statics.forM fun (id, _) => markInitialized id).run m.linker
  { m with
    linker := linker
    heap := s.heap.pin s.outOfMemory
    outOfMemory := s.outOfMemory
    statics := s.statics.foldl (fun statics (id, values) => statics.restore id values) {}
    scheduler := s.threads.foldl Scheduler.insert m.scheduler
    uncaught := [] }

/-- The exception for a full heap must be one. -/
def checkOutOfMemory (t : ClassTable) (s : State) : Except SnapshotError Unit :=
  if (s.heap.get? s.outOfMemory).map (·.type) = t.lookup? CoreName.outOfMemory then .ok ()
  else .error (.fatal (.invalid (.notOutOfMemoryError s.outOfMemory)))

/-- Runs a step on the linker of a machine. -/
def onLinker {α : Type} (x : RestoreM α) : EStateM SnapshotError Machine α := fun m =>
  match x m.linker with
  | .ok a l => .ok a { m with linker := l }
  | .error e l => .error e { m with linker := l }

/-- Compares an image with the loaded classes. -/
def validate (i : Image) : EStateM SnapshotError Machine Resolved := onLinker (resolve i)

/-- Goes on from an image. The machine must not have threads. -/
def restore (codecs : CodecRegistry) (i : Image) : EStateM SnapshotError Machine Unit := do
  let classes ← validate i
  let m ← get
  if !m.scheduler.toList.isEmpty then throw (.busy .threadsPresent)
  let s ← onLinker (state classes codecs m.config m.scheduler.now i)
  ofExcept (checkOutOfMemory (← get).classes s)
  modify (install · s)

end ClassMachine.Snapshot
