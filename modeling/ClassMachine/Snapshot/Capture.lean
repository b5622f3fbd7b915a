import ClassMachine.Class.StructuralHash
import ClassMachine.Machine.Basic
import ClassMachine.Snapshot.Companions
import ClassMachine.Snapshot.Image

/-!
Capture of a machine between two slices.
-/
namespace ClassMachine.Snapshot

def className (t : ClassTable) (id : ClassId) : Except SnapshotError String :=
  match t.get? id with
  | some c => .ok c.name
  | none => .error (.corrupt (.unknownClass id))

def payloadRecord (t : ClassTable) (codecs : CodecRegistry) (owner : String) :
    Payload → Except SnapshotError PayloadRecord
  | .none => .ok .none
  | .array kind elements => .ok (.array kind elements.toList)
  | .str text => .ok (.str text)
  | .mirror id => (className t id).map .mirror
  | .companion c => do
    let codec ← codecs.find owner
    return .companion (← codec.encode owner c)

def objectRecord (t : ClassTable) (codecs : CodecRegistry) (r : Ref) (o : Object) :
    Except SnapshotError ObjectRecord := do
  let owner ← className t o.type
  let payload ← payloadRecord t codecs owner o.payload
  return ⟨r, owner, o.monitor, o.fields.toList, payload⟩

def staticsRecord (t : ClassTable) (s : Statics) (id : ClassId) : Except SnapshotError StaticsRecord := do
  return ⟨← className t id, ((s.slots? id).map Array.toList).getD []⟩

def frameRecord (t : ClassTable) (f : Frame) : Except SnapshotError FrameRecord := do
  let owner ← className t f.method.owner
  match t.method? f.method with
  | none => throw (.corrupt (.unknownMethod f.method))
  | some m =>
    return { className := owner, name := m.name, descriptor := m.descriptor
             methodHash := m.structuralHash, pc := UInt32.ofNat f.pc
             locals := f.locals.toList, stack := f.stack.reverse, monitor := f.monitor }

/-- State of a live thread; a deadline that has passed leaves no time. -/
def stateRecord (now : UInt64) : ThreadState → StateRecord
  | .detachedUntil deadline => .detachedFor (if now ≤ deadline then deadline - now else 0)
  | .detached => .detached
  | _ => .ready

def threadRecord (t : ClassTable) (now : UInt64) (thread : Thread FrameStack) :
    Except SnapshotError ThreadRecord := do
  let frames ← thread.stack.reverse.mapM (frameRecord t)
  return { id := thread.id, state := stateRecord now thread.state
           interrupted := thread.interrupted, interruptible := thread.interruptible
           pending := thread.pending, object := thread.object, joiners := thread.joiners
           frames := frames }

/-- The threads an image holds. -/
def liveThreads (m : Machine) : List (Thread FrameStack) := m.scheduler.toList.filter Thread.isAlive

/-- Classes an image of the machine refers to. -/
def mentionedClasses (m : Machine) : List ClassId :=
  (m.heap.toList.flatMap fun (_, o) => o.type :: o.mirrored?.toList) ++ m.statics.classes ++
  (liveThreads m).flatMap fun t => t.stack.map (·.method.owner)

/-- Names and hashes of classes, each once and in the order of their names. -/
def classRecords (t : ClassTable) (ids : List ClassId) : List ClassRecord :=
  let found := ids.filterMap t.get?
  let byName : Std.ExtTreeMap String ClassInfo :=
    found.foldl (fun names c => names.insertIfNew c.name c) ∅
  byName.toList.map fun (name, c) => ⟨name, c.structuralHash⟩

/-- The image of a machine at rest. -/
def capture (codecs : CodecRegistry) (m : Machine) : Except SnapshotError Image := do
  let s := m.scheduler
  if s.current.isSome then throw (.busy .midSlice)
  if s.toList.any fun t => t.synthetic && t.isAlive then throw (.busy .syntheticCall)
  let objects ← m.heap.toList.mapM fun (r, o) => objectRecord m.classes codecs r o
  let statics ← m.statics.classes.mapM (staticsRecord m.classes m.statics)
  let threads ← (liveThreads m).mapM (threadRecord m.classes s.now)
  return { capturedAt := s.now, heapCapacity := UInt64.ofNat m.heap.capacity
           outOfMemory := m.outOfMemory, classes := classRecords m.classes (mentionedClasses m)
           objects := objects, interned := m.heap.internedStrings, statics := statics
           threads := threads, ready := s.ready }

end ClassMachine.Snapshot
