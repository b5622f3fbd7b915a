import ClassMachine.Snapshot.Binary

/-!
Images: a machine between two slices, written down so that another machine can go on from there.
Classes and methods are named, since another machine may number them in another way, and deadlines
are counted from the moment of the capture.
-/
namespace ClassMachine.Snapshot

/-- A class and the structural hash it had. -/
structure ClassRecord where
  name : String
  hash : String
  deriving DecidableEq, Repr, Inhabited

inductive PayloadRecord where
  | none
  | array (kind : Kind) (elements : List Value)
  | str (text : String)
  /-- Stands for the class of that name. -/
  | mirror (name : String)
  /-- Data of the host, in the bytes its codec made of it. -/
  | companion (bytes : List UInt8)
  deriving DecidableEq, Repr, Inhabited

structure ObjectRecord where
  ref : Ref
  className : String
  monitor : Monitor
  fields : List Value
  payload : PayloadRecord
  deriving DecidableEq, Repr, Inhabited

/-- Static fields of one class. -/
structure StaticsRecord where
  className : String
  values : List Value
  deriving DecidableEq, Repr, Inhabited

inductive StateRecord where
  | ready
  /-- Detached, with so many milliseconds left. -/
  | detachedFor (millis : UInt64)
  | detached
  deriving DecidableEq, Repr, Inhabited

structure FrameRecord where
  className : String
  name : String
  descriptor : String
  methodHash : String
  pc : UInt32
  locals : List Value
  /-- Operands from the bottom up. -/
  stack : List Value
  monitor : Option Ref
  deriving DecidableEq, Repr, Inhabited

def FrameRecord.methodText (f : FrameRecord) : String := s!"{f.className}.{f.name}{f.descriptor}"

structure ThreadRecord where
  id : ThreadId
  state : StateRecord
  interrupted : Bool
  interruptible : Bool
  pending : Option PendingMonitor
  object : Ref
  joiners : List ThreadId
  /-- The outermost frame first. -/
  frames : List FrameRecord
  deriving DecidableEq, Repr, Inhabited

structure Image where
  /-- What the clock showed. -/
  capturedAt : UInt64
  heapCapacity : UInt64
  outOfMemory : Ref
  /-- Every class the image refers to. -/
  classes : List ClassRecord
  objects : List ObjectRecord
  interned : List (String × Ref)
  statics : List StaticsRecord
  threads : List ThreadRecord
  /-- The rotation of the threads that may run. -/
  ready : List ThreadId
  deriving DecidableEq, Repr, Inhabited

/-- The frames of all threads. -/
def Image.frames (i : Image) : List FrameRecord := i.threads.flatMap (·.frames)

section
open Binary

instance : Binary ClassRecord := via (fun c => (c.name, c.hash)) fun (name, hash) => ⟨name, hash⟩

instance : Binary PayloadRecord where
  write
    | .none => writeTag 0
    | .array kind elements => writeTag 1 ++ write (kind, elements)
    | .str text => writeTag 2 ++ write text
    | .mirror name => writeTag 3 ++ write name
    | .companion bytes => writeTag 4 ++ write bytes
  read := do
    match ← readTag with
    | 0 => return .none
    | 1 =>
      let (kind, elements) ← read
      return .array kind elements
    | 2 => return .str (← read)
    | 3 => return .mirror (← read)
    | 4 => return .companion (← read)
    | _ => failure

instance : Binary ObjectRecord :=
  via (fun o => (o.ref, o.className, o.monitor, o.fields, o.payload))
    fun (ref, className, monitor, fields, payload) => ⟨ref, className, monitor, fields, payload⟩

instance : Binary StaticsRecord :=
  via (fun s => (s.className, s.values)) fun (className, values) => ⟨className, values⟩

instance : Binary StateRecord where
  write
    | .ready => writeTag 0
    | .detachedFor millis => writeTag 1 ++ write millis
    | .detached => writeTag 2
  read := do
    match ← readTag with
    | 0 => return .ready
    | 1 => return .detachedFor (← read)
    | 2 => return .detached
    | _ => failure

instance : Binary FrameRecord :=
  via (fun f => (f.className, f.name, f.descriptor, f.methodHash, f.pc, f.locals, f.stack, f.monitor))
    fun (className, name, descriptor, methodHash, pc, locals, stack, monitor) =>
      ⟨className, name, descriptor, methodHash, pc, locals, stack, monitor⟩

instance : Binary ThreadRecord :=
  via (fun t => (t.id, t.state, t.interrupted, t.interruptible, t.pending, t.object, t.joiners, t.frames))
    fun (id, state, interrupted, interruptible, pending, object, joiners, frames) =>
      ⟨id, state, interrupted, interruptible, pending, object, joiners, frames⟩

instance : Binary Image :=
  via (fun i => (i.capturedAt, i.heapCapacity, i.outOfMemory, i.classes, i.objects, i.interned,
      i.statics, i.threads, i.ready))
    fun (capturedAt, heapCapacity, outOfMemory, classes, objects, interned, statics, threads, ready) =>
      ⟨capturedAt, heapCapacity, outOfMemory, classes, objects, interned, statics, threads, ready⟩

end

end ClassMachine.Snapshot
