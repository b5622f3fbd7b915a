import ClassMachine.Heap.Collection
import ClassMachine.Link.NativeRegistry
import ClassMachine.Link.Resolution
import ClassMachine.Machine.Frame
import ClassMachine.Scheduler.Sync
import ClassMachine.Statics

/-!
The machine: classes, heap, static fields and threads together, and the computations that change
them. The frames of the running thread are kept apart from its record while it runs.
-/
namespace ClassMachine

/-- What ends an instruction early. Running out of fuel, or of numbers for threads or objects, says
nothing about the program. -/
inductive Trap where
  | exception (r : Ref)
  | fatal (error : Fatal)
  | outOfFuel
  deriving DecidableEq, Repr

/-- What a native method of the host does. -/
inductive HostNative where
  | void
  | const (v : Value)
  /-- Returns one of its arguments. -/
  | echo (index : Nat)
  /-- Adds its `int` arguments. -/
  | sum
  /-- Leaves a row in the trace. -/
  | trace
  | throw (className : String) (message : Option String)
  | fatal (detail : String)
  | string (text : String)
  /-- Counts the characters of a string. -/
  | strlen
  | new (className : String)
  | attach (companion : Companion)
  /-- Attaches a holder of the other reference arguments. -/
  | hold (vetoes : UInt32)
  /-- Counts up a counter. -/
  | bump
  /-- Reads a counter. -/
  | peek
  | detach (timeout : Timeout)
  | yield
  /-- Posts a request of the host. -/
  | request (r : HostRequest)
  | now
  | thread
  /-- Counts the objects of the heap. -/
  | live
  | pin
  deriving DecidableEq, Repr, Inhabited

/-- What the machine has to know about the core classes. -/
structure CoreClasses where
  string : ClassId
  type : ClassId
  thread : ClassId
  /-- Slot of a throwable's message. -/
  messageSlot : Option Nat
  /-- Signature of the method a started thread runs. -/
  run : SignatureId
  deriving DecidableEq, Repr, Inhabited

/-- An exception that ended a thread. -/
structure UncaughtException where
  thread : ThreadId
  exception : Ref
  className : String
  message : Option String
  deriving DecidableEq, Repr

/-- A call of a tracing native. -/
structure TraceRow where
  thread : ThreadId
  now : UInt64
  args : List Value
  deriving DecidableEq, Repr

/-- Frames of a thread, the running one first. -/
abbrev FrameStack := List Frame

structure Machine where
  config : Config
  linker : Linker
  natives : NativeRegistry HostNative := {}
  heap : Heap
  statics : Statics := {}
  scheduler : Scheduler FrameStack := {}
  core : CoreClasses
  /-- Made in advance, to be thrown when the heap is full. -/
  outOfMemory : Ref
  uncaught : List UncaughtException := []
  yieldRequested : Bool := false
  /-- Frames of the running thread. -/
  active : FrameStack := []
  trace : List TraceRow := []
  deriving Inhabited

/-- A computation that may trap, and then keeps what it changed before. -/
abbrev MachineM := EStateM Trap Machine

namespace Thread

/-- References a thread's record holds. -/
def refs (t : Thread FrameStack) : List Ref :=
  t.object :: (t.pending.map (·.object)).toList ++ t.stack.flatMap Frame.references

end Thread

namespace Machine

def classes (m : Machine) : ClassTable := m.linker.classes

/-- Where collections start, what the heap keeps by itself apart. -/
def roots (m : Machine) : List Ref :=
  m.scheduler.toList.flatMap Thread.refs ++ m.active.flatMap Frame.references ++ m.statics.refs

def fatal {α : Type} (error : Fatal) : MachineM α := throw (.fatal error)

def inconsistent {α : Type} (what : Inconsistency) : MachineM α := fatal (.inconsistent what)

/-- The outcome of a computation, its trap as a value. -/
def attempt {α : Type} (x : MachineM α) : MachineM (Except Trap α) := fun m =>
  match x m with
  | .ok a m => .ok (.ok a) m
  | .error e m => .ok (.error e) m

def ofExcept {α : Type} : Except Trap α → MachineM α
  | .ok a => return a
  | .error e => throw e

/-- Runs `after` whether or not `x` traps. -/
def ensuring {α : Type} (x : MachineM α) (after : Machine → Machine) : MachineM α := fun m =>
  match x m with
  | .ok a m => .ok a (after m)
  | .error e m => .error e (after m)

def onLinker {α : Type} (x : StateM Linker α) : MachineM α := fun m =>
  let (a, l) := x m.linker
  .ok a { m with linker := l }

def onClasses {α : Type} (x : StateM ClassTable α) : MachineM α := onLinker (Linker.onClasses x)

def updateHeap (f : Heap → Heap) : MachineM Unit := modify fun m => { m with heap := f m.heap }

def onScheduler {α : Type} (f : Scheduler FrameStack → α × Scheduler FrameStack) : MachineM α :=
  fun m =>
    let (a, s) := f m.scheduler
    .ok a { m with scheduler := s }

/-- Makes a thread. After the largest number but one there is none to go on with. -/
def spawnThread (object : Ref) : MachineM ThreadId := fun m =>
  if m.scheduler.nextId = 0xffffffff then .error .outOfFuel m
  else onScheduler (·.spawn object []) m

def updateThread (thread : ThreadId) (f : Thread FrameStack → Thread FrameStack) : MachineM Unit :=
  modify fun m => { m with scheduler := m.scheduler.update thread f }

/-- Runs an operation on monitors, its error as a value. -/
def onSync {α : Type} (x : SyncM FrameStack α) : MachineM (Except SyncError α) := fun m =>
  match x ⟨m.heap, m.scheduler⟩ with
  | .ok a s => .ok (.ok a) { m with heap := s.heap, scheduler := s.scheduler }
  | .error e s => .ok (.error e) { m with heap := s.heap, scheduler := s.scheduler }

/-- Runs an operation on the frame in front. -/
def onTop {α : Type} (x : FrameM α) : MachineM α := fun m =>
  match m.active with
  | [] => .error (.fatal (.inconsistent .noActiveFrame)) m
  | f :: rest =>
    match x f with
    | .ok a f => .ok a { m with active := f :: rest }
    | .error e f => .error (.fatal (.inconsistent e)) { m with active := f :: rest }

def push (v : Value) : MachineM Unit := onTop (Frame.push v)

def popFrame : MachineM Unit := modify fun m => { m with active := m.active.tail }

/-- Keeps objects alive while `x` runs. -/
def pinning {α : Type} (rs : List Ref) (x : MachineM α) : MachineM α := do
  updateHeap (·.pinAll rs)
  ensuring x fun m => { m with heap := m.heap.unpinAll rs }

/-- Runs `x` with no frames; the frames that were there come back afterwards. -/
def onFreshStack {α : Type} (x : MachineM α) : MachineM α := fun m =>
  ensuring x (fun n => { n with active := m.active }) { m with active := [] }

/-- Exchanges the frames of the running thread with those in its record. -/
def swapStack (thread : ThreadId) (m : Machine) : Machine :=
  match m.scheduler.get? thread with
  | some t =>
    { m with
      scheduler := m.scheduler.update thread fun t => { t with stack := m.active }
      active := t.stack }
  | none => m

/-- Runs `x` with the frames of the thread in its record, where a collection finds them. -/
def withParked {α : Type} (thread : ThreadId) (x : MachineM α) : MachineM α := do
  modify (swapStack thread)
  ensuring x (swapStack thread)

/-- Puts the frames of the running thread into its record. -/
def saveStack (thread : ThreadId) (m : Machine) : Machine :=
  { m with
    scheduler := m.scheduler.update thread fun t => { t with stack := m.active }
    active := [] }

/-- Takes the frames of a thread out of its record. -/
def takeStack (thread : ThreadId) (m : Machine) : Machine :=
  match m.scheduler.get? thread with
  | some t =>
    { m with
      scheduler := m.scheduler.update thread fun t => { t with stack := [] }
      active := t.stack }
  | none => m

end Machine

end ClassMachine
