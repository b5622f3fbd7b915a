import ClassMachine.Fatal
import ClassMachine.Heap.Basic
import ClassMachine.Scheduler.Basic

/-!
Threads on monitors. Each operation changes the monitor of an object and parks or wakes threads
accordingly; a parked thread remembers the monitor it has to own before it goes on.
-/
namespace ClassMachine

inductive SyncError where
  | monitor (error : MonitorError)
  | fatal (error : Fatal)
  deriving DecidableEq, Repr

def SyncError.message : SyncError → String
  | monitor error => error.message
  | fatal error => error.message

inductive Acquire where
  | acquired
  | blocked
  deriving DecidableEq, Repr, Inhabited

/-- What a thread picked to run finds: nothing pending, its monitor, or the monitor taken. -/
inductive Resume where
  | running
  | reacquired (reason : MonitorWait)
  | blocked
  deriving DecidableEq, Repr, Inhabited

/-- Objects and threads together. An operation that fails keeps what it changed before. -/
structure Arena (σ : Type) where
  heap : Heap
  scheduler : Scheduler σ

abbrev SyncM (σ : Type) := EStateM SyncError (Arena σ)

namespace Sync

variable {σ : Type}

def inconsistent {α : Type} (what : Inconsistency) : SyncM σ α := throw (.fatal (.inconsistent what))

def monitorOf (object : Ref) : SyncM σ Monitor := do
  match (← get).heap.get? object with
  | some o => return o.monitor
  | none => inconsistent (.deadMonitor object)

def setMonitor (object : Ref) (m : Monitor) : SyncM σ Unit :=
  modify fun a => { a with heap := a.heap.update object fun o => { o with monitor := m } }

/-- Runs an operation of a live object's monitor. -/
def onMonitor {α : Type} (object : Ref) (f : Monitor → Except MonitorError (α × Monitor)) :
    SyncM σ α := do
  match f (← monitorOf object) with
  | .ok (a, m) =>
    setMonitor object m
    return a
  | .error e => throw (.monitor e)

def schedule (f : Scheduler σ → Scheduler σ) : SyncM σ Unit :=
  modify fun a => { a with scheduler := f a.scheduler }

/-- Wakes the thread a monitor was passed to. -/
def handOver : Option WaitToken → SyncM σ Unit
  | some token => schedule fun s => (s.attach token.thread).2
  | none => return

/-- Makes a thread remember the monitor it has to own. -/
def park (thread : ThreadId) (pending : PendingMonitor) : SyncM σ Unit := do
  match (← get).scheduler.get? thread with
  | some _ => schedule fun s => s.update thread fun t => { t with pending := some pending }
  | none => inconsistent (.unknownThread thread)

/-- Enters a monitor, or parks the thread until the monitor is passed to it. -/
def enter (thread : ThreadId) (object : Ref) : SyncM σ Acquire := do
  match ← onMonitor object (·.enter thread) with
  | .acquired => return .acquired
  | .queued =>
    park thread ⟨object, ⟨thread, 1⟩, .enter⟩
    schedule fun s => (s.detach thread .indefinite).2
    return .blocked

/-- Leaves a monitor once and wakes its new owner. -/
def exit (thread : ThreadId) (object : Ref) : SyncM σ Unit := do
  handOver (← onMonitor object (·.exit thread))

/-- Releases a monitor and parks the thread until it is notified or its time is up. -/
def wait (thread : ThreadId) (object : Ref) (timeout : Timeout) : SyncM σ Unit := do
  let (token, next) ← onMonitor object (·.wait thread)
  park thread ⟨object, token, .wait⟩
  schedule fun s => (s.detach thread timeout).2
  handOver next

/-- Moves the longest waiter to the queue. It stays parked until the monitor is passed to it. -/
def notify (thread : ThreadId) (object : Ref) : SyncM σ (Option ThreadId) := do
  return (← onMonitor object (·.notify thread)).map (·.thread)

def notifyAll (thread : ThreadId) (object : Ref) : SyncM σ (List ThreadId) := do
  return (← onMonitor object (·.notifyAll thread)).map (·.thread)

/-- Takes the monitor a parked thread asks for. One that owns the monitor already must own it as deeply
as it remembers. -/
def takeMonitor (thread : ThreadId) (p : PendingMonitor) : SyncM σ Entry := do
  let m ← monitorOf p.object
  if m.owner = some thread then
    if m.count = p.token.reentrancy then return .acquired
    else inconsistent (.monitorCount thread p.object m.count p.token.reentrancy)
  else
    let (entry, m) := m.reacquire p.token
    setMonitor p.object m
    return entry

/-- Lets a thread that was picked to run go on, or parks it again behind the monitor's owner. -/
def resume (thread : ThreadId) : SyncM σ Resume := do
  match ((← get).scheduler.get? thread).bind (·.pending) with
  | none => return .running
  | some p =>
    match ← takeMonitor thread p with
    | .queued =>
      schedule fun s => (s.detach thread .indefinite).2
      return .blocked
    | .acquired =>
      schedule fun s => s.update thread fun t => { t with pending := none }
      return .reacquired p.reason

end Sync

end ClassMachine
