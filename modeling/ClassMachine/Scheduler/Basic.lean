import ClassMachine.Scheduler.Thread
import Std.Data.ExtTreeMap

/-!
The scheduler: thread records by number and the rotation of those that may run. A thread picked to
run goes to the end of the rotation at once; a detached one is out of it until it is attached again
by its deadline, another thread or the host.
-/
namespace ClassMachine

/-- What the host asks for between slices. -/
inductive HostRequest where
  | attach (id : ThreadId)
  | interrupt (id : ThreadId)
  | stop
  deriving DecidableEq, Repr, Inhabited

structure Scheduler (σ : Type) where
  threads : Std.ExtTreeMap ThreadId (Thread σ) := ∅
  ready : List ThreadId := []
  nextId : UInt32 := 1
  current : Option ThreadId := none
  /-- Milliseconds on the clock. -/
  now : UInt64 := 0
  /-- Requests of the host, oldest first. -/
  requests : List HostRequest := []

namespace Scheduler

variable {σ : Type}

instance : Inhabited (Scheduler σ) := ⟨{}⟩

def get? (s : Scheduler σ) (id : ThreadId) : Option (Thread σ) := s.threads[id]?

/-- Thread records in the order of their numbers. -/
def toList (s : Scheduler σ) : List (Thread σ) := s.threads.values

def liveCount (s : Scheduler σ) : Nat := s.toList.countP Thread.isAlive

/-- Changes one record. -/
def update (s : Scheduler σ) (id : ThreadId) (f : Thread σ → Thread σ) : Scheduler σ :=
  { s with threads := s.threads.modify id f }

def withoutReady (s : Scheduler σ) (id : ThreadId) : Scheduler σ :=
  { s with ready := s.ready.filter (· ≠ id) }

/-- Adds a record. Later threads get larger numbers. -/
def insert (s : Scheduler σ) (t : Thread σ) : Scheduler σ :=
  { s with
    threads := s.threads.insert t.id t
    ready := if t.state = .ready then s.ready ++ [t.id] else s.ready
    nextId := max s.nextId (t.id + 1) }

/-- A new thread that may run. -/
def spawn (s : Scheduler σ) (object : Ref) (stack : σ) : ThreadId × Scheduler σ :=
  let id := s.nextId
  (id, { s with nextId := id + 1 }.insert { id := id, object := object, stack := stack })

/-- Puts a detached thread back into the rotation. -/
def attach (s : Scheduler σ) (id : ThreadId) : Bool × Scheduler σ :=
  match s.get? id with
  | some t =>
    if t.isDetached then
      let s := s.update id fun t => { t with state := .ready }
      (true, { s with ready := s.ready ++ [id] })
    else (false, s)
  | none => (false, s)

def attachAll (s : Scheduler σ) (ids : List ThreadId) : Scheduler σ :=
  ids.foldl (fun s id => (s.attach id).2) s

/-- A deadline past the end of time is the end of time. -/
def deadlineAfter (now millis : UInt64) : UInt64 :=
  if now.toNat + millis.toNat < UInt64.size then now + millis else 0xffffffffffffffff

/-- State of a thread detached at `now`. -/
def detachedState (now : UInt64) : Timeout → ThreadState
  | .indefinite => .detached
  | .millis n => .detachedUntil (deadlineAfter now n)

/-- Takes a live thread out of the rotation. -/
def detach (s : Scheduler σ) (id : ThreadId) (timeout : Timeout) : Bool × Scheduler σ :=
  match s.get? id with
  | some t =>
    if t.isAlive then
      (true, (s.update id fun t => { t with state := detachedState s.now timeout }).withoutReady id)
    else (false, s)
  | none => (false, s)

/-- Threads whose deadline has come, in the order of their numbers. -/
def expired (s : Scheduler σ) : List ThreadId :=
  (s.toList.filter fun t => t.deadline?.any (· ≤ s.now)).map (·.id)

/-- Attaches the threads whose deadline has come and counts them. -/
def wakeExpired (s : Scheduler σ) : Nat × Scheduler σ :=
  let due := s.expired
  (due.length, s.attachAll due)

/-- The earliest deadline. -/
def nextDeadline? (s : Scheduler σ) : Option UInt64 := (s.toList.filterMap Thread.deadline?).min?

/-- Picks the thread to run and moves it to the end of the rotation. -/
def next (s : Scheduler σ) : Option ThreadId × Scheduler σ :=
  let (_, s) := s.wakeExpired
  match s.ready with
  | [] => (none, s)
  | id :: rest => (some id, { s with ready := rest ++ [id], current := some id })

def endSlice (s : Scheduler σ) : Scheduler σ := { s with current := none }

def isIdle (s : Scheduler σ) : Bool := s.ready.isEmpty

/-- Strikes a thread off every list of joiners. -/
def forgetJoin (s : Scheduler σ) (waiter : ThreadId) : Scheduler σ :=
  { s with threads := s.threads.map fun _ t =>
      { t with joiners := t.joiners.filter (· ≠ waiter) } }

/-- Marks a live thread interrupted and wakes it, unless it is queued to enter a monitor. -/
def interrupt (s : Scheduler σ) (id : ThreadId) : Bool × Scheduler σ :=
  match s.get? id with
  | some t =>
    if t.isAlive then
      let s := s.update id fun t => { t with interrupted := true }
      if t.isDetached && !t.isEntering then (true, ((s.forgetJoin id).attach id).2) else (true, s)
    else (false, s)
  | none => (false, s)

/-- Clears the interrupt mark and tells whether it was set. -/
def takeInterrupt (s : Scheduler σ) (id : ThreadId) : Bool × Scheduler σ :=
  (((s.get? id).map (·.interrupted)).getD false, s.update id fun t => { t with interrupted := false })

/-- Detaches `waiter` until `target` ends, if that is another live thread. -/
def join (s : Scheduler σ) (waiter target : ThreadId) : Bool × Scheduler σ :=
  match s.get? target with
  | some t =>
    if t.isAlive && target ≠ waiter then
      (s.update target fun t => { t with joiners := t.joiners ++ [waiter] }).detach waiter .indefinite
    else (false, s)
  | none => (false, s)

def withoutCurrent (s : Scheduler σ) (id : ThreadId) : Scheduler σ :=
  { s with current := if s.current = some id then none else s.current }

/-- Ends a thread and wakes its joiners, which are returned. -/
def terminate (s : Scheduler σ) (id : ThreadId) : List ThreadId × Scheduler σ :=
  match s.get? id with
  | some t =>
    let s := s.update id fun t => { t with state := .terminated, pending := none, joiners := [] }
    let s := ((s.withoutReady id).withoutCurrent id).forgetJoin id
    (t.joiners, s.attachAll t.joiners)
  | none => ([], s)

/-- Takes a record out altogether. -/
def remove (s : Scheduler σ) (id : ThreadId) : Option (Thread σ) × Scheduler σ :=
  let rest := (s.withoutReady id).withoutCurrent id
  (s.get? id, { rest with threads := rest.threads.erase id })

/-- Takes out the records of the threads that have ended. -/
def reap (s : Scheduler σ) : List (Thread σ) × Scheduler σ :=
  (s.toList.filter (!·.isAlive), { s with threads := s.threads.filter fun _ t => t.isAlive })

def send (s : Scheduler σ) (r : HostRequest) : Scheduler σ := { s with requests := s.requests ++ [r] }

/-- Serves one request. -/
def serve (s : Scheduler σ) : HostRequest → Scheduler σ
  | .attach id => (s.attach id).2
  | .interrupt id => (s.interrupt id).2
  | .stop => s

/-- Serves all requests and tells whether one of them was to stop. -/
def drain (s : Scheduler σ) : Bool × Scheduler σ :=
  (s.requests.contains .stop, s.requests.foldl serve { s with requests := [] })

/-- Moves the clock on. -/
def advance (s : Scheduler σ) (millis : UInt64) : Scheduler σ := { s with now := s.now + millis }

/-- Moves the clock on to a moment to come. -/
def idleUntil (s : Scheduler σ) (deadline : UInt64) : Scheduler σ :=
  { s with now := max s.now deadline }

end Scheduler

end ClassMachine
