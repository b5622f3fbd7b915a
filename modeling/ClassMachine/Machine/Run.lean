import ClassMachine.Class.Core
import ClassMachine.Machine.Execution

/-!
Slices, threads and whole runs. A slice runs one thread until its budget is used up, it parks, or it
ends; a run picks threads in rotation. Fuel bounds how deeply calls nest and how many slices a run
takes, and a machine that has enough of it never shows how much there was.
-/
namespace ClassMachine

/-- How a slice of a thread ended. -/
inductive SliceEnd where
  | yielded
  | blocked
  | finished (v : Option Value)
  | uncaught (exception : Ref)
  deriving DecidableEq, Repr, Inhabited

inductive RunOutcome where
  | finished
  | stopped
  | idle
  deriving DecidableEq, Repr, Inhabited

namespace Machine

def outOfFuel {α : Type} : MachineM α := throw .outOfFuel

/-- Hands a trap to the frames. An exception nothing catches ends the slice. -/
def handleTrap (thread : ThreadId) : Trap → MachineM (Option SliceEnd)
  | .exception exception => do
    if ← unwind thread exception then return none else return some (.uncaught exception)
  | trap => throw trap

/-- How a slice ends at an instruction that pauses. -/
def pausedEnd (m : Machine) (thread : ThreadId) : SliceEnd :=
  if ((m.scheduler.get? thread).map Thread.isDetached).getD true then .blocked else .yielded

/-- Runs at most so many instructions. -/
def execute (k : Nested) (thread : ThreadId) : Nat → MachineM SliceEnd
  | 0 => return .yielded
  | budget + 1 => do
    match ← attempt (executeOne k thread) with
    | .ok .next => execute k thread budget
    | .ok .pause => return (← get).pausedEnd thread
    | .ok (.finished v) => return .finished v
    | .error trap =>
      match ← handleTrap thread trap with
      | some ended => return ended
      | none => execute k thread budget

/-- Tells whether a thread parked for it was interrupted, and clears both marks. -/
def takeParkedInterrupt (thread : ThreadId) : MachineM Bool := do
  match (← get).scheduler.get? thread with
  | some t =>
    if t.interruptible then
      updateThread thread fun t => { t with interruptible := false, interrupted := false }
      return t.interrupted
    else return false
  | none => return false

/-- Gives a parked thread its monitor back, raises an interrupt, and goes on. -/
def resume (k : Nested) (thread : ThreadId) (budget : Nat) : MachineM SliceEnd := do
  match ← onSync (Sync.resume thread) with
  | .error (.fatal e) => fatal e
  | .error (.monitor e) => raiseSync (.monitor e)
  | .ok .blocked => return .blocked
  | .ok _ =>
    if ← takeParkedInterrupt thread then
      match ← attempt (raise (α := Unit) CoreName.interrupted none) with
      | .ok () => execute k thread budget
      | .error trap =>
        match ← handleTrap thread trap with
        | some ended => return ended
        | none => execute k thread budget
    else execute k thread budget

/-- Runs one slice of a thread, its frames out of its record meanwhile. -/
def runSlice (k : Nested) (thread : ThreadId) : MachineM SliceEnd := do
  modify fun m => { m with yieldRequested := false }
  let m ← get
  match m.scheduler.get? thread with
  | none => return .blocked
  | some _ =>
    modify (takeStack thread)
    ensuring (resume k thread m.config.sliceCycles.toNat) (saveStack thread)

/-- Starts a method on a new thread. A native runs at once and ends the thread. -/
def enterThread (k : Nested) (thread : ThreadId) (method : MethodId) (args : List Value) :
    MachineM Unit :=
  onFreshStack do
    ensureInitialized k thread method.owner
    match ← ensuring (invokeMethod k thread method args) (saveStack thread) with
    | .finished _ =>
      let _ ← onScheduler (·.terminate thread)
    | _ => return

/-- Waits for the deadline of a parked thread made for a call; nothing else can wake it. -/
def awaitDeadline (thread : ThreadId) (method : MethodId) : MachineM Unit := do
  match ((← get).scheduler.get? thread).map (·.state) with
  | some (ThreadState.detachedUntil deadline) =>
    modify fun m => { m with scheduler := ((m.scheduler.idleUntil deadline).wakeExpired).2 }
  | some ThreadState.ready => return
  | _ => fatal (.invalid (.stuckCall method))

/-- Runs slices of one thread until its method ends. -/
def driveSlices (k : Nested) (thread : ThreadId) (method : MethodId) : Nat → MachineM (Option Value)
  | 0 => outOfFuel
  | fuel + 1 => do
    match ← runSlice k thread with
    | .finished v => return v
    | .uncaught exception => throw (.exception exception)
    | .yielded => driveSlices k thread method fuel
    | .blocked =>
      awaitDeadline thread method
      driveSlices k thread method fuel

/-- Runs a method to its end on a thread that is there. -/
def drive (k : Nested) (fuel : Nat) (thread : ThreadId) (method : MethodId) (args : List Value) :
    MachineM (Option Value) :=
  onFreshStack do
    ensureInitialized k thread method.owner
    match ← invokeMethod k thread method args with
    | .finished v => return v
    | _ =>
      modify (saveStack thread)
      driveSlices k thread method fuel

/-- Runs a method to its end on a thread made for it, which is gone afterwards. -/
def runSynthetic (k : Nested) (fuel : Nat) (method : MethodId) (args : List Value) :
    MachineM (Option Value) := do
  let yieldRequested := (← get).yieldRequested
  let thread ← spawnThread .null
  updateThread thread fun t => { t with synthetic := true }
  ensuring (drive k fuel thread method args) fun m =>
    { m with
      scheduler := ((m.scheduler.terminate thread).2.remove thread).2
      yieldRequested := yieldRequested }

/-- Calls that nest at most so deeply. -/
def nested : Nat → Nested
  | 0 => ⟨fun _ _ => outOfFuel, fun _ _ _ => outOfFuel⟩
  | fuel + 1 =>
    ⟨fun method args => runSynthetic (nested fuel) fuel method args,
      fun thread method args => enterThread (nested fuel) thread method args⟩

/-- Runs one slice of the next thread, if there is one. -/
def step (fuel : Nat) : MachineM (Option ThreadId) := do
  match ← onScheduler Scheduler.next with
  | none => return none
  | some thread =>
    let ended ← ensuring (runSlice (nested fuel) thread) fun m =>
      { m with scheduler := m.scheduler.endSlice }
    match ended with
    | .finished _ =>
      let _ ← onScheduler (·.terminate thread)
    | .uncaught exception => threadDied thread exception
    | _ => pure ()
    return some thread

/-- Runs at most so many slices. -/
def runSlices (fuel : Nat) : Nat → MachineM RunOutcome
  | 0 => outOfFuel
  | slices + 1 => do
    if ← onScheduler Scheduler.drain then return .stopped
    else if (← get).scheduler.liveCount = 0 then return .finished
    else
      match ← step fuel with
      | some _ => runSlices fuel slices
      | none =>
        match (← get).scheduler.nextDeadline? with
        | some deadline =>
          modify fun m => { m with scheduler := m.scheduler.idleUntil deadline }
          runSlices fuel slices
        | none => return .idle

/-- Runs threads until all have ended, the host asks to stop, or none can go on by itself. -/
def run (fuel : Nat) : MachineM RunOutcome := runSlices fuel fuel

end Machine

end ClassMachine
