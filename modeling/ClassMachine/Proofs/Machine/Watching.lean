import ClassMachine.Machine.Host

/-!
Runs that are watched. A run shows its outcome alone; to say what holds in the middle of one, an
observer is let in wherever a thread is between two instructions, and between slices. An observer that
does nothing leaves the run as it is.

Others are told before a static initializer starts as well. The only calls an instruction makes by itself
are those of static initializers, so whoever is told of these calls is told of every initializer that
starts, however deeply it is nested in others.
-/
namespace ClassMachine.Machine

/-- What is let in between instructions. It is told whose frames are the active ones, if any. -/
abbrev Observer := Option ThreadId → MachineM Unit

/-- The observer that does nothing. -/
def Observer.idle : Observer := fun _ => return

namespace Watched

variable (look : Observer)

def execute (k : Nested) (thread : ThreadId) : Nat → MachineM SliceEnd
  | 0 => return .yielded
  | budget + 1 => do
    look (some thread)
    match ← attempt (executeOne k thread) with
    | .ok .next => execute k thread budget
    | .ok .pause => return (← get).pausedEnd thread
    | .ok (.finished v) => return .finished v
    | .error trap =>
      match ← handleTrap thread trap with
      | some ended => return ended
      | none => execute k thread budget

def resume (k : Nested) (thread : ThreadId) (budget : Nat) : MachineM SliceEnd := do
  match ← onSync (Sync.resume thread) with
  | .error (.fatal e) => fatal e
  | .error (.monitor e) => raiseSync (.monitor e)
  | .ok .blocked => return .blocked
  | .ok _ =>
    if ← takeParkedInterrupt thread then
      match ← attempt (raise (α := Unit) CoreName.interrupted none) with
      | .ok () => execute look k thread budget
      | .error trap =>
        match ← handleTrap thread trap with
        | some ended => return ended
        | none => execute look k thread budget
    else execute look k thread budget

def runSlice (k : Nested) (thread : ThreadId) : MachineM SliceEnd := do
  modify fun m => { m with yieldRequested := false }
  let m ← get
  match m.scheduler.get? thread with
  | none => return .blocked
  | some _ =>
    modify (takeStack thread)
    ensuring (resume look k thread m.config.sliceCycles.toNat) (saveStack thread)

def driveSlices (k : Nested) (thread : ThreadId) (method : MethodId) : Nat → MachineM (Option Value)
  | 0 => outOfFuel
  | fuel + 1 => do
    let ended ← runSlice look k thread
    look none
    match ended with
    | .finished v => return v
    | .uncaught exception => throw (.exception exception)
    | .yielded => driveSlices k thread method fuel
    | .blocked =>
      awaitDeadline thread method
      driveSlices k thread method fuel

def drive (k : Nested) (fuel : Nat) (thread : ThreadId) (method : MethodId) (args : List Value) :
    MachineM (Option Value) :=
  onFreshStack do
    ensureInitialized k thread method.owner
    match ← invokeMethod k thread method args with
    | .finished v => return v
    | _ =>
      modify (saveStack thread)
      driveSlices look k thread method fuel

def runSynthetic (k : Nested) (fuel : Nat) (method : MethodId) (args : List Value) :
    MachineM (Option Value) := do
  let yieldRequested := (← get).yieldRequested
  let thread ← spawnThread .null
  updateThread thread fun t => { t with synthetic := true }
  ensuring (drive look k fuel thread method args) fun m =>
    { m with
      scheduler := ((m.scheduler.terminate thread).2.remove thread).2
      yieldRequested := yieldRequested }

def nested : Nat → Nested
  | 0 => ⟨fun _ _ => outOfFuel, fun _ _ _ => outOfFuel⟩
  | fuel + 1 =>
    ⟨fun method args => runSynthetic look (nested fuel) fuel method args,
      fun thread method args => enterThread (nested fuel) thread method args⟩

def step (fuel : Nat) : MachineM (Option ThreadId) := do
  look none
  match ← onScheduler Scheduler.next with
  | none => return none
  | some thread =>
    let ended ← ensuring (runSlice look (nested look fuel) thread) fun m =>
      { m with scheduler := m.scheduler.endSlice }
    look none
    match ended with
    | .finished _ =>
      let _ ← onScheduler (·.terminate thread)
    | .uncaught exception => threadDied thread exception
    | _ => pure ()
    return some thread

def runSlices (fuel : Nat) : Nat → MachineM RunOutcome
  | 0 => outOfFuel
  | slices + 1 => do
    if ← onScheduler Scheduler.drain then return .stopped
    else if (← get).scheduler.liveCount = 0 then return .finished
    else
      match ← step look fuel with
      | some _ => runSlices fuel slices
      | none =>
        match (← get).scheduler.nextDeadline? with
        | some deadline =>
          modify fun m => { m with scheduler := m.scheduler.idleUntil deadline }
          runSlices fuel slices
        | none => return .idle

-- Only the watched side is unfolded: after rewriting it is the body of the unwatched one.
section Idle

variable (k : Nested) (thread : ThreadId) (method : MethodId)

theorem execute_idle (budget : Nat) : execute .idle k thread budget = Machine.execute k thread budget := by
  induction budget with
  | zero => rfl
  | succ budget ih =>
    unfold execute
    rw [ih]
    rfl

theorem resume_idle (budget : Nat) : resume .idle k thread budget = Machine.resume k thread budget := by
  unfold resume
  rw [execute_idle]
  rfl

theorem runSlice_idle : runSlice .idle k thread = Machine.runSlice k thread := by
  unfold runSlice
  simp only [resume_idle]
  rfl

theorem driveSlices_idle (fuel : Nat) :
    driveSlices .idle k thread method fuel = Machine.driveSlices k thread method fuel := by
  induction fuel with
  | zero => rfl
  | succ fuel ih =>
    unfold driveSlices
    rw [ih, runSlice_idle]
    rfl

theorem runSynthetic_idle (fuel : Nat) (args : List Value) :
    runSynthetic .idle k fuel method args = Machine.runSynthetic k fuel method args := by
  unfold runSynthetic drive
  simp only [driveSlices_idle]
  rfl

/-- Watching by itself changes nothing. -/
theorem nested_idle (fuel : Nat) : nested .idle fuel = Machine.nested fuel := by
  induction fuel with
  | zero => rfl
  | succ fuel ih =>
    unfold nested Machine.nested
    simp only [runSynthetic_idle, ih]

theorem step_idle (fuel : Nat) : step .idle fuel = Machine.step fuel := by
  unfold step
  simp only [runSlice_idle, nested_idle]
  rfl

theorem runSlices_idle (fuel slices : Nat) :
    runSlices .idle fuel slices = Machine.runSlices fuel slices := by
  induction slices with
  | zero => rfl
  | succ slices ih =>
    unfold runSlices
    rw [ih, step_idle]
    rfl

end Idle

end Watched

end ClassMachine.Machine

namespace ClassMachine

/-- What a host asks of a machine. -/
inductive HostCall where
  | load (d : ClassDefinition)
  | invoke (fuel : Nat) (className name descriptor : String) (args : List Value)
  | spawn (fuel : Nat) (className name descriptor : String) (args : List Value)
  | step (fuel : Nat)
  | run (fuel : Nat)
  /-- Posts a request, which the next run serves. -/
  | send (r : HostRequest)
  | attach (t : ThreadId)
  | interrupt (t : ThreadId)
  | advance (millis : UInt64)
  | newString (text : String)
  | collect

namespace Machine

/-- Runs a method to its end, by calls that nest as `k` says. -/
def invokeWith (k : Nested) (className name descriptor : String) (args : List Value) :
    HostM (Option Value) := do
  let method ← findMethod className name descriptor
  forHost (k.call method args)

/-- Starts a thread on a method, by calls that nest as `k` says. -/
def spawnWith (k : Nested) (className name descriptor : String) (args : List Value) : HostM ThreadId := do
  let method ← findMethod className name descriptor
  forHost do
    let thread ← spawnThread .null
    match ← attempt (k.enter thread method args) with
    | .ok () => return thread
    | .error trap =>
      let _ ← onScheduler (·.terminate thread)
      throw trap

end Machine

namespace HostCall
open Machine

def serve : HostCall → HostM Unit
  | load d => do let _ ← Machine.load d
  | invoke fuel className name descriptor args => do
    let _ ← Machine.invoke fuel className name descriptor args
  | spawn fuel className name descriptor args => do
    let _ ← Machine.spawn fuel className name descriptor args
  | step fuel => do let _ ← forHost (Machine.step fuel)
  | run fuel => do let _ ← forHost (Machine.run fuel)
  | send r => modify fun m => { m with scheduler := m.scheduler.send r }
  | attach t => modify fun m => { m with scheduler := (m.scheduler.attach t).2 }
  | interrupt t => modify fun m => { m with scheduler := (m.scheduler.interrupt t).2 }
  | advance millis => modify fun m => { m with scheduler := m.scheduler.advance millis }
  | newString text => do let _ ← Machine.newString text
  | collect => do let _ ← forHost collectGarbage

/-- The same, with an observer let in between instructions. -/
def watched (look : Observer) : HostCall → HostM Unit
  | invoke fuel className name descriptor args => do
    let _ ← invokeWith (Watched.nested look fuel) className name descriptor args
  | spawn fuel className name descriptor args => do
    let _ ← spawnWith (Watched.nested look fuel) className name descriptor args
  | step fuel => do let _ ← forHost (Watched.step look fuel)
  | run fuel => do let _ ← forHost (Watched.runSlices look fuel fuel)
  | c => c.serve

/-- A call is served the same when nobody looks. -/
theorem watched_idle (c : HostCall) : c.watched .idle = c.serve := by
  have hdone : ∀ {α : Type} {x y : HostM α}, x = y →
      (do let _ ← x : HostM Unit) = (do let _ ← y : HostM Unit) := fun h => h ▸ rfl
  cases c with
  | invoke fuel className name descriptor args =>
    exact hdone (congrArg (invokeWith · className name descriptor args) (Watched.nested_idle fuel))
  | spawn fuel className name descriptor args =>
    exact hdone (congrArg (spawnWith · className name descriptor args) (Watched.nested_idle fuel))
  | step fuel => exact hdone (congrArg forHost (Watched.step_idle fuel))
  | run fuel => exact hdone (congrArg forHost (Watched.runSlices_idle fuel fuel))
  | _ => rfl

/-- While the call is served the machine is `n` between two instructions, with the frames of `running`
active: an observer that is idle everywhere else can tell. -/
def Visits (c : HostCall) (m : Machine) (running : Option ThreadId) (n : Machine) : Prop :=
  ∃ look : Observer, (∀ r n', ¬(r = running ∧ n' = n) → look r n' = .ok () n') ∧
    c.watched look m ≠ c.serve m

/-- Serves calls one after the other as long as they come to a result. -/
def serveAll (cs : List HostCall) (m : Machine) : Option Machine :=
  cs.foldlM (fun m c => match c.serve m with
    | .ok _ m' => some m'
    | .error _ _ => none) m

theorem serveAll_cons {c : HostCall} {cs : List HostCall} {m m' : Machine} :
    serveAll (c :: cs) m = some m' ↔ ∃ m₁, c.serve m = .ok () m₁ ∧ serveAll cs m₁ = some m' := by
  unfold serveAll
  rw [List.foldlM_cons]
  cases c.serve m with
  | ok u m₁ =>
    constructor
    · exact fun h => ⟨m₁, rfl, h⟩
    · rintro ⟨_, heq, h⟩
      cases heq
      exact h
  | error e m₁ =>
    constructor
    · intro h
      cases h
    · rintro ⟨_, heq, _⟩
      cases heq

/-- What each call keeps that comes to a result, all of them keep. -/
theorem serveAll_keeps {P : Machine → Prop} {cs : List HostCall} {m m' : Machine}
    (hP : ∀ c ∈ cs, ∀ n n', c.serve n = .ok () n' → P n → P n') (h : serveAll cs m = some m') (hm : P m) : P m' := by
  induction cs generalizing m with
  | nil =>
    cases h
    exact hm
  | cons c cs ih =>
    obtain ⟨m₁, hfirst, hrest⟩ := serveAll_cons.1 h
    exact ih (fun c' hc' => hP c' (List.mem_cons_of_mem c hc')) hrest (hP c (by simp) m m₁ hfirst hm)

end HostCall

/-- Is let in between instructions, and before a static initializer starts. -/
structure Announcer where
  between : Machine.Observer
  start : MethodId → MachineM Unit

def Announcer.silent : Announcer := ⟨.idle, fun _ => return⟩

namespace Machine

/-- Announces the calls that instructions make by themselves. -/
def announcing (a : Announcer) (k : Nested) : Nested :=
  ⟨fun method args => do
    a.start method
    k.call method args, k.enter⟩

namespace Announced

variable (a : Announcer)

/-- Calls that nest at most so deeply. The outermost is made by a host and is not announced. -/
def nested : Nat → Nested
  | 0 => ⟨fun _ _ => outOfFuel, fun _ _ _ => outOfFuel⟩
  | fuel + 1 =>
    ⟨fun method args => Watched.runSynthetic a.between (announcing a (nested fuel)) fuel method args,
      fun thread method args => enterThread (announcing a (nested fuel)) thread method args⟩

def step (fuel : Nat) : MachineM (Option ThreadId) := do
  a.between none
  match ← onScheduler Scheduler.next with
  | none => return none
  | some thread =>
    let ended ← ensuring (Watched.runSlice a.between (announcing a (nested a fuel)) thread) fun m =>
      { m with scheduler := m.scheduler.endSlice }
    a.between none
    match ended with
    | .finished _ =>
      let _ ← onScheduler (·.terminate thread)
    | .uncaught exception => threadDied thread exception
    | _ => pure ()
    return some thread

def runSlices (fuel : Nat) : Nat → MachineM RunOutcome
  | 0 => outOfFuel
  | slices + 1 => do
    if ← onScheduler Scheduler.drain then return .stopped
    else if (← get).scheduler.liveCount = 0 then return .finished
    else
      match ← step a fuel with
      | some _ => runSlices fuel slices
      | none =>
        match (← get).scheduler.nextDeadline? with
        | some deadline =>
          modify fun m => { m with scheduler := m.scheduler.idleUntil deadline }
          runSlices fuel slices
        | none => return .idle

theorem announcing_silent (k : Nested) : announcing .silent k = k := rfl

theorem nested_silent (fuel : Nat) : nested .silent fuel = Machine.nested fuel := by
  induction fuel with
  | zero => rfl
  | succ fuel ih =>
    unfold nested Machine.nested
    rw [ih, announcing_silent]
    simp only [Announcer.silent, Watched.runSynthetic_idle]

theorem step_silent (fuel : Nat) : step .silent fuel = Machine.step fuel := by
  unfold step Machine.step
  rw [nested_silent, announcing_silent]
  simp only [Announcer.silent, Watched.runSlice_idle]
  rfl

theorem runSlices_silent (fuel slices : Nat) :
    runSlices .silent fuel slices = Machine.runSlices fuel slices := by
  induction slices with
  | zero => rfl
  | succ slices ih =>
    unfold runSlices
    simp only [ih, step_silent]
    rfl

end Announced

end Machine

namespace HostCall
open Machine

/-- Serves a call of a host, static initializers being announced. -/
def announced (a : Announcer) : HostCall → HostM Unit
  | invoke fuel className name descriptor args => do
    let _ ← invokeWith (Announced.nested a fuel) className name descriptor args
  | spawn fuel className name descriptor args => do
    let _ ← spawnWith (Announced.nested a fuel) className name descriptor args
  | step fuel => do let _ ← forHost (Announced.step a fuel)
  | run fuel => do let _ ← forHost (Announced.runSlices a fuel fuel)
  | c => c.serve

/-- A call is served the same when nothing is made of the announcements. -/
theorem announced_silent (c : HostCall) : c.announced .silent = c.serve := by
  have hdone : ∀ {α : Type} {x y : HostM α}, x = y →
      (do let _ ← x : HostM Unit) = (do let _ ← y : HostM Unit) := fun h => h ▸ rfl
  cases c with
  | invoke fuel className name descriptor args =>
    exact hdone (congrArg (invokeWith · className name descriptor args) (Announced.nested_silent fuel))
  | spawn fuel className name descriptor args =>
    exact hdone (congrArg (spawnWith · className name descriptor args) (Announced.nested_silent fuel))
  | step fuel => exact hdone (congrArg forHost (Announced.step_silent fuel))
  | run fuel => exact hdone (congrArg forHost (Announced.runSlices_silent fuel fuel))
  | _ => rfl

end HostCall

/-- What a host does with a machine. -/
inductive HostAct where
  | offer (owner name descriptor : String) (native : HostNative)
  | call (c : HostCall)

namespace HostAct
open Machine

def announced (a : Announcer) : HostAct → HostM Unit
  | offer owner name descriptor native => do let _ ← registerNative owner name descriptor native
  | call c => c.announced a

/-- The machine after it was asked for something, whatever came of it. -/
def leaving (x : HostM Unit) (m : Machine) : Machine :=
  match x m with
  | .ok _ m' => m'
  | .error _ m' => m'

/-- The machine after a host has done one thing after the other. -/
def performed (a : Announcer) (acts : List HostAct) (m : Machine) : Machine :=
  acts.foldl (fun m act => leaving (act.announced a) m) m

end HostAct

end ClassMachine
