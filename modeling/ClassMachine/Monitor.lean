import ClassMachine.Value

/-!
Object monitors. A monitor records who owns it, how deeply, who waits for a notification and who is
queued for ownership. It never blocks anyone: it answers who is to run next, and its callers park
and wake threads.
-/
namespace ClassMachine

/-- A thread in line for a monitor, with the depth at which it will hold it. -/
structure WaitToken where
  thread : ThreadId
  reentrancy : UInt32
  deriving DecidableEq, Repr, Inhabited

inductive MonitorError where
  | notOwner (thread : ThreadId)
  | overflow (thread : ThreadId)
  deriving DecidableEq, Repr

def MonitorError.message : MonitorError → String
  | notOwner thread => s!"{thread.text} does not own the monitor"
  | overflow thread => s!"monitor reentrancy overflow on {thread.text}"

inductive Entry where
  | acquired
  | queued
  deriving DecidableEq, Repr, Inhabited

/-- Waiters and entrants stand in the order they came. -/
structure Monitor where
  owner : Option ThreadId := none
  count : UInt32 := 0
  waiters : List WaitToken := []
  entrants : List WaitToken := []
  deriving DecidableEq, Repr, Inhabited

namespace Monitor

def isIdle (m : Monitor) : Bool := m.owner.isNone && m.waiters.isEmpty && m.entrants.isEmpty

/-- Whether a thread owns the monitor, as every operation but entering asks for. -/
def ownedBy (m : Monitor) (thread : ThreadId) : Bool := m.owner = some thread && 0 < m.count

/-- Puts a thread in line unless it is there already. -/
def queue (m : Monitor) (token : WaitToken) : Monitor :=
  if m.entrants.any (·.thread = token.thread) then m
  else { m with entrants := m.entrants ++ [token] }

/-- Passes a monitor without owner to the first entrant. -/
def handOff (m : Monitor) : Option WaitToken × Monitor :=
  match m.entrants with
  | [] => (none, m)
  | next :: rest =>
    (some next, { m with owner := some next.thread, count := next.reentrancy, entrants := rest })

/-- Acquires the monitor, enters it once more, or queues the thread. -/
def enter (m : Monitor) (thread : ThreadId) : Except MonitorError (Entry × Monitor) :=
  match m.owner with
  | none => .ok (.acquired, { m with owner := some thread, count := 1 })
  | some owner =>
    if owner = thread then
      if m.count = 0xffffffff then .error (.overflow thread)
      else .ok (.acquired, { m with count := m.count + 1 })
    else .ok (.queued, m.queue ⟨thread, 1⟩)

/-- Leaves one level. After the last one the monitor passes to the returned entrant. -/
def exit (m : Monitor) (thread : ThreadId) : Except MonitorError (Option WaitToken × Monitor) :=
  if m.ownedBy thread then
    if 1 < m.count then .ok (none, { m with count := m.count - 1 })
    else .ok ({ m with owner := none, count := 0 }.handOff)
  else .error (.notOwner thread)

/-- Releases the monitor and waits. Returns the token to come back with and the entrant that took over. -/
def wait (m : Monitor) (thread : ThreadId) :
    Except MonitorError ((WaitToken × Option WaitToken) × Monitor) :=
  if m.ownedBy thread then
    let token : WaitToken := ⟨thread, m.count⟩
    let (next, m) :=
      { m with owner := none, count := 0, waiters := m.waiters ++ [token] }.handOff
    .ok ((token, next), m)
  else .error (.notOwner thread)

/-- Queues the longest waiter. -/
def notify (m : Monitor) (thread : ThreadId) : Except MonitorError (Option WaitToken × Monitor) :=
  if m.ownedBy thread then
    match m.waiters with
    | [] => .ok (none, m)
    | token :: rest => .ok (some token, { m with waiters := rest }.queue token)
  else .error (.notOwner thread)

/-- Queues every waiter. -/
def notifyAll (m : Monitor) (thread : ThreadId) : Except MonitorError (List WaitToken × Monitor) :=
  if m.ownedBy thread then
    .ok (m.waiters, m.waiters.foldl queue { m with waiters := [] })
  else .error (.notOwner thread)

def withoutWaiter (m : Monitor) (thread : ThreadId) : Monitor :=
  { m with waiters := m.waiters.filter (·.thread ≠ thread) }

/-- Comes back with a token: the thread stops waiting, and owns the monitor at once when it does
already or when nobody owns it or is queued before. -/
def reacquire (m : Monitor) (token : WaitToken) : Entry × Monitor :=
  let m := m.withoutWaiter token.thread
  if m.owner = some token.thread then (.acquired, m)
  else if m.owner.isNone && m.entrants.all (·.thread = token.thread) then
    (.acquired, { m with owner := some token.thread, count := token.reentrancy, entrants := [] })
  else (.queued, m.queue token)

end Monitor

end ClassMachine
