import ClassMachine.Monitor

/-!
Thread records. A record says whether its thread may run, what it waits for and who waits for it;
the stack it will go on with is a parameter.
-/
namespace ClassMachine

/-- How long a thread is to be left alone, in milliseconds. -/
inductive Timeout where
  | indefinite
  | millis (n : UInt64)
  deriving DecidableEq, Repr, Inhabited

inductive ThreadState where
  | ready
  | detachedUntil (deadline : UInt64)
  | detached
  | terminated
  deriving DecidableEq, Repr, Inhabited

/-- Why a thread is after a monitor: to enter it, or to leave `wait`. -/
inductive MonitorWait where
  | enter
  | wait
  deriving DecidableEq, Repr, Inhabited

/-- The monitor a thread has to hold before it goes on. -/
structure PendingMonitor where
  object : Ref
  token : WaitToken
  reason : MonitorWait
  deriving DecidableEq, Repr, Inhabited

structure Thread (σ : Type) where
  id : ThreadId
  object : Ref
  stack : σ
  state : ThreadState := .ready
  interrupted : Bool := false
  interruptible : Bool := false
  pending : Option PendingMonitor := none
  /-- Threads to wake when this one ends. -/
  joiners : List ThreadId := []
  /-- Made for a call of the host and gone with it. -/
  synthetic : Bool := false
  deriving DecidableEq, Repr, Inhabited

namespace Thread

variable {σ : Type}

def isAlive (t : Thread σ) : Bool := t.state ≠ .terminated

def isDetached (t : Thread σ) : Bool :=
  match t.state with
  | .detached | .detachedUntil _ => true
  | _ => false

def deadline? (t : Thread σ) : Option UInt64 :=
  match t.state with
  | .detachedUntil deadline => some deadline
  | _ => none

/-- Whether an interrupt leaves the thread where it is: it is queued to enter a monitor. -/
def isEntering (t : Thread σ) : Bool :=
  match t.pending with
  | some p => p.reason = .enter
  | none => false

end Thread

end ClassMachine
