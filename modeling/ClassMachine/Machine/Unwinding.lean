import ClassMachine.Machine.Allocation

/-!
Unwinding: an exception leaves frames, and the monitors held for them, until one of them has a
handler for it.
-/
namespace ClassMachine.Machine

def catches (thrown : ClassId) : CatchType → MachineM Bool
  | .any => return true
  | .type id => onClasses (ClassTable.isSubclass thrown id)
  | .unresolved _ => return false

/-- First of the handlers that guards the instruction at `index` and catches the class. -/
def findHandler (thrown : ClassId) (index : Nat) : List Handler → MachineM (Option Handler)
  | [] => return none
  | h :: rest => do
    if h.covers index then
      if ← catches thrown h.catches then return some h
      else findHandler thrown index rest
    else findHandler thrown index rest

/-- Handler of a frame; its counter stands past the instruction that failed. -/
def handlerOf (thrown : ClassId) (f : Frame) : MachineM (Option Handler) :=
  match f.pc with
  | 0 => return none
  | index + 1 => findHandler thrown index f.code.handlers

/-- Leaves the monitor of a frame that is gone. One that is not owned is left alone. -/
def releaseMonitor (thread : ThreadId) (f : Frame) : MachineM Unit := do
  match f.monitor with
  | none => return
  | some object =>
    match ← onSync (Sync.exit thread object) with
    | .ok () | .error (.monitor _) => return
    | .error (.fatal e) => fatal e

/-- Looks for a handler through the given frames, the running one first. -/
def unwindFrames (thread : ThreadId) (exception : Ref) (thrown : ClassId) :
    FrameStack → MachineM Bool
  | [] => return false
  | f :: rest => do
    match ← handlerOf thrown f with
    | some h =>
      let f := { f with stack := [.ref exception], pc := h.target }
      modify fun m => { m with active := f :: rest }
      return true
    | none =>
      modify fun m => { m with active := rest }
      releaseMonitor thread f
      unwindFrames thread exception thrown rest

/-- Hands an exception to the nearest handler and tells whether there was one. -/
def unwind (thread : ThreadId) (exception : Ref) : MachineM Bool := do
  let m ← get
  match m.heap.get? exception with
  | none => inconsistent (.deadThrown exception)
  | some o => unwindFrames thread exception o.type m.active

/-- Class of the object behind a reference. -/
def classNameOf (m : Machine) (r : Ref) : String :=
  ((m.heap.get? r).map fun o => m.classes.nameOf o.type).getD "<collected>"

/-- Message of a throwable, if it has one. -/
def messageOf? (m : Machine) (exception : Ref) : Option String := do
  let slot ← m.core.messageSlot
  let o ← m.heap.get? exception
  let v ← o.fields[slot]?
  m.heap.text? (← v.ref?)

/-- Exception for an instruction whose symbol is missing. -/
def raiseMissing {α : Type} (u : Unresolved) : MachineM α := do
  match (← get).config.missingSymbol with
  | .abort => fatal (.missingSymbol u.symbol)
  | .throwError =>
    let className :=
      match u.kind with
      | .type => CoreName.noClassDefFound
      | .method => CoreName.noSuchMethod
      | .field => CoreName.noSuchField
    raise className (some u.symbol)

/-- Ends a thread because of an exception nothing caught. -/
def threadDied (thread : ThreadId) (exception : Ref) : MachineM Unit := do
  let m ← get
  let record : UncaughtException :=
    ⟨thread, exception, m.classNameOf exception, m.messageOf? exception⟩
  set { m with
    scheduler := (m.scheduler.terminate thread).2
    uncaught := m.uncaught ++ [record] }
  match m.config.uncaught with
  | .terminateThread => return
  | .abort => fatal (.uncaught thread record.className)

end ClassMachine.Machine
