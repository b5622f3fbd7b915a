import ClassMachine.Machine.Unwinding

/-!
Initialization of classes. A static initializer runs to its end inside the instruction that first
needs its class, superclasses first, on a thread of its own.
-/
namespace ClassMachine

/-- Calls an instruction makes that run code of their own before it ends. They are passed as an
argument, so that how deeply calls may nest is decided in one place. -/
structure Nested where
  /-- Runs a method to its end on a thread made for it. -/
  call : MethodId → List Value → MachineM (Option Value)
  /-- Starts a method on a thread that is there. -/
  enter : ThreadId → MethodId → List Value → MachineM Unit

namespace Machine

/-- Takes up the static initializer of one prepared class. -/
def initializeOne (k : Nested) (thread : ThreadId) (id : ClassId) : MachineM Unit := do
  match ← onLinker (Linker.prepare id) with
  | none => return
  | some c =>
    if (← onClasses (ClassTable.takePendingInit id)) = some true then
      modify fun m => { m with statics := m.statics.ensure id c.staticKinds }
      match c.staticInitializer? with
      | none => return
      | some initializer =>
        let _ ← withParked thread (k.call initializer.id [])

/-- Takes up the static initializers of classes one after the other. -/
def initializeAll (k : Nested) (thread : ThreadId) : List ClassId → MachineM Unit
  | [] => return
  | id :: rest => do
    initializeOne k thread id
    initializeAll k thread rest

def isPendingInit (m : Machine) (id : ClassId) : Bool :=
  ((m.classes.get? id).map (·.pendingInit)).getD false

/-- Runs the static initializers of a class and its superclasses that have not been taken up. -/
def ensureInitialized (k : Nested) (thread : ThreadId) (id : ClassId) : MachineM Unit := do
  if (← get).isPendingInit id then
    initializeAll k thread (← onClasses (ClassTable.ancestry id)).reverse

end Machine

end ClassMachine
