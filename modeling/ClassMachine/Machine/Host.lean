import ClassMachine.Machine.Run

/-!
What a host can ask of a machine: to make one, to load classes and natives, to call methods and to
start threads.
-/
namespace ClassMachine

inductive HostError where
  | config (error : ConfigError)
  | assembly (error : AssemblyError)
  | classes (error : ClassError)
  | noSuchMethod (method : String)
  | uncaught (exception : Ref) (className : String) (message : Option String)
  | fatal (error : Fatal)
  | outOfFuel
  deriving DecidableEq, Repr

def HostError.message? : HostError → Option String
  | config error => error.message?
  | assembly error => some s!"core class bootstrap failed: {error.message}"
  | classes error => some error.message
  | noSuchMethod method => some s!"no method {method}"
  | uncaught _ className _ => some s!"uncaught {className}"
  | fatal error => some error.message
  | outOfFuel => none

/-- A request that may fail, and then keeps what it changed before. -/
abbrev HostM := EStateM HostError Machine

namespace Machine

/-- A class that has to be there. -/
def coreClass (name : String) : StateT Linker (Except HostError) ClassId := do
  match (← get).classes.lookup? name with
  | some id => return id
  | none => throw (.classes (.noSuchClass name))

def ofLinker {α : Type} (x : StateM Linker α) : StateT Linker (Except HostError) α := fun l => .ok (x l)

/-- Loads the core classes that are missing. -/
def installCore : StateT Linker (Except HostError) Unit := do
  match ← ofLinker (Linker.onClasses Core.install) with
  | .ok _ => return
  | .error e => throw (.assembly e)

/-- Finds the core classes, and how a throwable keeps its message. -/
def findCore : StateT Linker (Except HostError) CoreClasses := do
  let throwable ← coreClass CoreName.throwable
  let prepared ← ofLinker (Linker.prepare throwable)
  let field := prepared.bind fun c => c.field? "message" "Ljava/lang/String;"
  let string ← coreClass CoreName.string
  let type ← coreClass CoreName.type
  let thread ← coreClass CoreName.thread
  let run ← ofLinker (Linker.intern "run" "()V")
  return { string := string, type := type, thread := thread, run := run
           messageSlot := field.bind (·.slot) }

/-- Layout of the exception thrown when the heap is full. -/
def outOfMemoryObject : StateT Linker (Except HostError) Object := do
  let id ← coreClass CoreName.outOfMemory
  let prepared ← ofLinker (Linker.prepare id)
  return Object.instanceOf id ((prepared.bind fun c => c.layout.map (·.kinds)).getD [])

/-- A machine without threads over the given classes, its clock at `now`. -/
def create (classes : ClassTable) (config : Config) (now : UInt64) : Except HostError Machine := do
  match config.validate with
  | .error e => throw (.config e)
  | .ok () =>
    let start : Linker := { classes := classes, access := config.fieldAccess }
    let ((core, object), linker) ← (do
      installCore
      let core ← findCore
      return (core, ← outOfMemoryObject) : StateT Linker (Except HostError) _).run start
    let (outOfMemory, heap) := (Heap.ofConfig config).insert object
    return { config := config, linker := linker, heap := heap.pin outOfMemory, core := core
             outOfMemory := outOfMemory, scheduler := { now := now } }

/-- How a trap is reported to the host. -/
def hostError (m : Machine) : Trap → HostError
  | .exception r => .uncaught r (m.classNameOf r) (m.messageOf? r)
  | .fatal e => .fatal e
  | .outOfFuel => .outOfFuel

/-- Runs a computation for the host. -/
def forHost {α : Type} (x : MachineM α) : HostM α := fun m =>
  match x m with
  | .ok a m => .ok a m
  | .error e m => .error (m.hostError e) m

/-- Loads a class and prepares it. -/
def load (d : ClassDefinition) : HostM ClassId := do
  match ← forHost (onClasses (ClassTable.register d)) with
  | .ok id =>
    let _ ← forHost (onLinker (Linker.prepare id))
    return id
  | .error e => throw (.classes e)

/-- Offers a native. One for a method that was called before is not taken up. -/
def registerNative (owner name descriptor : String) (native : HostNative) : HostM NativeId := fun m =>
  let (id, natives) := m.natives.register owner name descriptor native
  .ok id { m with natives := natives }

/-- A method by the names of its class and itself, inherited ones included. -/
def findMethod (className name descriptor : String) : HostM MethodId := do
  match (← get).classes.lookup? className with
  | none => throw (.classes (.noSuchClass className))
  | some id =>
    match ← forHost (onClasses (ClassTable.resolveMethod id name descriptor)) with
    | .ok method => return method
    | .error _ => throw (.noSuchMethod s!"{className}.{name}{descriptor}")

/-- Runs a method to its end, the receiver among the arguments. -/
def invoke (fuel : Nat) (className name descriptor : String) (args : List Value) :
    HostM (Option Value) := do
  let method ← findMethod className name descriptor
  forHost ((nested fuel).call method args)

/-- Starts a thread on a method. A start that fails ends the thread. -/
def spawn (fuel : Nat) (className name descriptor : String) (args : List Value) : HostM ThreadId := do
  let method ← findMethod className name descriptor
  forHost do
    let thread ← spawnThread .null
    match ← attempt ((nested fuel).enter thread method args) with
    | .ok () => return thread
    | .error trap =>
      let _ ← onScheduler (·.terminate thread)
      throw trap

/-- A string object with the given text. -/
def newString (text : String) : HostM Ref := forHost (stringObject text)

end Machine

end ClassMachine
