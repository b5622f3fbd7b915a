import ClassMachine.Bytecode.Assembler
import ClassMachine.Class.Hierarchy

/-!
The core classes every machine has. A class source may bring its own; the others are defined here
with the least they need, their bodies put together by the assembler.
-/
namespace ClassMachine.Core

def publicFinal : AccessFlags := AccessFlags.publicFlag.union .finalFlag

def publicStatic : AccessFlags := AccessFlags.publicFlag.union .staticFlag

/-- Every throwable below the root one, with its superclass, superclasses first. -/
def throwables : List (String × String) := [
  (CoreName.exception, CoreName.throwable),
  (CoreName.error, CoreName.throwable),
  (CoreName.runtimeException, CoreName.exception),
  (CoreName.nullPointer, CoreName.runtimeException),
  (CoreName.arithmetic, CoreName.runtimeException),
  (CoreName.indexOutOfBounds, CoreName.runtimeException),
  (CoreName.arrayIndexOutOfBounds, CoreName.indexOutOfBounds),
  (CoreName.negativeArraySize, CoreName.runtimeException),
  (CoreName.classCast, CoreName.runtimeException),
  (CoreName.arrayStore, CoreName.runtimeException),
  (CoreName.illegalArgument, CoreName.runtimeException),
  (CoreName.illegalMonitorState, CoreName.runtimeException),
  (CoreName.illegalThreadState, CoreName.illegalArgument),
  (CoreName.interrupted, CoreName.exception),
  (CoreName.virtualMachineError, CoreName.error),
  (CoreName.outOfMemory, CoreName.virtualMachineError),
  (CoreName.stackOverflow, CoreName.virtualMachineError),
  (CoreName.linkageError, CoreName.error),
  (CoreName.noClassDefFound, CoreName.linkageError),
  (CoreName.incompatibleClassChange, CoreName.linkageError),
  (CoreName.noSuchMethod, CoreName.incompatibleClassChange),
  (CoreName.noSuchField, CoreName.incompatibleClassChange),
  (CoreName.abstractMethod, CoreName.incompatibleClassChange),
  (CoreName.unsatisfiedLink, CoreName.linkageError)]

/-- A body that returns at once. -/
def emptyBody (maxLocals : Nat) : RawCode := ⟨0, maxLocals, #[0xb1], []⟩

/-- Receiver, first argument and a call of the constructor `index`. -/
def callConstructor (index : Nat) (withArgument : Bool) : List UInt8 :=
  0x2a :: (if withArgument then [0x2b] else []) ++ 0xb7 :: bytes16 index

/-- A constructor that hands its argument, if it has one, to the superclass. -/
def chainingConstructor (b : ClassBuilder) (superName : String) (withMessage : Bool) : ClassBuilder :=
  let descriptor := if withMessage then "(Ljava/lang/String;)V" else "()V"
  let (target, b) := b.constant (.methodRef ⟨superName, "<init>", descriptor⟩)
  let code := (callConstructor target withMessage ++ [0xb1]).toArray
  b.method "<init>" descriptor .publicFlag ⟨2, if withMessage then 2 else 1, code, []⟩

/-- A constructor that stores its argument in a field. -/
def storingConstructor (b : ClassBuilder) (descriptor : String) (field : Nat) : ClassBuilder :=
  let (target, b) := b.constant (.methodRef ⟨CoreName.object, "<init>", "()V"⟩)
  let code := callConstructor target false ++ [0x2a, 0x2b, 0xb5] ++ bytes16 field ++ [0xb1]
  b.method "<init>" descriptor .publicFlag ⟨2, 2, code.toArray, []⟩

/-- One if both arguments are the same reference, else zero. -/
def sameReference : Except AssemblyError RawCode :=
  let (differ, a) := ({ maxStack := 2, maxLocals := 2 } : Assembler).label
  let a := ((a.raw [0x2a, 0x2b]).branch 0xa6 differ).raw [0x04, 0xac]
  ((a.bind differ).raw [0x03, 0xac]).finish

def object : Except AssemblyError ClassDefinition := do
  let b := (ClassBuilder.ofName CoreName.object).method "<init>" "()V" .publicFlag (emptyBody 1)
  let b := b.method "equals" "(Ljava/lang/Object;)Z" .publicFlag (← sameReference)
  let b := b.nativeMethod "wait" "()V" publicFinal
  let b := b.nativeMethod "wait" "(J)V" publicFinal
  let b := b.nativeMethod "notify" "()V" publicFinal
  let b := b.nativeMethod "notifyAll" "()V" publicFinal
  let b := b.nativeMethod "hashCode" "()I" .publicFlag
  let b := b.nativeMethod "getClass" "()Ljava/lang/Class;" publicFinal
  return b.build

def finalClass (name : String) : ClassDefinition :=
  (((ClassBuilder.ofName name).withFlags publicFinal).method "<init>" "()V" .publicFlag
    (emptyBody 1)).build

def runnable : ClassDefinition :=
  ((ClassBuilder.ofInterface CoreName.runnable).abstractMethod "run" "()V").build

/-- Calls `run` on the stored target unless it is null. -/
def runTarget (target run : Nat) : Except AssemblyError RawCode :=
  let (absent, a) := ({ maxStack := 2, maxLocals := 1 } : Assembler).label
  let a := (((a.emit 0x2a).emitShort 0xb4 target).emit 0x59).branch 0xc6 absent
  let a := ((a.invokeInterface run 1).emit 0xb1).bind absent
  (a.raw [0x57, 0xb1]).finish

def thread : Except AssemblyError ClassDefinition := do
  let b := (ClassBuilder.ofName CoreName.thread).implementing CoreName.runnable
  let b := b.field "target" "Ljava/lang/Runnable;" .privateFlag
  let (target, b) := b.constant (.fieldRef ⟨CoreName.thread, "target", "Ljava/lang/Runnable;"⟩)
  let (run, b) := b.constant (.interfaceMethodRef ⟨CoreName.runnable, "run", "()V"⟩)
  let b := chainingConstructor b CoreName.object false
  let b := storingConstructor b "(Ljava/lang/Runnable;)V" target
  let b := b.method "run" "()V" .publicFlag (← runTarget target run)
  let b := b.nativeMethod "start" "()V" .publicFlag
  let b := b.nativeMethod "interrupt" "()V" .publicFlag
  let b := b.nativeMethod "isAlive" "()Z" publicFinal
  let b := b.nativeMethod "join" "()V" publicFinal
  let b := b.nativeMethod "sleep" "(J)V" publicStatic
  let b := b.nativeMethod "yield" "()V" publicStatic
  let b := b.nativeMethod "currentThread" "()Ljava/lang/Thread;" publicStatic
  return b.build

def system : ClassDefinition :=
  let b := (ClassBuilder.ofName CoreName.system).withFlags publicFinal
  let b := b.nativeMethod "gc" "()V" publicStatic
  let b := b.nativeMethod "arraycopy" "(Ljava/lang/Object;ILjava/lang/Object;II)V" publicStatic
  let b := b.nativeMethod "currentTimeMillis" "()J" publicStatic
  (b.nativeMethod "identityHashCode" "(Ljava/lang/Object;)I" publicStatic).build

def throwable : ClassDefinition :=
  let b := (ClassBuilder.ofName CoreName.throwable).field "message" "Ljava/lang/String;" .privateFlag
  let (message, b) := b.constant (.fieldRef ⟨CoreName.throwable, "message", "Ljava/lang/String;"⟩)
  let b := chainingConstructor b CoreName.object false
  let b := storingConstructor b "(Ljava/lang/String;)V" message
  let read := 0x2a :: 0xb4 :: bytes16 message ++ [0xb0]
  (b.method "getMessage" "()Ljava/lang/String;" .publicFlag ⟨1, 1, read.toArray, []⟩).build

def subclassOf (name superName : String) : ClassDefinition :=
  let b := (ClassBuilder.ofName name).extending superName
  (chainingConstructor (chainingConstructor b superName false) superName true).build

/-- All core classes, superclasses before subclasses. -/
def definitions : Except AssemblyError (List ClassDefinition) := do
  return [← object, finalClass CoreName.type, finalClass CoreName.string, runnable, ← thread, system,
    throwable] ++ throwables.map fun (name, superName) => subclassOf name superName

/-- Loads one core class unless a class of that name is there. -/
def installOne (installed : Nat) (d : ClassDefinition) : StateM ClassTable Nat := do
  if ((← get).lookup? d.name).isSome then return installed
  match ← ClassTable.register d with
  | .ok _ =>
    modify fun t => t.record .info d.name "installed built-in core class"
    return installed + 1
  | .error _ => return installed

/-- Loads the core classes that are missing and counts them. -/
def install : StateM ClassTable (Except AssemblyError Nat) := do
  match definitions with
  | .ok ds => return .ok (← ds.foldlM installOne 0)
  | .error e => return .error e

end ClassMachine.Core
