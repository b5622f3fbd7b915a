import ClassMachine.Class.Definition

/-!
Names of the classes the machine itself refers to; the native methods it implements itself, found by
declaring class, name and descriptor; and what a native method is bound to.
-/
namespace ClassMachine

namespace CoreName

def object : String := objectClass
def type : String := "java/lang/Class"
def string : String := "java/lang/String"
def runnable : String := "java/lang/Runnable"
def thread : String := "java/lang/Thread"
def system : String := "java/lang/System"
def throwable : String := "java/lang/Throwable"
def exception : String := "java/lang/Exception"
def error : String := "java/lang/Error"
def runtimeException : String := "java/lang/RuntimeException"
def nullPointer : String := "java/lang/NullPointerException"
def arithmetic : String := "java/lang/ArithmeticException"
def indexOutOfBounds : String := "java/lang/IndexOutOfBoundsException"
def arrayIndexOutOfBounds : String := "java/lang/ArrayIndexOutOfBoundsException"
def negativeArraySize : String := "java/lang/NegativeArraySizeException"
def classCast : String := "java/lang/ClassCastException"
def arrayStore : String := "java/lang/ArrayStoreException"
def illegalArgument : String := "java/lang/IllegalArgumentException"
def illegalMonitorState : String := "java/lang/IllegalMonitorStateException"
def illegalThreadState : String := "java/lang/IllegalThreadStateException"
def interrupted : String := "java/lang/InterruptedException"
def virtualMachineError : String := "java/lang/VirtualMachineError"
def outOfMemory : String := "java/lang/OutOfMemoryError"
def stackOverflow : String := "java/lang/StackOverflowError"
def linkageError : String := "java/lang/LinkageError"
def noClassDefFound : String := "java/lang/NoClassDefFoundError"
def incompatibleClassChange : String := "java/lang/IncompatibleClassChangeError"
def noSuchMethod : String := "java/lang/NoSuchMethodError"
def noSuchField : String := "java/lang/NoSuchFieldError"
def abstractMethod : String := "java/lang/AbstractMethodError"
def unsatisfiedLink : String := "java/lang/UnsatisfiedLinkError"

end CoreName

inductive Builtin where
  | objectWait
  | objectNotify
  | objectNotifyAll
  | objectHashCode
  | objectGetClass
  | threadSleep
  | threadYield
  | threadCurrentThread
  | threadStart
  | threadInterrupt
  | threadIsAlive
  | threadJoin
  | systemGc
  | systemArraycopy
  | systemCurrentTimeMillis
  | systemIdentityHashCode
  deriving DecidableEq, Repr, Inhabited

namespace Builtin

/-- Declaring class, name, descriptor and implementation of every builtin. -/
def table : List (String × String × String × Builtin) := [
  (CoreName.object, "wait", "()V", objectWait),
  (CoreName.object, "wait", "(J)V", objectWait),
  (CoreName.object, "wait", "(JI)V", objectWait),
  (CoreName.object, "notify", "()V", objectNotify),
  (CoreName.object, "notifyAll", "()V", objectNotifyAll),
  (CoreName.object, "hashCode", "()I", objectHashCode),
  (CoreName.object, "getClass", "()Ljava/lang/Class;", objectGetClass),
  (CoreName.thread, "sleep", "(J)V", threadSleep),
  (CoreName.thread, "yield", "()V", threadYield),
  (CoreName.thread, "currentThread", "()Ljava/lang/Thread;", threadCurrentThread),
  (CoreName.thread, "start", "()V", threadStart),
  (CoreName.thread, "interrupt", "()V", threadInterrupt),
  (CoreName.thread, "isAlive", "()Z", threadIsAlive),
  (CoreName.thread, "join", "()V", threadJoin),
  (CoreName.system, "gc", "()V", systemGc),
  (CoreName.system, "arraycopy", "(Ljava/lang/Object;ILjava/lang/Object;II)V", systemArraycopy),
  (CoreName.system, "currentTimeMillis", "()J", systemCurrentTimeMillis),
  (CoreName.system, "identityHashCode", "(Ljava/lang/Object;)I", systemIdentityHashCode)]

def find? (owner name descriptor : String) : Option Builtin :=
  (table.find? fun (o, n, d, _) => o == owner && n == name && d == descriptor).map (·.2.2.2)

end Builtin

inductive NativeBinding where
  | builtin (b : Builtin)
  | host (id : NativeId)
  | unbound
  deriving DecidableEq, Repr, Inhabited

end ClassMachine
