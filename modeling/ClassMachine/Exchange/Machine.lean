import ClassMachine.Exchange.Class
import ClassMachine.Exchange.State
import ClassMachine.Machine.Basic

/-!
Exchange form of a machine's threads with their frames, of what was traced, and of the natives a
host offers.
-/
namespace ClassMachine

instance : OfTree HostNative where
  ofTree? t := do
    match ← t.at? (α := String) 0 with
    | "void" => return .void
    | "const" => return .const (← t.at? 1)
    | "echo" => return .echo (← t.at? 1)
    | "sum" => return .sum
    | "trace" => return .trace
    | "throw" => return .throw (← t.at? 1) (← t.at? 2)
    | "fatal" => return .fatal (← t.at? 1)
    | "string" => return .string (← t.at? 1)
    | "strlen" => return .strlen
    | "new" => return .new (← t.at? 1)
    | "attach" => return .attach (← t.at? 1)
    | "hold" => return .hold (← t.at? 1)
    | "bump" => return .bump
    | "peek" => return .peek
    | "detach" => return .detach (← t.at? 1)
    | "yield" => return .yield
    | "host" => return .request (← t.at? 1)
    | "now" => return .now
    | "thread" => return .thread
    | "live" => return .live
    | "pin" => return .pin
    | _ => none

instance : ToTree UncaughtException where
  toTree u := .list [u.thread, u.exception, u.className, u.message]

instance : ToTree TraceRow := ⟨fun r => .list [r.thread, r.now, r.args]⟩

namespace Exchange

/-- A frame with its method written as `classes` name it. -/
def frame (classes : ClassTable) (f : Frame) : Tree :=
  .list [(classes.method? f.method).map Method.text, f.pc, f.locals, f.stack.reverse, f.monitor]

/-- A thread with its frames, the outermost first. -/
def machineThread (classes : ClassTable) (t : Thread FrameStack) : Tree :=
  .record (thread t ++ [("frames", .list (t.stack.reverse.map (frame classes)))])

/-- An object with the name of its class. -/
def machineObject (m : Machine) (r : Ref) : Option Tree :=
  (m.heap.get? r).map fun o => object (fun id => m.classes.nameOf id) r o

end Exchange

end ClassMachine
