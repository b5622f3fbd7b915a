import ClassMachine.Exchange.Value
import ClassMachine.Heap.Basic
import ClassMachine.Scheduler.Basic

/-!
Exchange form of monitors and heap objects, of thread records and of the host's requests.
-/
namespace ClassMachine

instance : ToTree WaitToken := ⟨fun t => .list [t.thread, t.reentrancy]⟩

instance : OfTree WaitToken := ⟨fun t => do return ⟨← t.at? 0, ← t.at? 1⟩⟩

instance : ToTree Monitor where
  toTree m := .record [("owner", m.owner), ("count", m.count), ("waiters", m.waiters),
    ("entrants", m.entrants), ("idle", m.isIdle)]

instance : OfTree Monitor where
  ofTree? t := do
    return { owner := ← t.get? "owner", count := ← t.get? "count"
             waiters := ← t.get? "waiters", entrants := ← t.get? "entrants" }

instance : ToTree Companion where
  toTree
    | .counter hits => .list ["counter", hits]
    | .holder refs vetoes asked => .list ["holder", refs, vetoes, asked]

/-- A holder that is read has not been asked yet. -/
instance : OfTree Companion where
  ofTree? t := do
    match ← t.at? (α := String) 0 with
    | "counter" => return .counter (← t.at? 1)
    | "holder" => return .holder (← t.at? 1) (← t.at? 2) 0
    | _ => none

namespace Exchange

/-- Elements of an array; of a long one the first few and how many there are. -/
def elements (values : Array Value) : Tree :=
  if values.size ≤ 64 then values
  else .record [("len", values.size), ("head", values.toList.take 8)]

def payload (className : ClassId → Tree) : Payload → Tree
  | .none => .null
  | .array kind values => .list ["array", kind, elements values]
  | .str text => ["str", text]
  | .mirror id => .list ["mirror", className id]
  | .companion c => c

/-- An object with its class written as `className` says; a fresh monitor is left out. -/
def object (className : ClassId → Tree) (r : Ref) (o : Object) : Tree :=
  .record [("ref", r), ("class", className o.type), ("weight", o.weight), ("fields", o.fields),
    ("payload", payload className o.payload),
    ("monitor", if o.monitor = {} then .null else toTree o.monitor)]

end Exchange

instance : ToTree CollectionStats := ⟨fun s => [s.collections, s.freed, s.vetoed, s.reclaimed]⟩

instance : ToTree Timeout where
  toTree
    | .indefinite => .null
    | .millis n => n

instance : OfTree Timeout where
  ofTree?
    | .null => some .indefinite
    | t => (ofTree? t).map .millis

instance : ToTree ThreadState where
  toTree
    | .ready => ["Ready"]
    | .detachedUntil deadline => .list ["DetachedUntil", deadline]
    | .detached => ["Detached"]
    | .terminated => ["Terminated"]

instance : OfTree ThreadState where
  ofTree? t := do
    match ← t.at? (α := String) 0 with
    | "Ready" => return .ready
    | "DetachedUntil" => return .detachedUntil (← t.at? 1)
    | "Detached" => return .detached
    | "Terminated" => return .terminated
    | _ => none

instance : Vocabulary MonitorWait := ⟨[(.enter, "Enter"), (.wait, "Wait")]⟩

instance : ToTree PendingMonitor := ⟨fun p => .list [p.object, p.token, p.reason]⟩

instance : OfTree PendingMonitor := ⟨fun t => do return ⟨← t.at? 0, ← t.at? 1, ← t.at? 2⟩⟩

instance : OfTree HostRequest where
  ofTree? t := do
    match ← t.at? (α := String) 0 with
    | "attach" => return .attach (← t.at? 1)
    | "interrupt" => return .interrupt (← t.at? 1)
    | "stop" => return .stop
    | _ => none

/-- Fields of a thread's record, the stack apart. -/
def Exchange.thread {σ : Type} (t : Thread σ) : List (String × Tree) :=
  [("id", t.id), ("state", t.state), ("interrupted", t.interrupted),
    ("interruptible", t.interruptible), ("pending", t.pending), ("object", t.object),
    ("joiners", t.joiners), ("synthetic", t.synthetic)]

/-- A thread as the host may add it; what is left out has its default. -/
instance : OfTree (Thread Unit) where
  ofTree? t := do
    return { id := ← t.get? "id", object := ← t.get? "object", stack := ()
             state := ← t.get? "state", interrupted := ← t.get? "interrupted"
             interruptible := ← t.get? "interruptible", pending := ← t.get? "pending"
             joiners := ← t.get? "joiners" }

end ClassMachine
