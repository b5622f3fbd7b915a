import ClassMachine.Machine.Allocation

/-!
What native methods of the host do when they are called.
-/
namespace ClassMachine

def Companion.hits? : Companion → Option Int32
  | .counter hits => some hits
  | .holder _ _ _ => none

namespace Machine

/-- Attaches a companion to a live object that holds nothing else. -/
def attachCompanion (object : Ref) (c : Companion) : MachineM Bool := do
  match (← get).heap.get? object with
  | some o =>
    if o.payload = .none then
      updateHeap fun h => h.update object fun o => { o with payload := .companion c }
      return true
    else return false
  | none => return false

/-- Hits of an object's counter. -/
def hits? (m : Machine) (object : Ref) : Option Int32 :=
  (m.heap.get? object).bind fun o => o.companion?.bind Companion.hits?

def ofBool (b : Bool) : Option Value := some (.int (if b then 1 else 0))

/-- Runs a native of the host with its arguments, the receiver first. -/
def callHost (thread : ThreadId) (args : List Value) : HostNative → MachineM (Option Value)
  | .void => return none
  | .const v => return some v
  | .echo index => return args[index]?
  | .sum => return some (.int ((args.filterMap Value.int?).foldl (· + ·) 0))
  | .trace => do
    modify fun m => { m with trace := m.trace ++ [⟨thread, m.scheduler.now, args⟩] }
    return none
  | .throw className message => raise className message
  | .fatal detail => fatal (.invalid (.host detail))
  | .string text => return some (.ref (← stringObject text))
  | .strlen => do
    match (← get).heap.text? first with
    | some text => return some (.int (Int32.ofNat text.length))
    | none => return some (.int (-1))
  | .new className => do
    match (← get).classes.lookup? className with
    | some id => return some (.ref (← newInstance id))
    | none => raise CoreName.noClassDefFound (some className)
  | .attach companion => return ofBool (← attachCompanion first companion)
  | .hold vetoes => do
    let refs := (args.drop 1).filterMap Value.ref?
    return ofBool (← attachCompanion first (.holder refs vetoes 0))
  | .bump => do
    match (← get).hits? first with
    | some hits =>
      updateHeap fun h => h.update first fun o => { o with payload := .companion (.counter (hits + 1)) }
      return some (.int (hits + 1))
    | none => return some (.int (-1))
  | .peek => return some (.int (((← get).hits? first).getD (-1)))
  | .detach timeout => return ofBool (← onScheduler (·.detach thread timeout))
  | .yield => do
    modify fun m => { m with yieldRequested := true }
    return none
  | .request r => do
    modify fun m => { m with scheduler := m.scheduler.send r }
    return ofBool true
  | .now => return some (.long (← get).scheduler.now.toInt64)
  | .thread => return some (.int thread.toInt32)
  | .live => return some (.int (Int32.ofNat (← get).heap.size))
  | .pin => do
    updateHeap (·.pin first)
    return none
where
  /-- The first argument as a reference. -/
  first : Ref := (args.head?.map Value.refOrNull).getD .null

end Machine

end ClassMachine
