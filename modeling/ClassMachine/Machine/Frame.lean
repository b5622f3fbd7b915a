import ClassMachine.Bytecode.Code
import ClassMachine.Fatal

/-!
Frames: where a method stands, with its locals and its operand stack. Operations on a frame fail
only on code that was not verified, and keep what they took off the stack before they fail.
-/
namespace ClassMachine

structure Frame where
  method : MethodId
  code : LinkedCode
  /-- Index of the instruction to run next. -/
  pc : Nat := 0
  locals : Array Value := #[]
  /-- Operands, top first. -/
  stack : List Value := []
  /-- Object whose monitor is left with the frame. -/
  monitor : Option Ref := none
  deriving DecidableEq, Repr, Inhabited

abbrev FrameM := EStateM Inconsistency Frame

namespace Frame

/-- Values laid out in slots; one of category two is followed by a slot of its own. -/
def spread (values : List Value) : List Value :=
  values.flatMap fun v => v :: List.replicate (v.category.slots - 1) (.int 0)

/-- Frame of a call that is about to run its first instruction. -/
def ofCall (method : MethodId) (code : LinkedCode) (args : List Value) : Frame :=
  let slots := spread args
  { method := method, code := code
    locals := (slots ++ List.replicate (code.maxLocals - slots.length) (Value.int 0)).toArray }

/-- References in locals, on the stack from the bottom up, and the monitor; null ones left out. -/
def references (f : Frame) : List Ref :=
  ((f.locals.toList ++ f.stack.reverse).filterMap Value.ref? ++ f.monitor.toList).filter (!·.isNull)

def push (v : Value) : FrameM Unit := modify fun f => { f with stack := v :: f.stack }

/-- Pushes values one after the other. -/
def pushAll (vs : List Value) : FrameM Unit := modify fun f => { f with stack := vs.reverse ++ f.stack }

def pop : FrameM Value := fun f =>
  match f.stack with
  | [] => .error .stackUnderflow f
  | v :: rest => .ok v { f with stack := rest }

def peek : FrameM Value := fun f =>
  match f.stack with
  | [] => .error .stackUnderflow f
  | v :: _ => .ok v f

def popInt : FrameM Int32 := do
  let v ← pop
  match v.int? with
  | some x => return x
  | none => throw (.mistyped "int" v)

def popLong : FrameM Int64 := do
  let v ← pop
  match v.long? with
  | some x => return x
  | none => throw (.mistyped "long" v)

def popFloat : FrameM UInt32 := do
  let v ← pop
  match v.float? with
  | some x => return x
  | none => throw (.mistyped "float" v)

def popDouble : FrameM UInt64 := do
  let v ← pop
  match v.double? with
  | some x => return x
  | none => throw (.mistyped "double" v)

def popRef : FrameM Ref := do
  let v ← pop
  match v.ref? with
  | some x => return x
  | none => throw (.mistyped "reference" v)

/-- Takes `n` values at once, in the order they were pushed. -/
def popN (n : Nat) : FrameM (List Value) := fun f =>
  if f.stack.length < n then .error .stackUnderflow f
  else .ok (f.stack.take n).reverse { f with stack := f.stack.drop n }

def getLocal (index : Nat) : FrameM Value := fun f =>
  match f.locals[index]? with
  | some v => .ok v f
  | none => .error (.localOutOfRange index) f

def setLocal (index : Nat) (v : Value) : FrameM Unit := fun f =>
  if index < f.locals.size then .ok () { f with locals := f.locals.setIfInBounds index v }
  else .error (.localOutOfRange index) f

/-- Stores the top of the stack. The second slot of a wide value is cleared if it exists. -/
def store (index : Nat) : FrameM Unit := do
  let v ← pop
  setLocal index v
  if v.category = .two ∧ index + 1 < (← get).locals.size then setLocal (index + 1) (.int 0)

/-- Adds to an `int` local. -/
def increment (index : Nat) (delta : Int16) : FrameM Unit := do
  let v ← getLocal index
  match v.int? with
  | some x => setLocal index (.int (x + delta.toInt32))
  | none => throw (.localNotInt index v)

def jump (target : Nat) : FrameM Unit := modify fun f => { f with pc := target }

/-- Rearranges the stack; a wide value moves as one entry. -/
def rearrange : StackOp → FrameM Unit
  | .pop => do
    let _ ← pop
  | .pop2 => do
    let v ← pop
    if v.category = .one then
      let _ ← pop
  | .dup => do
    push (← peek)
  | .dupX1 => do
    let v ← pop
    let w ← pop
    pushAll [v, w, v]
  | .dupX2 => do
    let v ← pop
    let w ← pop
    match w.category with
    | .two => pushAll [v, w, v]
    | .one =>
      let x ← pop
      pushAll [v, x, w, v]
  | .dup2 => do
    let v ← pop
    match v.category with
    | .two => pushAll [v, v]
    | .one =>
      let w ← pop
      pushAll [w, v, w, v]
  | .dup2X1 => do
    let v ← pop
    let w ← pop
    match v.category with
    | .two => pushAll [v, w, v]
    | .one =>
      let x ← pop
      pushAll [w, v, x, w, v]
  | .dup2X2 => do
    let v ← pop
    let w ← pop
    match v.category, w.category with
    | .two, .two => pushAll [v, w, v]
    | .two, .one =>
      let x ← pop
      pushAll [v, x, w, v]
    | .one, _ =>
      let x ← pop
      match x.category with
      | .two => pushAll [w, v, x, w, v]
      | .one =>
        let y ← pop
        pushAll [w, v, y, x, w, v]
  | .swap => do
    let v ← pop
    let w ← pop
    pushAll [v, w]

end Frame

end ClassMachine
