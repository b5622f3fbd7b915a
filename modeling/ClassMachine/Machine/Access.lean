import ClassMachine.Machine.Allocation

/-!
Reading and writing fields and array elements, with the exceptions they raise.
-/
namespace ClassMachine.Machine

/-- Class of an object that is there. -/
def classOf (object : Ref) : MachineM ClassId := do
  if object.isNull then raiseNullPointer
  else
    match (← get).heap.get? object with
    | some o => return o.type
    | none => inconsistent (.deadObject object)

/-- Slot of a field found by name in the object's class. -/
def fieldSlot (object : Ref) (name descriptor : String) : MachineM Nat := do
  let id ← classOf object
  let _ ← onLinker (Linker.prepare id)
  let found ← onClasses (ClassTable.resolveField id name descriptor)
  let t := (← get).classes
  let slot := found.toOption.bind fun f => (t.get? f.owner).bind fun c => (c.fields[f.index]?).bind (·.slot)
  match slot with
  | some slot => return slot
  | none => raise CoreName.noSuchField (some s!"{t.nameOf id}.{name}")

def readField (object : Ref) (slot : Nat) : MachineM Value := do
  match ((← get).heap.get? object).bind (·.fields[slot]?) with
  | some v => return v
  | none => inconsistent (.deadObject object)

def writeField (object : Ref) (slot : Nat) (v : Value) : MachineM Unit := do
  match ((← get).heap.get? object).bind (·.fields[slot]?) with
  | some _ => updateHeap fun h => h.update object (·.setField slot v)
  | none => inconsistent (.deadObject object)

/-- Elements of an array that is there. -/
def elementsOf (array : Ref) : MachineM (Array Value) := do
  if array.isNull then raiseNullPointer
  else
    match ((← get).heap.get? array).bind Object.elements? with
    | some (_, elements) => return elements
    | none => inconsistent (.deadObject array)

/-- Length of an array, as far as it can be told. -/
def arrayLength (array : Ref) : MachineM Int32 := do
  return Int32.ofNat (min (← elementsOf array).size 0x7fffffff)

def raiseIndex {α : Type} (index : Int32) (length : Nat) : MachineM α :=
  raise CoreName.arrayIndexOutOfBounds
    (some s!"Index {index.toInt} out of bounds for length {length}")

/-- Position of an index, when it is not negative and below `length`. -/
def position? (index : Int32) (length : Nat) : Option Nat :=
  if 0 ≤ index.toInt ∧ index.toInt < length then some index.toInt.toNat else none

def loadElement (array : Ref) (index : Int32) : MachineM Value := do
  let elements ← elementsOf array
  match (position? index elements.size).bind (elements[·]?) with
  | some v => return v
  | none => raiseIndex index elements.size

/-- Class of a live object. -/
def liveClass? (m : Machine) (r : Ref) : Option ClassId :=
  r.nonNull?.bind fun r => (m.heap.get? r).map (·.type)

/-- Whether an array with elements of a type takes a value. What is no live object is taken. -/
def accepts (element : Option ElementType) (v : Value) : MachineM Bool := do
  match element, v with
  | some (.reference expected), .ref r =>
    match (← get).liveClass? r with
    | some actual => onClasses (ClassTable.isSubclass actual expected)
    | none => return true
  | _, _ => return true

/-- What the class of an array says its elements are. -/
def elementType? (m : Machine) (array : Ref) : Option ElementType :=
  (m.heap.get? array).bind fun o => (m.classes.get? o.type).bind (·.element)

/-- Writes an element, narrowed to the array's kind. -/
def writeElement (array : Ref) (index : Nat) (v : Value) : MachineM Unit :=
  updateHeap fun h => h.update array fun o =>
    match o.elements? with
    | some (kind, _) => o.setElement index (v.narrowTo kind)
    | none => o

def storeElement (array : Ref) (index : Int32) (v : Value) : MachineM Unit := do
  let elements ← elementsOf array
  match position? index elements.size with
  | none => raiseIndex index elements.size
  | some position =>
    if ← accepts ((← get).elementType? array) v then writeElement array position v
    else
      let m ← get
      raise CoreName.arrayStore (some (((m.liveClass? v.refOrNull).map m.classes.nameOf).getD "?"))

end ClassMachine.Machine
