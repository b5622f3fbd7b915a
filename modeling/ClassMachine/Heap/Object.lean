import ClassMachine.Monitor

/-!
Heap objects: class, monitor, fields and what else an object holds. The weight of an object is
fixed when it is made.
-/
namespace ClassMachine

/-- Data of the host that lives and dies with an object. -/
inductive Companion where
  | counter (hits : Int32)
  /-- Keeps `refs` alive and refuses deletion `vetoes` more times. -/
  | holder (refs : List Ref) (vetoes asked : UInt32)
  deriving DecidableEq, Repr, Inhabited

namespace Companion

/-- References a collection must keep alive. -/
def hiddenRefs : Companion → List Ref
  | counter _ => []
  | holder refs _ _ => refs

/-- Asks for consent before its object is freed. -/
def onDelete : Companion → Bool × Companion
  | counter hits => (true, counter hits)
  | holder refs vetoes asked =>
    if 0 < vetoes then (false, holder refs (vetoes - 1) (asked + 1))
    else (true, holder refs vetoes (asked + 1))

@[simp] theorem hiddenRefs_onDelete (c : Companion) : c.onDelete.2.hiddenRefs = c.hiddenRefs := by
  cases c with
  | counter hits => rfl
  | holder refs vetoes asked => simp only [onDelete]; split <;> rfl

end Companion

inductive Payload where
  | none
  | array (kind : Kind) (elements : Array Value)
  | str (text : String)
  /-- Stands for a class. -/
  | mirror (id : ClassId)
  | companion (c : Companion)
  deriving DecidableEq, Repr, Inhabited

namespace Payload

def weight : Payload → Nat
  | array kind elements => kind.weight * elements.size
  | str text => 2 * text.length
  | _ => 0

def refs : Payload → List Ref
  | array _ elements => elements.toList.filterMap Value.ref?
  | companion c => c.hiddenRefs
  | _ => []

end Payload

structure Object where
  type : ClassId
  monitor : Monitor := {}
  fields : Array Value := #[]
  payload : Payload := .none
  weight : Nat
  deriving DecidableEq, Repr, Inhabited

namespace Object

/-- Largest number of accounting units that can be asked for. -/
def maxUnits : Nat := UInt64.size - 1

/-- A field given by its value alone weighs what its category takes. -/
def valueWeight (v : Value) : Nat := 4 * v.category.slots

/-- An object with given fields and payload. -/
def ofPayload (type : ClassId) (fields : List Value) (payload : Payload) : Object :=
  { type := type, fields := fields.toArray, payload := payload
    weight := headerWeight + total valueWeight fields + payload.weight }

/-- An instance with zeroed fields. -/
def instanceOf (type : ClassId) (kinds : List Kind) : Object :=
  { type := type, fields := (kinds.map Value.zeroOf).toArray
    weight := headerWeight + total Kind.weight kinds }

/-- An array of zero values. -/
def arrayOf (type : ClassId) (kind : Kind) (length : Nat) : Object :=
  ofPayload type [] (.array kind (Array.replicate length (Value.zeroOf kind)))

/-- Weight an array would have, as far as it can be counted. -/
def arrayWeight (kind : Kind) (length : Nat) : Nat :=
  min (headerWeight + kind.weight * length) maxUnits

def elements? (o : Object) : Option (Kind × Array Value) :=
  match o.payload with
  | .array kind elements => some (kind, elements)
  | _ => none

def text? (o : Object) : Option String :=
  match o.payload with
  | .str text => some text
  | _ => none

def mirrored? (o : Object) : Option ClassId :=
  match o.payload with
  | .mirror id => some id
  | _ => none

def companion? (o : Object) : Option Companion :=
  match o.payload with
  | .companion c => some c
  | _ => none

def hiddenRefs (o : Object) : List Ref := (o.companion?.map Companion.hiddenRefs).getD []

/-- References in fields and payload, null ones left out. -/
def references (o : Object) : List Ref :=
  (o.fields.toList.filterMap Value.ref? ++ o.payload.refs).filter (!·.isNull)

def setField (o : Object) (slot : Nat) (v : Value) : Object :=
  { o with fields := o.fields.setIfInBounds slot v }

/-- Writes an array element; other objects stay as they are. -/
def setElement (o : Object) (index : Nat) (v : Value) : Object :=
  match o.payload with
  | .array kind elements => { o with payload := .array kind (elements.setIfInBounds index v) }
  | _ => o

@[simp] theorem weight_setField (o : Object) (slot : Nat) (v : Value) :
    (o.setField slot v).weight = o.weight := rfl

@[simp] theorem weight_setElement (o : Object) (index : Nat) (v : Value) :
    (o.setElement index v).weight = o.weight := by
  unfold setElement; split <;> rfl

end Object

end ClassMachine
