import ClassMachine.Value
import Std.Data.ExtTreeMap

/-!
Static fields of the classes that have been initialized, by class and slot.
-/
namespace ClassMachine

structure Statics where
  slots : Std.ExtTreeMap ClassId (Array Value) := ∅

namespace Statics

instance : Inhabited Statics := ⟨{}⟩

/-- Gives a class zeroed slots unless it has slots already. -/
def ensure (s : Statics) (id : ClassId) (kinds : List Kind) : Statics :=
  ⟨s.slots.insertIfNew id (kinds.map Value.zeroOf).toArray⟩

def slots? (s : Statics) (id : ClassId) : Option (Array Value) := s.slots[id]?

def get? (s : Statics) (id : ClassId) (slot : Nat) : Option Value := (s.slots? id).bind (·[slot]?)

/-- Writes a slot that exists. -/
def set? (s : Statics) (id : ClassId) (slot : Nat) (v : Value) : Option Statics :=
  if (s.get? id slot).isSome then
    some ⟨s.slots.modify id fun values => values.setIfInBounds slot v⟩
  else none

/-- Replaces all slots of a class. -/
def restore (s : Statics) (id : ClassId) (values : List Value) : Statics :=
  ⟨s.slots.insert id values.toArray⟩

/-- Classes with slots, in order. -/
def classes (s : Statics) : List ClassId := s.slots.keys

def refs (s : Statics) : List Ref :=
  s.slots.values.flatMap fun values => values.toList.filterMap Value.ref?

end Statics

end ClassMachine
