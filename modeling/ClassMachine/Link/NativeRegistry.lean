import ClassMachine.Value

/-!
Natives a host offers, numbered in the order they were first registered.
-/
namespace ClassMachine

structure NativeEntry (α : Type) where
  owner : String
  name : String
  descriptor : String
  native : α
  deriving Repr

structure NativeRegistry (α : Type) where
  entries : Array (NativeEntry α) := #[]
  deriving Repr, Inhabited

namespace NativeRegistry

variable {α : Type}

def find? (r : NativeRegistry α) (owner name descriptor : String) : Option NativeId :=
  r.entries.findIdx? fun e => e.owner == owner && e.name == name && e.descriptor == descriptor

/-- Registers a native. One registered again keeps its number and is replaced. -/
def register (r : NativeRegistry α) (owner name descriptor : String) (native : α) :
    NativeId × NativeRegistry α :=
  match r.find? owner name descriptor with
  | some id => (id, ⟨r.entries.modify id fun e => { e with native := native }⟩)
  | none => (r.entries.size, ⟨r.entries.push ⟨owner, name, descriptor, native⟩⟩)

def get? (r : NativeRegistry α) (id : NativeId) : Option α := (r.entries[id]?).map (·.native)

def size (r : NativeRegistry α) : Nat := r.entries.size

end NativeRegistry

end ClassMachine
