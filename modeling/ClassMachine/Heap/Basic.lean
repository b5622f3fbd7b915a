import ClassMachine.Config
import ClassMachine.Heap.InternOrder
import ClassMachine.Heap.Object
import Std.Data.ExtTreeMap
import Std.Data.ExtTreeSet

/-!
The heap: objects by handle, their marks, the accounting of their weights, and the references that
are kept alive on their own account. Handles are given out in increasing order and start over after the
largest one; handle zero names nothing.
-/
namespace ClassMachine

abbrev ObjectMap := Std.ExtTreeMap UInt32 Object

/-- Handles of the objects whose mark is set. -/
abbrev Marks := Std.ExtTreeSet UInt32

/-- What a heap literal that sets no mark has to show. -/
theorem Marks.none_set : (∅ : Marks) = ∅ := rfl

/-- What collections have done so far, or what one did. -/
structure CollectionStats where
  collections : Nat := 0
  freed : Nat := 0
  vetoed : Nat := 0
  reclaimed : Nat := 0
  deriving DecidableEq, Repr, Inhabited

def CollectionStats.add (a b : CollectionStats) : CollectionStats :=
  ⟨a.collections + b.collections, a.freed + b.freed, a.vetoed + b.vetoed, a.reclaimed + b.reclaimed⟩

@[ext] structure Heap where
  objects : ObjectMap := ∅
  marks : Marks := ∅
  nextHandle : UInt32 := 1
  used : Nat := 0
  capacity : Nat
  overflow : OverflowPolicy := .throw
  pinned : List Ref := []
  interned : Std.ExtTreeMap String Ref := ∅
  internOrder : InternOrder := {}
  mirrors : Std.ExtTreeMap ClassId Ref := ∅
  stats : CollectionStats := {}
  /-- Marks are set in the course of a collection only. -/
  unmarked : marks = ∅ := by exact Marks.none_set

namespace Heap

def ofConfig (c : Config) : Heap := { capacity := c.heapCapacity.toNat, overflow := c.overflow }

instance : Inhabited Heap := ⟨ofConfig {}⟩

def size (h : Heap) : Nat := h.objects.size

def get? (h : Heap) (r : Ref) : Option Object := h.objects[r.handle]?

def contains (h : Heap) (r : Ref) : Bool := h.objects.contains r.handle

def isMarked (h : Heap) (r : Ref) : Bool := h.marks.contains r.handle

theorem isMarked_eq_false (h : Heap) (r : Ref) : h.isMarked r = false := by
  rw [isMarked, h.unmarked, Std.ExtTreeSet.contains_empty]

/-- Live objects in the order of their handles. -/
def toList (h : Heap) : List (Ref × Object) := h.objects.toList.map fun (handle, o) => (⟨handle⟩, o)

/-- Changes one object. -/
def update (h : Heap) (r : Ref) (f : Object → Object) : Heap :=
  { h with objects := h.objects.modify r.handle f }

/-- Whether so many more units fit; a sum past all counting counts as the largest number. -/
def fits (h : Heap) (units : Nat) : Bool := min (h.used + units) Object.maxUnits ≤ h.capacity

/-- The handle after another one. -/
def successor (handle : UInt32) : UInt32 := if handle + 1 = 0 then 1 else handle + 1

theorem successor_ne_zero (handle : UInt32) : successor handle ≠ 0 := by
  unfold successor; split
  · decide
  · assumption

/-- First handle from `handle` on that names no object, among the next `fuel` ones. -/
def seekHandle (objects : ObjectMap) : Nat → UInt32 → UInt32
  | 0, handle => handle
  | fuel + 1, handle =>
    if objects.contains handle then seekHandle objects fuel (successor handle) else handle

/-- Adds an object under the next free handle, whatever the capacity. -/
def insert (h : Heap) (o : Object) : Ref × Heap :=
  let handle := seekHandle h.objects h.size h.nextHandle
  (⟨handle⟩,
    { h with
      objects := h.objects.insert handle o
      nextHandle := successor handle
      used := h.used + o.weight })

/-- Adds an object under a given handle, unless that is null or in use. -/
def insertAt? (h : Heap) (r : Ref) (o : Object) : Option Heap :=
  if r.isNull || h.contains r then none
  else
    some { h with
      objects := h.objects.insert r.handle o
      nextHandle := if h.nextHandle ≤ r.handle then successor r.handle else h.nextHandle
      used := h.used + o.weight }

/-- Keeps an object alive until the pin is taken off; pins add up. -/
def pin (h : Heap) (r : Ref) : Heap := if r.isNull then h else { h with pinned := r :: h.pinned }

def pinAll (h : Heap) (rs : List Ref) : Heap := rs.foldl pin h

/-- Takes one pin off. -/
def unpin (h : Heap) (r : Ref) : Heap := { h with pinned := h.pinned.erase r }

def unpinAll (h : Heap) (rs : List Ref) : Heap := rs.foldl unpin h

def interned? (h : Heap) (text : String) : Option Ref := h.interned[text]?

def intern (h : Heap) (text : String) (r : Ref) : Heap :=
  { h with interned := h.interned.insert text r, internOrder := h.internOrder.insert text }

/-- Interned strings in the order of their handles, those of one handle in the order of their
places. -/
def internedStrings (h : Heap) : List (String × Ref) :=
  h.interned.toList.mergeSort fun a b =>
    a.2.handle < b.2.handle ||
      (a.2.handle == b.2.handle && h.internOrder.place a.1 ≤ h.internOrder.place b.1)

theorem internedStrings_perm (h : Heap) : h.internedStrings.Perm h.interned.toList :=
  List.mergeSort_perm _ _

def mirror? (h : Heap) (id : ClassId) : Option Ref := h.mirrors[id]?

def registerMirror (h : Heap) (id : ClassId) (r : Ref) : Heap :=
  { h with mirrors := h.mirrors.insert id r }

/-- The handle read as a signed number. -/
def identityHash (r : Ref) : Int32 := r.handle.toInt32

/-- Text of a string object. -/
def text? (h : Heap) (r : Ref) : Option String := (h.get? r).bind Object.text?

end Heap

end ClassMachine
