/-!
Structured data in which values, code and the state of a machine are exchanged with tools: lists and
records over numbers, texts and truth values. A number that is read as a machine word keeps the bits
the word has room for.
-/
namespace ClassMachine

inductive Tree where
  | null
  | bool (b : Bool)
  | int (n : Int)
  | text (s : String)
  | list (items : List Tree)
  | record (fields : List (String × Tree))
  deriving Inhabited

class ToTree (α : Type) where
  toTree : α → Tree

class OfTree (α : Type) where
  ofTree? : Tree → Option α

export ToTree (toTree)
export OfTree (ofTree?)

instance {α : Type} [ToTree α] : CoeOut α Tree := ⟨toTree⟩

instance : ToTree Tree := ⟨id⟩
instance : ToTree Bool := ⟨.bool⟩
instance : ToTree Int := ⟨.int⟩
instance : ToTree Nat := ⟨fun n => .int n⟩
instance : ToTree UInt8 := ⟨fun n => .int n.toNat⟩
instance : ToTree UInt32 := ⟨fun n => .int n.toNat⟩
instance : ToTree UInt64 := ⟨fun n => .int n.toNat⟩
instance : ToTree Int32 := ⟨fun n => .int n.toInt⟩
instance : ToTree Int64 := ⟨fun n => .int n.toInt⟩
instance : ToTree String := ⟨.text⟩

instance {α : Type} [ToTree α] : ToTree (List α) := ⟨fun xs => .list (xs.map toTree)⟩
instance {α : Type} [ToTree α] : ToTree (Array α) := ⟨fun xs => .list (xs.toList.map toTree)⟩

/-- What is absent is null. -/
instance {α : Type} [ToTree α] : ToTree (Option α) where
  toTree
    | some a => toTree a
    | none => .null

instance {α β : Type} [ToTree α] [ToTree β] : ToTree (α × β) := ⟨fun p => .list [p.1, p.2]⟩

namespace Tree

def items : Tree → List Tree
  | list items => items
  | _ => []

/-- An item of a list, null past its end. -/
def item (t : Tree) (i : Nat) : Tree := t.items.getD i null

def field? : Tree → String → Option Tree
  | record fields, key => fields.lookup key
  | _, _ => none

/-- A field of a record, null when it is missing. -/
def field (t : Tree) (key : String) : Tree := (t.field? key).getD null

def isNull : Tree → Bool
  | null => true
  | _ => false

/-- Reads a part of something larger. A part that is left out is null, and null stands for the
default of a type that has no other use for it. -/
def read? {α : Type} [OfTree α] [Inhabited α] (t : Tree) : Option α :=
  match t with
  | null => some ((ofTree? null).getD default)
  | t => ofTree? t

/-- Reads a field. -/
def get? {α : Type} [OfTree α] [Inhabited α] (t : Tree) (key : String) : Option α :=
  (t.field key).read?

/-- Reads a field that has a value of its own when it is missing. -/
def getD {α : Type} [OfTree α] [Inhabited α] (t : Tree) (key : String) (missing : α) : Option α :=
  match t.field? key with
  | some value => value.read?
  | none => some missing

/-- Reads an item. -/
def at? {α : Type} [OfTree α] [Inhabited α] (t : Tree) (i : Nat) : Option α := (t.item i).read?

/-- A number below `size`; one that does not fit wraps around. -/
def word? (size : Nat) : Tree → Option Nat
  | null => some 0
  | int n => some (n % size).toNat
  | _ => none

def word8? (t : Tree) : Option Nat := t.word? UInt8.size

def word16? (t : Tree) : Option Nat := t.word? UInt16.size

def word32? (t : Tree) : Option Nat := t.word? UInt32.size

end Tree

instance : OfTree Tree := ⟨some⟩

instance : OfTree Bool where
  ofTree?
    | .bool b => some b
    | _ => none

instance : OfTree Int where
  ofTree?
    | .int n => some n
    | _ => none

instance : OfTree Nat where
  ofTree?
    | .int n => if 0 ≤ n then some n.toNat else none
    | _ => none

instance : OfTree String where
  ofTree?
    | .text s => some s
    | _ => none

instance : OfTree UInt8 := ⟨fun t => (ofTree? t).map UInt8.ofInt⟩
instance : OfTree UInt16 := ⟨fun t => (ofTree? t).map UInt16.ofInt⟩
instance : OfTree UInt32 := ⟨fun t => (ofTree? t).map UInt32.ofInt⟩
instance : OfTree UInt64 := ⟨fun t => (ofTree? t).map UInt64.ofInt⟩
instance : OfTree Int16 := ⟨fun t => (ofTree? t).map Int16.ofInt⟩
instance : OfTree Int32 := ⟨fun t => (ofTree? t).map Int32.ofInt⟩
instance : OfTree Int64 := ⟨fun t => (ofTree? t).map Int64.ofInt⟩

instance {α : Type} [OfTree α] : OfTree (List α) where
  ofTree?
    | .list items => items.mapM ofTree?
    | _ => none

instance {α : Type} [OfTree α] : OfTree (Option α) where
  ofTree?
    | .null => some none
    | t => (ofTree? t).map some

instance {α β : Type} [OfTree α] [Inhabited α] [OfTree β] [Inhabited β] : OfTree (α × β) where
  ofTree? t := do return (← t.at? 0, ← t.at? 1)

/-- A type whose values are written as words. -/
class Vocabulary (α : Type) where
  words : List (α × String)

instance {α : Type} [BEq α] [Vocabulary α] : ToTree α := ⟨fun a => (Vocabulary.words.lookup a)⟩

instance {α : Type} [Vocabulary α] : OfTree α where
  ofTree?
    | .text s => (Vocabulary.words.find? fun p : α × String => p.2 == s).map (·.1)
    | _ => none

end ClassMachine
