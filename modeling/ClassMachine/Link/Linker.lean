import ClassMachine.Class.Hierarchy
import ClassMachine.Config

/-!
Preparation of classes. Layout and dispatch table of a class extend those of its superclass, so
ancestors are prepared first; both are computed once and then kept.
-/
namespace ClassMachine

/-- Numbers for pairs of method name and descriptor, shared by all classes of a machine. -/
structure Signatures where
  pairs : Array (String × String) := #[]
  deriving DecidableEq, Repr, Inhabited

namespace Signatures

def get? (s : Signatures) (name descriptor : String) : Option SignatureId :=
  s.pairs.findIdx? fun p => p.1 == name && p.2 == descriptor

/-- Number of a pair, the next free one when it is new. -/
def intern (s : Signatures) (name descriptor : String) : SignatureId × Signatures :=
  match s.get? name descriptor with
  | some id => (id, s)
  | none => (s.pairs.size, ⟨s.pairs.push (name, descriptor)⟩)

def describe? (s : Signatures) (id : SignatureId) : Option (String × String) := s.pairs[id]?

def size (s : Signatures) : Nat := s.pairs.size

end Signatures

structure Linker where
  classes : ClassTable := {}
  signatures : Signatures := {}
  access : FieldAccess := .generic

namespace Linker

instance : Inhabited Linker := ⟨{}⟩

/-- Runs a question about the class table. -/
def onClasses {α : Type} (x : StateM ClassTable α) : StateM Linker α := fun l =>
  let (a, classes) := x l.classes
  (a, { l with classes := classes })

def intern (name descriptor : String) : StateM Linker SignatureId := fun l =>
  let (id, signatures) := l.signatures.intern name descriptor
  (id, { l with signatures := signatures })

def record (severity : Severity) (subject message : String) : StateM Linker Unit :=
  modify fun l => { l with classes := l.classes.record severity subject message }

/-- Gives the instance fields the slots after the inherited ones. -/
def numberFields : Nat → List Field → List Field
  | _, [] => []
  | next, f :: rest =>
    if f.isStatic then f :: numberFields next rest
    else { f with slot := some next } :: numberFields (next + 1) rest

/-- Inherited kinds and those of the instance fields declared here. -/
def extendLayout (inherited : List Kind) (c : ClassInfo) : Layout :=
  ⟨inherited ++ (c.fields.toList.filter (!·.isStatic)).map Field.kind⟩

/-- Fixes layout and field slots of a class that has none yet. -/
def layOut (inherited : List Kind) (c : ClassInfo) : ClassInfo :=
  match c.layout with
  | some _ => c
  | none =>
    { c with
      fields := (numberFields inherited.length c.fields.toList).toArray
      layout := some (extendLayout inherited c) }

/-- Inherited entries, overridden and extended by the virtual methods of a class. -/
def extendDispatch : DispatchTable → List Method → StateM Linker DispatchTable
  | table, [] => return table
  | table, m :: rest =>
    if m.isVirtual then do
      let signature ← intern m.name m.descriptor
      extendDispatch (table.insert signature m.id) rest
    else extendDispatch table rest

/-- The dispatch table of a class, made when there is none yet. -/
def dispatchOf (inherited : DispatchTable) (c : ClassInfo) : StateM Linker DispatchTable :=
  match c.dispatch with
  | some table => return table
  | none => extendDispatch inherited c.methods.toList

/-- What a class passes on to its subclasses. -/
structure Inheritance where
  kinds : List Kind := []
  dispatch : DispatchTable := ∅

/-- Prepares one class whose superclass has passed on `inherited`. -/
def prepareOne (inherited : Inheritance) (id : ClassId) : StateM Linker Inheritance := do
  let _ ← onClasses (ClassTable.interfaces id)
  match (← get).classes.get? id with
  | none => return inherited
  | some c =>
    let c := layOut inherited.kinds c
    let table ← dispatchOf inherited.dispatch c
    let c := { c with dispatch := some table }
    modify fun l => { l with classes := l.classes.update id fun _ => c }
    return ⟨(c.layout.map (·.kinds)).getD inherited.kinds, table⟩

def isPrepared (c : ClassInfo) : Bool := c.layout.isSome && c.dispatch.isSome

/-- Fixes layout and dispatch table of a class and its superclasses, and returns the class. -/
def prepare (id : ClassId) : StateM Linker (Option ClassInfo) := do
  match (← get).classes.get? id with
  | none => return none
  | some c =>
    if isPrepared c then return some c
    else
      let chain ← onClasses (ClassTable.ancestry id)
      let _ ← chain.reverse.foldlM prepareOne {}
      return (← get).classes.get? id

/-- Binds a native method on first use: to a builtin, to a host native, or to nothing. -/
def bindNative (resolve : String → String → String → Option NativeId) (id : MethodId) :
    StateM Linker (Option NativeBinding) := do
  match (← get).classes.method? id with
  | none => return none
  | some m =>
    match m.body with
    | .native (some binding) => return some binding
    | .native none =>
      let binding : NativeBinding :=
        match Builtin.find? m.ownerName m.name m.descriptor with
        | some b => .builtin b
        | none =>
          match resolve m.ownerName m.name m.descriptor with
          | some native => .host native
          | none => .unbound
      if binding = .unbound then record .warning m.text "no native implementation registered"
      modify fun l =>
        { l with classes := l.classes.updateMethod id fun m => { m with body := .native (some binding) } }
      return some binding
    | _ => return none

end Linker

end ClassMachine
