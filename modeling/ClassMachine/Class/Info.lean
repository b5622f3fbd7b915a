import ClassMachine.Bytecode.LinkError
import ClassMachine.Class.Descriptor
import ClassMachine.Class.Native
import Std.Data.ExtTreeMap

/-!
Loaded classes. What a class is declared as never changes; links to other classes, layout, dispatch
table, linked bodies and native bindings are filled in once, when they are first needed.
-/
namespace ClassMachine

structure Field where
  name : String
  descriptor : String
  type : FieldType
  flags : AccessFlags
  /-- Position in the static storage, or in the object once the layout is known. -/
  slot : Option Nat := none
  typed : FieldType.parse descriptor = .ok type
  deriving DecidableEq, Repr

namespace Field

instance : Inhabited Field :=
  ⟨{ name := "", descriptor := "I", type := .primitive .int, flags := {}, typed := by rfl }⟩

def kind (f : Field) : Kind := f.type.kind

def isStatic (f : Field) : Bool := f.flags.isStatic

/-- Slot of an instance field, for access without a lookup. -/
def accessor? (f : Field) : Option (Nat × Kind) :=
  if f.isStatic then none else f.slot.map fun slot => (slot, f.kind)

end Field

inductive MethodBody where
  | bytecode (raw : RawCode) (linked : Option (Except LinkError LinkedCode))
  | native (binding : Option NativeBinding)
  | abstract
  deriving Repr, Inhabited

structure Method where
  id : MethodId
  ownerName : String
  name : String
  descriptor : String
  signature : MethodDescriptor
  flags : AccessFlags
  body : MethodBody
  deriving Repr, Inhabited

namespace Method

def isStatic (m : Method) : Bool := m.flags.isStatic

def isSynchronized (m : Method) : Bool := m.flags.isSynchronized

/-- Constructors and class initializers have names in angle brackets. -/
def isInitializer (m : Method) : Bool := m.name.toList.head? = some '<'

/-- Only these take part in dispatch on the receiver's class. -/
def isVirtual (m : Method) : Bool := !(m.isStatic || m.isInitializer || m.flags.isPrivate)

/-- Arguments with the receiver. -/
def argCount (m : Method) : Nat := m.signature.params.length + if m.isStatic then 0 else 1

/-- Slots of the arguments with the receiver. -/
def argSlots (m : Method) : Nat := m.signature.paramSlots + if m.isStatic then 0 else 1

def isVoidNoArgs (m : Method) : Bool := m.signature.params.isEmpty && m.signature.returns.isNone

def linked? (m : Method) : Option LinkedCode :=
  match m.body with
  | .bytecode _ (some (.ok code)) => some code
  | _ => none

def binding? (m : Method) : Option NativeBinding :=
  match m.body with
  | .native binding => binding
  | _ => none

def text (m : Method) : String := s!"{m.ownerName}.{m.name}{m.descriptor}"

end Method

/-- What an array class holds. -/
inductive ElementType where
  | primitive (kind : Kind)
  | reference (id : ClassId)
  deriving DecidableEq, Repr, Inhabited

def ElementType.kind : ElementType → Kind
  | primitive kind => kind
  | reference _ => .reference

/-- A field, by declaring class and position among the fields declared there. -/
structure FieldId where
  owner : ClassId
  index : Nat
  deriving DecidableEq, Repr, Inhabited

/-- Kinds of the instance fields in slot order, inherited ones first. -/
structure Layout where
  kinds : List Kind
  deriving DecidableEq, Repr, Inhabited

def Layout.size (l : Layout) : Nat := headerWeight + total Kind.weight l.kinds

/-- Methods by signature for dispatch on the receiver's class. -/
abbrev DispatchTable := Std.ExtTreeMap SignatureId MethodId

structure ClassInfo where
  id : ClassId
  name : String
  superName : Option String := none
  interfaceNames : List String := []
  flags : AccessFlags := {}
  pool : ConstantPool := .empty
  fields : Array Field := #[]
  methods : Array Method := #[]
  element : Option ElementType := none
  /-- Superclass once it was looked for. -/
  superLink : Option (Option ClassId) := none
  /-- Interfaces found once they were looked for. -/
  interfaceLinks : Option (List ClassId) := none
  dispatch : Option DispatchTable := none
  layout : Option Layout := none
  /-- Whether the static initializer has yet to be taken up. -/
  pendingInit : Bool := true

/-- Position of the last entry that passes the test. -/
def lastIndex? {α : Type} (p : α → Bool) (xs : Array α) : Option Nat :=
  (List.range xs.size).reverse.find? fun i =>
    match xs[i]? with
    | some x => p x
    | none => false

namespace ClassInfo

instance : Inhabited ClassInfo := ⟨{ id := 0, name := "" }⟩

/-- Position of a declared field; of two equal declarations the last counts. -/
def fieldPosition? (c : ClassInfo) (name descriptor : String) : Option Nat :=
  lastIndex? (fun f : Field => f.name == name && f.descriptor == descriptor) c.fields

def field? (c : ClassInfo) (name descriptor : String) : Option Field :=
  (c.fieldPosition? name descriptor).bind (c.fields[·]?)

/-- Position of a declared method; of two equal declarations the last counts. -/
def methodPosition? (c : ClassInfo) (name descriptor : String) : Option Nat :=
  lastIndex? (fun m : Method => m.name == name && m.descriptor == descriptor) c.methods

def method? (c : ClassInfo) (name descriptor : String) : Option Method :=
  (c.methodPosition? name descriptor).bind (c.methods[·]?)

def staticInitializer? (c : ClassInfo) : Option Method := c.method? "<clinit>" "()V"

def isInterface (c : ClassInfo) : Bool := c.flags.isInterface

def isAbstract (c : ClassInfo) : Bool := c.flags.isAbstract || c.flags.isInterface

def isArray (c : ClassInfo) : Bool := c.element.isSome

/-- Kinds of the static fields in slot order. -/
def staticKinds (c : ClassInfo) : List Kind := (c.fields.toList.filter Field.isStatic).map Field.kind

def dispatch? (c : ClassInfo) (signature : SignatureId) : Option MethodId :=
  c.dispatch.bind (·[signature]?)

end ClassInfo

end ClassMachine
