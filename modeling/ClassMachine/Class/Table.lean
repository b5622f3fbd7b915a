import ClassMachine.Class.Info
import ClassMachine.LoadLog

/-!
The table of loaded classes. Classes are numbered in the order they are loaded and found by name;
array classes are made when they are first asked for.
-/
namespace ClassMachine

inductive ClassError where
  | duplicateClass (name : String)
  | badDescriptor (owner member : String) (error : DescriptorError)
  | noSuchClass (name : String)
  | noSuchMethod (owner name descriptor : String)
  | noSuchField (owner name descriptor : String)
  | notAnArray (name : String)
  deriving DecidableEq, Repr

def ClassError.message : ClassError → String
  | duplicateClass name => s!"class {name} is already loaded"
  | badDescriptor owner member error => s!"{owner}.{member}: {error.message}"
  | noSuchClass name => s!"no class {name}"
  | noSuchMethod owner name descriptor => s!"no method {owner}.{name}{descriptor}"
  | noSuchField owner name descriptor => s!"no field {owner}.{name}:{descriptor}"
  | notAnArray name => s!"{name} is not an array type"

structure ClassTable where
  classes : Array ClassInfo := #[]
  byName : Std.ExtTreeMap String ClassId := ∅
  log : LoadLog := {}

namespace ClassTable

instance : Inhabited ClassTable := ⟨{}⟩

def size (t : ClassTable) : Nat := t.classes.size

def get? (t : ClassTable) (id : ClassId) : Option ClassInfo := t.classes[id]?

def lookup? (t : ClassTable) (name : String) : Option ClassId := t.byName[name]?

def names (t : ClassTable) : List String := t.classes.toList.map (·.name)

/-- Name of a class, a question mark for an unknown one. -/
def nameOf (t : ClassTable) (id : ClassId) : String := ((t.get? id).map (·.name)).getD "?"

def method? (t : ClassTable) (id : MethodId) : Option Method :=
  (t.get? id.owner).bind (·.methods[id.index]?)

/-- Classes have no more members than sixteen bits have numbers for. A machine keeps no more of the index of a
member, so in other tables one member may be taken for another. -/
def Narrow (t : ClassTable) : Prop :=
  ∀ id c, t.get? id = some c → c.fields.size ≤ 65536 ∧ c.methods.size ≤ 65536

theorem Narrow.method_lt {t : ClassTable} {id : MethodId} {m : Method} (h : t.Narrow) (hm : t.method? id = some m) :
    id.index < 65536 := by
  obtain ⟨c, hc, hm⟩ := Option.bind_eq_some_iff.1 hm
  exact Nat.lt_of_lt_of_le (Array.getElem?_eq_some_iff.1 hm).1 (h id.owner c hc).2

theorem Narrow.field_lt {t : ClassTable} {id : FieldId} {c : ClassInfo} {f : Field} (h : t.Narrow)
    (hc : t.get? id.owner = some c) (hf : c.fields[id.index]? = some f) : id.index < 65536 :=
  Nat.lt_of_lt_of_le (Array.getElem?_eq_some_iff.1 hf).1 (h id.owner c hc).1

def record (t : ClassTable) (severity : Severity) (subject message : String) : ClassTable :=
  { t with log := t.log.record severity subject message }

/-- Changes what is known about one class. -/
def update (t : ClassTable) (id : ClassId) (f : ClassInfo → ClassInfo) : ClassTable :=
  { t with classes := t.classes.modify id f }

/-- Changes what is known about one method. -/
def updateMethod (t : ClassTable) (id : MethodId) (f : Method → Method) : ClassTable :=
  t.update id.owner fun c => { c with methods := c.methods.modify id.index f }

/-- Takes up the static initializer of a class; the answer tells whether it was still pending. -/
def takePendingInit (id : ClassId) : StateM ClassTable (Option Bool) := fun t =>
  ((t.get? id).map (·.pendingInit), t.update id fun c => { c with pendingInit := false })

/-- Appends a class under a name not in use. -/
def insert (t : ClassTable) (name : String) (build : ClassId → ClassInfo) :
    Except ClassError (ClassId × ClassTable) :=
  if t.byName.contains name then .error (.duplicateClass name)
  else
    let id := t.size
    .ok (id, { t with classes := t.classes.push (build id), byName := t.byName.insert name id })

/-- Static fields get their slots in declaration order. -/
def numberStatics : Nat → List Field → List Field
  | _, [] => []
  | next, f :: rest =>
    if f.isStatic then { f with slot := some next } :: numberStatics (next + 1) rest
    else f :: numberStatics next rest

def buildField (owner : String) (d : FieldDefinition) : Except ClassError Field :=
  match h : FieldType.parse d.descriptor with
  | .ok type =>
    .ok { name := d.name, descriptor := d.descriptor, type := type, flags := d.flags, typed := h }
  | .error e => .error (.badDescriptor owner d.name e)

def buildSignature (owner : String) (d : MethodDefinition) : Except ClassError MethodDescriptor :=
  match MethodDescriptor.parse d.descriptor with
  | .ok signature => .ok signature
  | .error e => .error (.badDescriptor owner d.name e)

def bodyOf (d : MethodDefinition) : MethodBody :=
  if d.flags.isNative then .native none
  else
    match d.code with
    | some raw => .bytecode raw none
    | none => .abstract

/-- A method that should have code and has none. -/
def lacksCode (d : MethodDefinition) : Bool :=
  !d.flags.isNative && d.code.isNone && !d.flags.isAbstract

def buildMethods (id : ClassId) (owner : String) (ds : List (MethodDefinition × MethodDescriptor)) :
    List Method :=
  ds.zipIdx.map fun ((d, signature), index) =>
    { id := ⟨id, index⟩, ownerName := owner, name := d.name, descriptor := d.descriptor,
      signature := signature, flags := d.flags, body := bodyOf d }

/-- A class as it is loaded, before anything is found out about it. -/
def definedInfo (d : ClassDefinition) (fields : List Field) (signatures : List MethodDescriptor)
    (id : ClassId) : ClassInfo :=
  { id := id, name := d.name, superName := d.superName, interfaceNames := d.interfaces,
    flags := d.flags, pool := .ofConstants d.constants,
    fields := (numberStatics 0 fields).toArray,
    methods := (buildMethods id d.name (d.methods.zip signatures)).toArray }

/-- Loads a class whose descriptors are well formed and whose name is new. -/
def load (t : ClassTable) (d : ClassDefinition) : Except ClassError (ClassId × ClassTable) := do
  let fields ← d.fields.mapM (buildField d.name)
  let signatures ← d.methods.mapM (buildSignature d.name)
  let (id, t) ← t.insert d.name (definedInfo d fields signatures)
  let t := (d.methods.filter lacksCode).foldl (fun t m =>
    t.record .warning s!"{d.name}.{m.name}{m.descriptor}"
      "concrete method has no code; treated as abstract") t
  return (id, t)

/-- Loads a class; a refusal is logged. -/
def register (d : ClassDefinition) : StateM ClassTable (Except ClassError ClassId) := fun t =>
  match t.load d with
  | .ok (id, t) => (.ok id, t)
  | .error e => (.error e, t.record .error "class table" e.message)

def arrayInfo (t : ClassTable) (name : String) (element : ElementType) (id : ClassId) : ClassInfo :=
  { id := id, name := name, superName := some objectClass,
    flags := AccessFlags.publicFlag.union .finalFlag,
    element := some element, superLink := some (t.lookup? objectClass), interfaceLinks := some [],
    pendingInit := false }

/-- The class of arrays of `component`, made together with the array classes it needs. -/
def arrayOfType (t : ClassTable) (component : FieldType) : Except ClassError (ClassId × ClassTable) :=
  let name := (FieldType.array component).text
  match t.lookup? name with
  | some id => .ok (id, t)
  | none =>
    match component with
    | .primitive kind => t.insert name (t.arrayInfo name (.primitive kind))
    | .object element =>
      match t.lookup? element with
      | some id => t.insert name (t.arrayInfo name (.reference id))
      | none => .error (.noSuchClass element)
    | .array inner =>
      match t.arrayOfType inner with
      | .ok (id, t) => t.insert name (t.arrayInfo name (.reference id))
      | .error e => .error e

/-- The array class of that name. -/
def arrayClass (name : String) : StateM ClassTable (Except ClassError ClassId) := fun t =>
  match t.lookup? name with
  | some id => (.ok id, t)
  | none =>
    match FieldType.parse name with
    | .ok (.array component) =>
      match t.arrayOfType component with
      | .ok (id, t) => (.ok id, t)
      | .error e => (.error e, t)
    | _ => (.error (.notAnArray name), t)

/-- Name of the class of arrays of an element type. -/
def arrayName (t : ClassTable) : ElementType → Except ClassError String
  | .primitive .reference => .error (.notAnArray "[L")
  | .primitive kind => .ok (FieldType.array (.primitive kind)).text
  | .reference id =>
    match t.get? id with
    | none => .error (.noSuchClass id.text)
    | some c => .ok (if c.isArray then s!"[{c.name}" else s!"[L{c.name};")

def arrayOf (element : ElementType) : StateM ClassTable (Except ClassError ClassId) := do
  match (← get).arrayName element with
  | .ok name => arrayClass name
  | .error e => return .error e

/-- A class by the name an operand gives it, arrays being made on demand. -/
def resolveName (name : String) : StateM ClassTable (Option ClassId) := do
  if name.toList.head? = some '[' then return (← arrayClass name).toOption
  else return (← get).lookup? name

end ClassTable

end ClassMachine
