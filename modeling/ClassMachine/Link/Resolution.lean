import ClassMachine.Bytecode.Verifier
import ClassMachine.Link.Decoding
import ClassMachine.Link.Linker

/-!
Resolution of decoded instructions against the constants of their class and the class table. A
symbol that is missing is logged and leaves a placeholder with the same stack effect, so whether a
body links never depends on what else is loaded.
-/
namespace ClassMachine

/-- Linking may fail, and keeps what it found out about classes even then. -/
abbrev LinkM := EStateM LinkError Linker

def LinkM.ofState {α : Type} (x : StateM Linker α) : LinkM α := fun l =>
  let (a, l) := x l
  .ok a l

def LinkM.ofClasses {α : Type} (x : StateM ClassTable α) : LinkM α :=
  LinkM.ofState (Linker.onClasses x)

def LinkM.ofExcept {α : Type} : Except LinkError α → LinkM α
  | .ok a => fun l => .ok a l
  | .error e => fun l => .error e l

/-- Where a symbol is used: the constants of the class, the method's text and the offset. -/
structure SymbolSite where
  pool : ConstantPool
  subject : String
  pc : Nat

namespace SymbolSite

def constant (s : SymbolSite) (index : Nat) : Except LinkError Constant :=
  match s.pool.get? index with
  | none | some .unusable => .error (.badConstant s.pc index "index out of range")
  | some c => .ok c

def wrongConstant (s : SymbolSite) (index : Nat) (found : Constant) (wanted : String) : LinkError :=
  .badConstant s.pc index s!"expected {wanted}, found {found.tag}"

/-- Logs a missing symbol and stands in for the instruction. -/
def missing (s : SymbolSite) (kind : SymbolKind) (symbol : String) (pops : List Category)
    (push : Option Category) : LinkM Instruction := do
  LinkM.ofState (Linker.record .warning s.subject s!"unresolved {kind.name} {symbol}")
  return .unresolved ⟨kind, symbol, pops, push⟩

def className (s : SymbolSite) (index : Nat) : Except LinkError String := do
  match ← s.constant index with
  | .type name => return name
  | other => throw (s.wrongConstant index other "class")

def fieldMember (s : SymbolSite) (index : Nat) : Except LinkError MemberRef := do
  match ← s.constant index with
  | .fieldRef member => return member
  | other => throw (s.wrongConstant index other "fieldref")

def methodMember (s : SymbolSite) (index : Nat) : Except LinkError MemberRef := do
  match ← s.constant index with
  | .methodRef member | .interfaceMethodRef member => return member
  | other => throw (s.wrongConstant index other "methodref")

def fieldType (s : SymbolSite) (index : Nat) (member : MemberRef) : Except LinkError FieldType :=
  (FieldType.parse member.descriptor).mapError fun e => .badConstant s.pc index e.message

def methodDescriptor (s : SymbolSite) (index : Nat) (member : MemberRef) :
    Except LinkError MethodDescriptor :=
  (MethodDescriptor.parse member.descriptor).mapError fun e => .badConstant s.pc index e.message

def loadClass (s : SymbolSite) (name : String) : LinkM Instruction := do
  match ← LinkM.ofClasses (ClassTable.resolveName name) with
  | some id => return .pushClass id
  | none => s.missing .type name [] (some .one)

def loadConstant (s : SymbolSite) (index : Nat) (wide : Bool) : LinkM Instruction := do
  match ← LinkM.ofExcept (s.constant index), wide with
  | .integer v, false => return .pushInt v
  | .float bits, false => return .pushFloat bits
  | .string text, false => return .pushString text
  | .type name, false => s.loadClass name
  | .long v, true => return .pushLong v
  | .double bits, true => return .pushDouble bits
  | other, _ => throw (s.wrongConstant index other "loadable constant")

/-- The slot a static field was given when its class was loaded. -/
def staticSlot? (t : ClassTable) (id : FieldId) : Option (Nat × Kind) := do
  let f ← (← t.get? id.owner).fields[id.index]?
  if f.isStatic then return (← f.slot, f.kind) else none

def staticAccess (s : SymbolSite) (put : Bool) (member : MemberRef) (type : FieldType) :
    LinkM Instruction := do
  let pops := if put then [type.category] else []
  let push := if put then none else some type.category
  match (← get).classes.lookup? member.owner with
  | none => s.missing .type member.owner pops push
  | some owner =>
    match ← LinkM.ofClasses (ClassTable.resolveField owner member.name member.descriptor) with
    | .error _ => s.missing .field member.text pops push
    | .ok id =>
      match staticSlot? (← get).classes id with
      | none => s.missing .field member.text pops push
      | some (slot, kind) =>
        return if put then .putStatic id.owner slot kind else .getStatic id.owner slot kind

def staticField (s : SymbolSite) (index : Nat) (put : Bool) : LinkM Instruction := do
  let member ← LinkM.ofExcept (s.fieldMember index)
  s.staticAccess put member (← LinkM.ofExcept (s.fieldType index member))

/-- The slot of an instance field, when fields are bound at link time. -/
def fieldSlot? (id : FieldId) : LinkM (Option (Nat × Kind)) := do
  match (← get).access with
  | .generic => return none
  | .precompiledBridge =>
    let c? ← LinkM.ofState (Linker.prepare id.owner)
    return c?.bind fun c => (c.fields[id.index]?).bind Field.accessor?

def instanceAccess (s : SymbolSite) (put : Bool) (member : MemberRef) (type : FieldType) :
    LinkM Instruction := do
  let pops := if put then [.one, type.category] else [.one]
  let push := if put then none else some type.category
  match (← get).classes.lookup? member.owner with
  | none => s.missing .type member.owner pops push
  | some owner =>
    match ← LinkM.ofClasses (ClassTable.resolveField owner member.name member.descriptor) with
    | .error _ => s.missing .field member.text pops push
    | .ok id =>
      match ← fieldSlot? id with
      | some (slot, kind) => return if put then .putFieldSlot slot kind else .getFieldSlot slot kind
      | none =>
        return if put then .putField member.name member.descriptor type.kind
          else .getField member.name member.descriptor type.kind

def instanceField (s : SymbolSite) (index : Nat) (put : Bool) : LinkM Instruction := do
  let member ← LinkM.ofExcept (s.fieldMember index)
  s.instanceAccess put member (← LinkM.ofExcept (s.fieldType index member))

def call (s : SymbolSite) (kind : InvokeKind) (member : MemberRef) (descriptor : MethodDescriptor) :
    LinkM Instruction := do
  let site : CallSite := ⟨descriptor.paramCategories, descriptor.returnCategory⟩
  let pops := if kind = .static then site.params else .one :: site.params
  match ← LinkM.ofClasses (ClassTable.resolveName member.owner) with
  | none => s.missing .type member.owner pops site.returns
  | some owner =>
    match ← LinkM.ofClasses (ClassTable.resolveMethod owner member.name member.descriptor) with
    | .error _ => s.missing .method member.text pops site.returns
    | .ok method =>
      match kind with
      | .static => return .invokeStatic method site
      | .special => return .invokeSpecial method site
      | .interface =>
        return .invokeInterface (← LinkM.ofState (Linker.intern member.name member.descriptor)) site
      | .virtual =>
        let signature ← LinkM.ofState (Linker.intern member.name member.descriptor)
        if descriptor.params.isEmpty && descriptor.returns.isNone then
          return .invokeVoidNoArgs signature
        else return .invokeVirtual signature site

def invoke (s : SymbolSite) (kind : InvokeKind) (index : Nat) : LinkM Instruction := do
  let member ← LinkM.ofExcept (s.methodMember index)
  s.call kind member (← LinkM.ofExcept (s.methodDescriptor index member))

def useClass (s : SymbolSite) (use : ClassUse) (name : String) : LinkM Instruction := do
  let bracket := name.toList.head? = some '['
  let wanted :=
    match use with
    | .newRefArray => if bracket then s!"[{name}" else s!"[L{name};"
    | _ => name
  match ← LinkM.ofClasses (ClassTable.resolveName wanted), use with
  | some id, .new => return .new id
  | some id, .newRefArray => return .newRefArray id
  | some id, .multiNewArray dims => return .multiNewArray id dims
  | some id, .checkCast => return .checkCast id
  | some id, .instanceOf => return .instanceOf id
  | none, .new => s.missing .type name [] (some .one)
  | none, .multiNewArray dims => s.missing .type name (List.replicate dims .one) (some .one)
  | none, _ => s.missing .type name [.one] (some .one)

def classUse (s : SymbolSite) (use : ClassUse) (index : Nat) : LinkM Instruction := do
  s.useClass use (← LinkM.ofExcept (s.className index))

def resolve (s : SymbolSite) : Operation → LinkM Instruction
  | .plain i => return i
  | .loadConstant index wide => s.loadConstant index wide
  | .staticField index put => s.staticField index put
  | .instanceField index put => s.instanceField index put
  | .invoke kind index => s.invoke kind index
  | .classUse use index => s.classUse use index

/-- What a handler catches; problems are reported at the handler's offset. -/
def catchType (s : SymbolSite) (index : Nat) : LinkM CatchType := do
  if index = 0 then return .any
  else
    let name ← LinkM.ofExcept (s.className index)
    match ← LinkM.ofClasses (ClassTable.resolveName name) with
    | some id => return .type id
    | none =>
      LinkM.ofState (Linker.record .warning s.subject s!"handler catches missing class {name}")
      return .unresolved name

end SymbolSite

namespace Decoding

/-- Decodes and resolves instructions one after the other. -/
def linkInstructions (pool : ConstantPool) (subject : String) (b : Body) :
    List Nat → LinkM (List Instruction)
  | [] => return []
  | pc :: rest => do
    let op ← LinkM.ofExcept (operation b pc)
    let i ← SymbolSite.resolve ⟨pool, subject, pc⟩ op
    return i :: (← linkInstructions pool subject b rest)

def linkHandler (pool : ConstantPool) (subject : String) (b : Body) (h : RawHandler) :
    LinkM Handler := do
  let catches ← SymbolSite.catchType ⟨pool, subject, h.handlerPc⟩ h.catchType
  let start ← LinkM.ofExcept (b.handlerIndex h h.startPc false)
  let stop ← LinkM.ofExcept (b.handlerIndex h h.endPc true)
  let target ← LinkM.ofExcept (b.handlerIndex h h.handlerPc false)
  return ⟨start, stop, target, catches⟩

def linkHandlers (pool : ConstantPool) (subject : String) (b : Body) :
    List RawHandler → LinkM (List Handler)
  | [] => return []
  | h :: rest => do
    let handler ← linkHandler pool subject b h
    return handler :: (← linkHandlers pool subject b rest)

/-- Turns a raw body into instructions and handlers. -/
def decode (pool : ConstantPool) (subject : String) (raw : RawCode) : LinkM LinkedCode := do
  if raw.code.isEmpty then throw .emptyCode
  let pcs ← LinkM.ofExcept (starts raw.code)
  let b := Body.ofStarts raw.code pcs
  let instructions ← linkInstructions pool subject b pcs
  let handlers ← linkHandlers pool subject b raw.handlers
  return ⟨instructions.toArray, handlers, raw.maxStack, raw.maxLocals⟩

end Decoding

namespace Linker

/-- Decodes and verifies a body. -/
def linkBody (pool : ConstantPool) (subject : String) (raw : RawCode) : LinkM LinkedCode := do
  let code ← Decoding.decode pool subject raw
  let _ ← LinkM.ofExcept code.verify
  return code

/-- Keeps the outcome of linking a method. -/
def store (id : MethodId) (raw : RawCode) (result : Except LinkError LinkedCode) :
    StateM Linker Unit :=
  modify fun l =>
    { l with classes :=
      l.classes.updateMethod id fun m => { m with body := .bytecode raw (some result) } }

/-- Links a method that was not linked before. A failure is logged. -/
def linkFresh (id : MethodId) (c : ClassInfo) (m : Method) (raw : RawCode) :
    StateM Linker (Except LinkError LinkedCode) := do
  let _ ← prepare c.id
  let result : Except LinkError LinkedCode ← fun l =>
    match linkBody c.pool m.text raw l with
    | .ok code l => (.ok code, l)
    | .error e l => (.error e, l)
  if let .error e := result then record .error m.text s!"link failed: {e.message}"
  store id raw result
  return result

/-- The linked body of a method, computed on first use. -/
def link (id : MethodId) : StateM Linker (Except LinkError LinkedCode) := do
  match (← get).classes.get? id.owner with
  | none => return .error .emptyCode
  | some c =>
    match c.methods[id.index]? with
    | none => return .error .emptyCode
    | some m =>
      match m.body with
      | .bytecode _ (some result) => return result
      | .bytecode raw none => linkFresh id c m raw
      | _ => return .error .emptyCode

def hasBytecode (m : Method) : Bool :=
  match m.body with
  | .bytecode _ _ => true
  | _ => false

/-- Links every body of a class and counts the failures. -/
def linkAll (id : ClassId) : StateM Linker Nat := do
  match ← prepare id with
  | none => return 0
  | some c =>
    (c.methods.toList.filter hasBytecode).foldlM (fun failures m => do
      match ← link m.id with
      | .ok _ => return failures
      | .error _ => return failures + 1) 0

end Linker

end ClassMachine
