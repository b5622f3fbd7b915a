import ClassMachine.Class.Info
import ClassMachine.Exchange.Code

/-!
Exchange form of class definitions and of what is known about loaded classes.
-/
namespace ClassMachine

instance : ToTree FieldDefinition := ⟨fun f => .list [f.name, f.descriptor, f.flags]⟩

instance : OfTree FieldDefinition := ⟨fun t => do return ⟨← t.at? 0, ← t.at? 1, ← t.at? 2⟩⟩

instance : ToTree MethodDefinition where
  toTree m := .record [("name", m.name), ("desc", m.descriptor), ("flags", m.flags), ("code", m.code)]

instance : OfTree MethodDefinition where
  ofTree? t := do
    return { name := ← t.get? "name", descriptor := ← t.get? "desc", flags := ← t.get? "flags"
             code := ← t.get? "code" }

instance : ToTree ClassDefinition where
  toTree d := .record [("name", d.name), ("super", d.superName), ("interfaces", d.interfaces),
    ("flags", d.flags), ("constants", d.constants), ("fields", d.fields), ("methods", d.methods)]

/-- What is left out is empty, except that the superclass is the root of the hierarchy. -/
instance : OfTree ClassDefinition where
  ofTree? t := do
    return { name := ← t.get? "name", superName := ← t.getD "super" (some objectClass)
             interfaces := ← t.get? "interfaces", flags := ← t.get? "flags"
             constants := ← t.get? "constants", fields := ← t.get? "fields"
             methods := ← t.get? "methods" }

instance : Vocabulary Builtin where
  words := [(.objectWait, "ObjectWait"), (.objectNotify, "ObjectNotify"),
    (.objectNotifyAll, "ObjectNotifyAll"), (.objectHashCode, "ObjectHashCode"),
    (.objectGetClass, "ObjectGetClass"), (.threadSleep, "ThreadSleep"), (.threadYield, "ThreadYield"),
    (.threadCurrentThread, "ThreadCurrentThread"), (.threadStart, "ThreadStart"),
    (.threadInterrupt, "ThreadInterrupt"), (.threadIsAlive, "ThreadIsAlive"),
    (.threadJoin, "ThreadJoin"), (.systemGc, "SystemGc"), (.systemArraycopy, "SystemArraycopy"),
    (.systemCurrentTimeMillis, "SystemCurrentTimeMillis"),
    (.systemIdentityHashCode, "SystemIdentityHashCode")]

instance : ToTree NativeBinding where
  toTree
    | .builtin b => .list ["builtin", b]
    | .host id => .list ["host", id]
    | .unbound => ["unbound"]

instance : ToTree FieldId := ⟨fun f => .list [f.owner, f.index]⟩

instance : ToTree Field where
  toTree f := .list [f.name, f.descriptor, f.flags, f.kind, f.isStatic, f.slot, f.accessor?]

/-- How far a method's body has come. -/
def MethodBody.stage : MethodBody → String
  | .bytecode _ none => "bytecode"
  | .bytecode _ (some (.ok _)) => "linked"
  | .bytecode _ (some (.error _)) => "failed"
  | .native _ => "native"
  | .abstract => "abstract"

instance : ToTree Method where
  toTree m := .record [("text", m.text), ("flags", m.flags), ("body", m.body.stage),
    ("args", m.argCount), ("slots", m.argSlots), ("static", m.isStatic),
    ("synchronized", m.isSynchronized), ("initializer", m.isInitializer),
    ("void_no_args", m.isVoidNoArgs), ("linked", m.linked?.map LinkedCode.length),
    ("binding", m.binding?)]

/-- An element type and the kind its elements are stored as. -/
instance : ToTree ElementType where
  toTree e :=
    let type : Tree :=
      match e with
      | .primitive kind => .list ["prim", kind]
      | .reference id => .list ["ref", id]
    .list [type, e.kind]

instance : ToTree ClassInfo where
  toTree c := .record [("id", c.id), ("name", c.name), ("super", c.superName),
    ("interfaces", c.interfaceNames), ("flags", c.flags), ("interface", c.isInterface),
    ("abstract", c.isAbstract), ("array", c.isArray), ("element", c.element),
    ("statics", Exchange.kinds c.staticKinds), ("fields", c.fields), ("methods", c.methods),
    ("layout", c.layout.map fun l => Exchange.kinds l.kinds), ("size", c.layout.map Layout.size),
    ("vtable", c.dispatch.map fun d => d.toList.map fun (s, m) => [s, m.owner, m.index]),
    ("super_link", c.superLink.map fun link => [link]), ("interface_links", c.interfaceLinks),
    ("clinit", c.methodPosition? "<clinit>" "()V"), ("pending", c.pendingInit),
    ("constants", c.pool.size)]

end ClassMachine
