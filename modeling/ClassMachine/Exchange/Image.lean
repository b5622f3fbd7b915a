import ClassMachine.Exchange.State
import ClassMachine.Snapshot.Companions
import ClassMachine.Snapshot.Image

/-!
Exchange form of images.
-/
namespace ClassMachine

open Snapshot

instance : ToTree ClassRecord := ⟨fun c => [c.name, c.hash]⟩

instance : OfTree ClassRecord := ⟨fun t => do return ⟨← t.at? 0, ← t.at? 1⟩⟩

instance : ToTree PayloadRecord where
  toTree
    | .none => .null
    | .array kind elements => .list ["array", kind, elements]
    | .str text => ["str", text]
    | .mirror name => ["mirror", name]
    | .companion bytes => ["companion", hex bytes]

instance : OfTree PayloadRecord where
  ofTree?
    | .null => some .none
    | t => do
      match ← t.at? (α := String) 0 with
      | "array" => return .array (← t.at? 1) (← t.at? 2)
      | "str" => return .str (← t.at? 1)
      | "mirror" => return .mirror (← t.at? 1)
      | "companion" => return .companion (← Exchange.bytes? (t.item 1))
      | _ => none

instance : ToTree ObjectRecord where
  toTree o := .record [("ref", o.ref), ("class", o.className), ("monitor", o.monitor),
    ("fields", o.fields), ("payload", o.payload)]

instance : OfTree ObjectRecord where
  ofTree? t := do
    return { ref := ← t.get? "ref", className := ← t.get? "class", monitor := ← t.get? "monitor"
             fields := ← t.get? "fields", payload := ← t.get? "payload" }

instance : ToTree StaticsRecord := ⟨fun s => .list [s.className, s.values]⟩

instance : OfTree StaticsRecord := ⟨fun t => do return ⟨← t.at? 0, ← t.at? 1⟩⟩

instance : ToTree StateRecord where
  toTree
    | .ready => ["Ready"]
    | .detachedFor millis => .list ["DetachedFor", millis]
    | .detached => ["Detached"]

instance : OfTree StateRecord where
  ofTree? t := do
    match ← t.at? (α := String) 0 with
    | "Ready" => return .ready
    | "DetachedFor" => return .detachedFor (← t.at? 1)
    | "Detached" => return .detached
    | _ => none

instance : ToTree FrameRecord where
  toTree f := .record [("class", f.className), ("name", f.name), ("desc", f.descriptor),
    ("hash", f.methodHash), ("pc", f.pc), ("locals", f.locals), ("stack", f.stack),
    ("monitor", f.monitor)]

instance : OfTree FrameRecord where
  ofTree? t := do
    return { className := ← t.get? "class", name := ← t.get? "name", descriptor := ← t.get? "desc"
             methodHash := ← t.get? "hash", pc := ← t.get? "pc", locals := ← t.get? "locals"
             stack := ← t.get? "stack", monitor := ← t.get? "monitor" }

instance : ToTree ThreadRecord where
  toTree t := .record [("id", t.id), ("state", t.state), ("interrupted", t.interrupted),
    ("interruptible", t.interruptible), ("pending", t.pending), ("object", t.object),
    ("joiners", t.joiners), ("frames", t.frames)]

instance : OfTree ThreadRecord where
  ofTree? t := do
    return { id := ← t.get? "id", state := ← t.get? "state", interrupted := ← t.get? "interrupted"
             interruptible := ← t.get? "interruptible", pending := ← t.get? "pending"
             object := ← t.get? "object", joiners := ← t.get? "joiners", frames := ← t.get? "frames" }

instance : ToTree Image where
  toTree i := .record [("captured_at", i.capturedAt), ("heap_capacity", i.heapCapacity),
    ("out_of_memory", i.outOfMemory), ("classes", i.classes), ("objects", i.objects),
    ("interned", i.interned), ("statics", i.statics), ("threads", i.threads), ("ready", i.ready)]

instance : OfTree Image where
  ofTree? t := do
    return { capturedAt := ← t.get? "captured_at", heapCapacity := ← t.get? "heap_capacity"
             outOfMemory := ← t.get? "out_of_memory", classes := ← t.get? "classes"
             objects := ← t.get? "objects", interned := ← t.get? "interned"
             statics := ← t.get? "statics", threads := ← t.get? "threads", ready := ← t.get? "ready" }

instance : Vocabulary CompanionCodec :=
  ⟨[(CompanionCodec.counter, "counter"), (CompanionCodec.holder, "holder")]⟩

end ClassMachine
