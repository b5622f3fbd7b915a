import ClassMachine.Heap.Object
import ClassMachine.Snapshot.Binary
import ClassMachine.Snapshot.Error

/-!
Codecs for data of the host. A codec is chosen by the class of the object that carries the data.
-/
namespace ClassMachine.Snapshot

/-- Both directions are told the class of the carrying object. -/
structure CompanionCodec where
  encode : String → Companion → Except SnapshotError (List UInt8)
  decode : String → List UInt8 → Except SnapshotError Companion

namespace CompanionCodec

/-- Stores companions as the values they hold. Bytes after a value are left alone. -/
def ofBinary {α : Type} [Binary α] (value? : Companion → Option α) (build : α → Companion) :
    CompanionCodec where
  encode className c :=
    match value? c with
    | some a => .ok (Binary.write a)
    | none => .error (.companionType className)
  decode _ bytes :=
    match (Binary.read : Reader α) bytes with
    | some (a, _) => .ok (build a)
    | none => .error .codec

def hits? : Companion → Option Int32
  | .counter hits => some hits
  | _ => none

def counter : CompanionCodec := ofBinary hits? .counter

instance : Inhabited CompanionCodec := ⟨counter⟩

def held? : Companion → Option (List Ref × UInt32 × UInt32)
  | .holder refs vetoes asked => some (refs, vetoes, asked)
  | _ => none

def holder : CompanionCodec := ofBinary held? fun (refs, vetoes, asked) => .holder refs vetoes asked

end CompanionCodec

/-- Codecs by class name; of two for a class the last one counts. -/
abbrev CodecRegistry := List (String × CompanionCodec)

def CodecRegistry.find (codecs : CodecRegistry) (className : String) :
    Except SnapshotError CompanionCodec :=
  match codecs.reverse.lookup className with
  | some codec => .ok codec
  | none => .error (.noCodec className)

end ClassMachine.Snapshot
