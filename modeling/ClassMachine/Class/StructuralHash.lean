import ClassMachine.Class.Info
import ClassMachine.Digest

/-!
Structural hashes. The shape of a class is written as a byte string in which every text is preceded
by its length and every list by its count; the hash is the digest of that string. Constants and
method bodies are no part of the shape.
-/
namespace ClassMachine

/-- Four bytes, most significant first. -/
def countBytes (n : Nat) : List UInt8 := Digest.bytesOfWord (UInt32.ofNat n)

def textBytes (s : String) : List UInt8 := countBytes s.utf8ByteSize ++ s.toUTF8.toList

def flagBytes (f : AccessFlags) : List UInt8 := [(f.bits >>> 8).toUInt8, f.bits.toUInt8]

def memberBytes (name descriptor : String) (flags : AccessFlags) : List UInt8 :=
  textBytes name ++ textBytes descriptor ++ flagBytes flags

namespace Method

def shapeBytes (m : Method) : List UInt8 := memberBytes m.name m.descriptor m.flags

def structuralHash (m : Method) : String := hex (Digest.sha256 m.shapeBytes)

end Method

namespace ClassInfo

def shapeBytes (c : ClassInfo) : List UInt8 :=
  textBytes c.name ++ textBytes (c.superName.getD "") ++
  countBytes c.interfaceNames.length ++ c.interfaceNames.flatMap textBytes ++
  flagBytes c.flags ++
  countBytes c.fields.size ++
  c.fields.toList.flatMap (fun f => memberBytes f.name f.descriptor f.flags) ++
  countBytes c.methods.size ++ c.methods.toList.flatMap Method.shapeBytes

def structuralHash (c : ClassInfo) : String := hex (Digest.sha256 c.shapeBytes)

end ClassInfo

end ClassMachine
