/-!
Access flags of classes, fields and methods. Bits without a meaning here are kept.
-/
namespace ClassMachine

structure AccessFlags where
  bits : UInt16 := 0
  deriving DecidableEq, Repr, Inhabited

namespace AccessFlags

def publicFlag : AccessFlags := ⟨0x0001⟩
def privateFlag : AccessFlags := ⟨0x0002⟩
def staticFlag : AccessFlags := ⟨0x0008⟩
def finalFlag : AccessFlags := ⟨0x0010⟩
def synchronizedFlag : AccessFlags := ⟨0x0020⟩
def nativeFlag : AccessFlags := ⟨0x0100⟩
def interfaceFlag : AccessFlags := ⟨0x0200⟩
def abstractFlag : AccessFlags := ⟨0x0400⟩

def union (a b : AccessFlags) : AccessFlags := ⟨a.bits ||| b.bits⟩

def contains (a b : AccessFlags) : Bool := a.bits &&& b.bits == b.bits

def isStatic (f : AccessFlags) : Bool := f.contains staticFlag
def isPrivate (f : AccessFlags) : Bool := f.contains privateFlag
def isSynchronized (f : AccessFlags) : Bool := f.contains synchronizedFlag
def isNative (f : AccessFlags) : Bool := f.contains nativeFlag
def isInterface (f : AccessFlags) : Bool := f.contains interfaceFlag
def isAbstract (f : AccessFlags) : Bool := f.contains abstractFlag

end AccessFlags

end ClassMachine
