import ClassMachine.Class.ConstantPool
import ClassMachine.Class.AccessFlags
import ClassMachine.Exchange.Tree
import ClassMachine.Hex

/-!
Exchange form of values, kinds, flags and constants. Floating-point numbers are written as the
digits of their bits, and every invalid pattern as the same word.
-/
namespace ClassMachine

namespace Exchange

/-- Hexadecimal digits of a number, filled up with zeros. -/
def digits (width n : Nat) : String :=
  let digits := Nat.toDigits 16 n
  String.ofList (List.replicate (width - digits.length) '0' ++ digits)

def bits (format : Floating.Format) (n : Nat) : String :=
  if format.isNan n then "nan"
  else digits ((1 + format.exponentBits + format.fractionBits) / 4) n

def single (n : UInt32) : String := bits Floating.single n.toNat

def double (n : UInt64) : String := bits Floating.double n.toNat

def bytes? (t : Tree) : Option (List UInt8) := (ofTree? t).bind fun s : String => bytesOfHex? s.toList

def number? (digits : List Char) : Option Nat :=
  digits.foldlM (fun n c => (hexDigit? c).map fun d => n * 16 + d.toNat) 0

def bits? (format : Floating.Format) (t : Tree) : Option Nat :=
  match t with
  | .text "nan" => some format.quietNan
  | t => (ofTree? t).bind fun s : String => number? s.toList

def single? (t : Tree) : Option UInt32 := (bits? Floating.single t).map UInt32.ofNat

def double? (t : Tree) : Option UInt64 := (bits? Floating.double t).map UInt64.ofNat

def kinds (ks : List Kind) : String := String.ofList (ks.map Kind.descriptorChar)

def kinds? (t : Tree) : Option (List Kind) :=
  (ofTree? t).bind fun s : String => s.toList.mapM Kind.ofDescriptorChar?

end Exchange

instance : ToTree Ref := ⟨fun r => r.handle⟩

instance : OfTree Ref := ⟨fun t => (ofTree? t).map Ref.mk⟩

instance : ToTree Value where
  toTree
    | .int v => .list ["i", v]
    | .long v => .list ["l", v]
    | .float b => .list ["f", Exchange.single b]
    | .double b => .list ["d", Exchange.double b]
    | .ref r => .list ["r", r]

instance : OfTree Value where
  ofTree? t := do
    match ← t.at? (α := String) 0 with
    | "i" => return .int (← t.at? 1)
    | "l" => return .long (← t.at? 1)
    | "f" => return .float (← Exchange.single? (t.item 1))
    | "d" => return .double (← Exchange.double? (t.item 1))
    | "r" => return .ref (← t.at? 1)
    | _ => none

instance : ToTree Kind := ⟨fun k => k.descriptorChar.toString⟩

instance : OfTree Kind where
  ofTree? t := do
    match ← Exchange.kinds? t with
    | [k] => return k
    | _ => none

instance : ToTree Category := ⟨fun c => c.slots⟩

instance : OfTree Category where
  ofTree?
    | .int 1 => some .one
    | .int 2 => some .two
    | _ => none

/-- Slots of a result, zero when there is none. -/
def Exchange.result (c : Option Category) : Nat := (c.map Category.slots).getD 0

def Exchange.result? : Tree → Option (Option Category)
  | .int 0 => some none
  | t => (ofTree? t).map some

instance : ToTree MethodId := ⟨fun m => .list [m.owner, m.index]⟩

instance : OfTree MethodId := ⟨fun t => do return ⟨← (t.item 0).word32?, ← (t.item 1).word16?⟩⟩

instance : ToTree AccessFlags := ⟨fun f => f.bits.toNat⟩

instance : OfTree AccessFlags := ⟨fun t => (ofTree? t).map AccessFlags.mk⟩

def Exchange.member (word : String) (m : MemberRef) : Tree := [word, m.owner, m.name, m.descriptor]

def Exchange.member? (t : Tree) : Option MemberRef := do return ⟨← t.at? 1, ← t.at? 2, ← t.at? 3⟩

instance : ToTree Constant where
  toTree
    | .unusable => ["unusable"]
    | .utf8 s => ["utf8", s]
    | .integer v => .list ["int", v]
    | .float b => ["float", Exchange.single b]
    | .long v => .list ["long", v]
    | .double b => ["double", Exchange.double b]
    | .type s => ["class", s]
    | .string s => ["string", s]
    | .fieldRef m => Exchange.member "field" m
    | .methodRef m => Exchange.member "method" m
    | .interfaceMethodRef m => Exchange.member "imethod" m

instance : OfTree Constant where
  ofTree? t := do
    match ← t.at? (α := String) 0 with
    | "utf8" => return .utf8 (← t.at? 1)
    | "int" => return .integer (← t.at? 1)
    | "float" => return .float (← Exchange.single? (t.item 1))
    | "long" => return .long (← t.at? 1)
    | "double" => return .double (← Exchange.double? (t.item 1))
    | "class" => return .type (← t.at? 1)
    | "string" => return .string (← t.at? 1)
    | "field" => return .fieldRef (← Exchange.member? t)
    | "method" => return .methodRef (← Exchange.member? t)
    | "imethod" => return .interfaceMethodRef (← Exchange.member? t)
    | "unusable" => return .unusable
    | _ => none

end ClassMachine
