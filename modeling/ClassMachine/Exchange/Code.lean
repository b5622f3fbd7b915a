import ClassMachine.Bytecode.Code
import ClassMachine.Exchange.Value

/-!
Exchange form of method bodies. An instruction is a list of its name and its payload.
-/
namespace ClassMachine

instance : ToTree RawHandler := ⟨fun h => [h.startPc, h.endPc, h.handlerPc, h.catchType]⟩

instance : OfTree RawHandler where
  ofTree? t := do
    return ⟨← (t.item 0).word16?, ← (t.item 1).word16?, ← (t.item 2).word16?, ← (t.item 3).word16?⟩

instance : ToTree RawCode where
  toTree c := .record [("stack", c.maxStack), ("locals", c.maxLocals), ("hex", hex c.code.toList),
    ("handlers", c.handlers)]

instance : OfTree RawCode where
  ofTree? t := do
    return { maxStack := ← (t.field "stack").word16?, maxLocals := ← (t.field "locals").word16?
             code := (← Exchange.bytes? (t.field "hex")).toArray, handlers := ← t.get? "handlers" }

instance : Vocabulary ArithOp where
  words := [(.add, "Add"), (.sub, "Sub"), (.mul, "Mul"), (.div, "Div"), (.rem, "Rem"), (.shl, "Shl"),
    (.shr, "Shr"), (.ushr, "Ushr"), (.and, "And"), (.or, "Or"), (.xor, "Xor")]

instance : Vocabulary NumType where
  words := [(.int, "Int"), (.long, "Long"), (.float, "Float"), (.double, "Double")]

instance : Vocabulary Cond where
  words := [(.eq, "Eq"), (.ne, "Ne"), (.lt, "Lt"), (.ge, "Ge"), (.gt, "Gt"), (.le, "Le")]

instance : Vocabulary CompareOp where
  words := [(.long, "Long"), (.floatL, "FloatL"), (.floatG, "FloatG"), (.doubleL, "DoubleL"),
    (.doubleG, "DoubleG")]

instance : Vocabulary SymbolKind where
  words := [(.type, "Class"), (.method, "Method"), (.field, "Field")]

namespace Exchange

/-- Instructions without payload. -/
def plain : List (Instruction × String) := [
  (.nop, "Nop"), (.pushNull, "PushNull"), (.stack .pop, "Pop"), (.stack .pop2, "Pop2"),
  (.stack .dup, "Dup"), (.stack .dupX1, "DupX1"), (.stack .dupX2, "DupX2"), (.stack .dup2, "Dup2"),
  (.stack .dup2X1, "Dup2X1"), (.stack .dup2X2, "Dup2X2"), (.stack .swap, "Swap"),
  (.returnVoid, "Return"), (.arrayLength, "ArrayLength"), (.throw, "Throw"),
  (.monitorEnter, "MonitorEnter"), (.monitorExit, "MonitorExit")]

/-- Access to a local; the first four have names of their own. -/
def localAccess (word : String) (index : Nat) (c : Category) : Tree :=
  if index ≤ 3 then .list [s!"{word}{index}", c] else .list [word, index, c]

def call {α : Type} [ToTree α] (word : String) (callee : α) (site : CallSite) : Tree :=
  .list [word, callee, site.params, result site.returns]

def instruction : Instruction → Tree
  | .pushInt v => .list ["PushInt", v]
  | .pushLong v => .list ["PushLong", v]
  | .pushFloat b => ["PushFloat", single b]
  | .pushDouble b => ["PushDouble", double b]
  | .pushString s => ["PushString", s]
  | .pushClass id => .list ["PushClass", id]
  | .load n c => localAccess "Load" n c
  | .store n c => localAccess "Store" n c
  | .increment n delta => .list ["Iinc", n, delta.toInt]
  | .arrayLoad k => .list ["ArrayLoad", k]
  | .arrayStore k => .list ["ArrayStore", k]
  | .arith op type => .list ["Arith", op, type]
  | .neg type => .list ["Neg", type]
  | .convert source target => .list ["Convert", source, target]
  | .narrow k => .list ["Narrow", k]
  | .compare op => .list ["Compare", op]
  | .ifZero cond t => .list ["IfZero", cond, t]
  | .ifCmp cond t => .list ["IfCmp", cond, t]
  | .ifRefEq equal t => .list ["IfRefEq", equal, t]
  | .ifNull null t => .list ["IfNull", null, t]
  | .goto t => .list ["Goto", t]
  | .tableSwitch low targets default => .list ["TableSwitch", low, targets, default]
  | .lookupSwitch pairs default => .list ["LookupSwitch", pairs, default]
  | .returnValue c => .list ["ReturnValue", c]
  | .getStatic owner slot k => .list ["GetStatic", owner, slot, k]
  | .putStatic owner slot k => .list ["PutStatic", owner, slot, k]
  | .getField name descriptor k => .list ["GetField", name, descriptor, k]
  | .putField name descriptor k => .list ["PutField", name, descriptor, k]
  | .getFieldSlot slot k => .list ["GetFieldSlot", slot, k]
  | .putFieldSlot slot k => .list ["PutFieldSlot", slot, k]
  | .invokeStatic m site => call "InvokeStatic" m site
  | .invokeSpecial m site => call "InvokeSpecial" m site
  | .invokeVirtual s site => call "InvokeVirtual" s site
  | .invokeInterface s site => call "InvokeInterface" s site
  | .invokeVoidNoArgs s => .list ["InvokeVoidNoArgs", s]
  | .new id => .list ["New", id]
  | .newArray k => .list ["NewArray", k]
  | .newRefArray id => .list ["NewRefArray", id]
  | .multiNewArray id dims => .list ["MultiNewArray", id, dims]
  | .checkCast id => .list ["CheckCast", id]
  | .instanceOf id => .list ["InstanceOf", id]
  | .unresolved u => .list ["Unresolved", u.kind, u.symbol, u.pops, result u.push]
  | i => .list [plain.lookup i]

def site? (t : Tree) : Option CallSite := do return ⟨← t.at? 2, ← result? (t.item 3)⟩

/-- A key and the target it selects. -/
def keyed? (t : Tree) : Option (Int32 × Nat) := do return (← t.at? 0, ← (t.item 1).word32?)

def plain? (word : String) : Option Instruction := (plain.find? (·.2 == word)).map (·.1)

def instruction? (t : Tree) : Option Instruction := do
  match ← t.at? (α := String) 0 with
  | "PushInt" => return .pushInt (← t.at? 1)
  | "PushLong" => return .pushLong (← t.at? 1)
  | "PushFloat" => return .pushFloat (← single? (t.item 1))
  | "PushDouble" => return .pushDouble (← double? (t.item 1))
  | "PushString" => return .pushString (← t.at? 1)
  | "PushClass" => return .pushClass (← (t.item 1).word32?)
  | "Load0" => return .load 0 (← t.at? 1)
  | "Load1" => return .load 1 (← t.at? 1)
  | "Load2" => return .load 2 (← t.at? 1)
  | "Load3" => return .load 3 (← t.at? 1)
  | "Load" | "load" => return .load (← (t.item 1).word16?) (← t.at? 2)
  | "Store0" => return .store 0 (← t.at? 1)
  | "Store1" => return .store 1 (← t.at? 1)
  | "Store2" => return .store 2 (← t.at? 1)
  | "Store3" => return .store 3 (← t.at? 1)
  | "Store" | "store" => return .store (← (t.item 1).word16?) (← t.at? 2)
  | "Iinc" => return .increment (← (t.item 1).word16?) (← t.at? 2)
  | "ArrayLoad" => return .arrayLoad (← t.at? 1)
  | "ArrayStore" => return .arrayStore (← t.at? 1)
  | "Arith" => return .arith (← t.at? 1) (← t.at? 2)
  | "Neg" => return .neg (← t.at? 1)
  | "Convert" => return .convert (← t.at? 1) (← t.at? 2)
  | "Narrow" => return .narrow (← t.at? 1)
  | "Compare" => return .compare (← t.at? 1)
  | "IfZero" => return .ifZero (← t.at? 1) (← (t.item 2).word32?)
  | "IfCmp" => return .ifCmp (← t.at? 1) (← (t.item 2).word32?)
  | "IfRefEq" => return .ifRefEq (← t.at? 1) (← (t.item 2).word32?)
  | "IfNull" => return .ifNull (← t.at? 1) (← (t.item 2).word32?)
  | "Goto" => return .goto (← (t.item 1).word32?)
  | "TableSwitch" =>
    return .tableSwitch (← t.at? 1) (← (t.item 2).items.mapM Tree.word32?) (← (t.item 3).word32?)
  | "LookupSwitch" => return .lookupSwitch (← (t.item 1).items.mapM keyed?) (← (t.item 2).word32?)
  | "ReturnValue" => return .returnValue (← t.at? 1)
  | "GetStatic" => return .getStatic (← (t.item 1).word32?) (← (t.item 2).word16?) (← t.at? 3)
  | "PutStatic" => return .putStatic (← (t.item 1).word32?) (← (t.item 2).word16?) (← t.at? 3)
  | "GetField" => return .getField (← t.at? 1) (← t.at? 2) (← t.at? 3)
  | "PutField" => return .putField (← t.at? 1) (← t.at? 2) (← t.at? 3)
  | "GetFieldSlot" => return .getFieldSlot (← (t.item 1).word16?) (← t.at? 2)
  | "PutFieldSlot" => return .putFieldSlot (← (t.item 1).word16?) (← t.at? 2)
  | "InvokeStatic" => return .invokeStatic (← t.at? 1) (← site? t)
  | "InvokeSpecial" => return .invokeSpecial (← t.at? 1) (← site? t)
  | "InvokeVirtual" => return .invokeVirtual (← (t.item 1).word32?) (← site? t)
  | "InvokeInterface" => return .invokeInterface (← (t.item 1).word32?) (← site? t)
  | "InvokeVoidNoArgs" => return .invokeVoidNoArgs (← (t.item 1).word32?)
  | "New" => return .new (← (t.item 1).word32?)
  | "NewArray" => return .newArray (← t.at? 1)
  | "NewRefArray" => return .newRefArray (← (t.item 1).word32?)
  | "MultiNewArray" => return .multiNewArray (← (t.item 1).word32?) (← (t.item 2).word8?)
  | "CheckCast" => return .checkCast (← (t.item 1).word32?)
  | "InstanceOf" => return .instanceOf (← (t.item 1).word32?)
  | "Unresolved" =>
    return .unresolved ⟨← t.at? 1, ← t.at? 2, ← t.at? 3, ← result? (t.item 4)⟩
  | word => plain? word

end Exchange

instance : ToTree Instruction := ⟨Exchange.instruction⟩

instance : OfTree Instruction := ⟨Exchange.instruction?⟩

instance : ToTree CatchType where
  toTree
    | .any => "any"
    | .type id => id
    | .unresolved name => ["unresolved", name]

instance : ToTree Handler := ⟨fun h => .list [h.start, h.stop, h.target, h.catches]⟩

instance : ToTree LinkedCode where
  toTree c := .record [("stack", c.maxStack), ("locals", c.maxLocals), ("handlers", c.handlers),
    ("code", c.instructions)]

end ClassMachine
