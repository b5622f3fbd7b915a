import ClassMachine.Proofs.Link.Operations
import ClassMachine.Proofs.Machine.Rules

/-!
Relations between the instructions of two machines. A native method may leave its thread parked, and an
instruction may end the slice of its thread, so what holds of an instruction can differ from what holds
of its parts. Instructions that start code of their own are related as far as that code is.
-/
namespace ClassMachine

/-- Instructions that neither start code of their own nor make or fill arrays of references. -/
def Instruction.isPlain : Instruction → Bool
  | .arrayStore _ | .newRefArray _ | .getStatic _ _ _ | .putStatic _ _ _ | .new _ => false
  | .invokeStatic _ _ | .invokeSpecial _ _ | .invokeVirtual _ _ | .invokeInterface _ _ => false
  | .invokeVoidNoArgs _ => false
  | _ => true

namespace Machine

/-- Ends a native method: the thread may be parked now, and its result goes to the caller. -/
def finishNative (t : ThreadId) (result : Option Value) : MachineM Flow := do
  let paused ← takePause t
  match ← deliver result with
  | .next => return if paused then .pause else .next
  | flow => return flow

/-- Runs a native of the host by its number. -/
def runHost (t : ThreadId) (args : List Value) (id : NativeId) : MachineM (Option Value) := do
  match (← get).natives.get? id with
  | none => inconsistent (.nativeNotRegistered id)
  | some native => pinning (Value.liveRefs args) (callHost t args native)

/-- What a thread does in the course of an instruction: `P` of what it goes on from, `N` of native
methods, after which it may be parked, and `F` of all that makes up an instruction. -/
structure Course (t : ThreadId) (P N : Comparison) (F : MachineM Flow → MachineM Flow → Prop) : Prop
    extends Rules t P where
  newPrimitiveArray : ∀ kind : Kind, P.Same (newPrimitiveArray kind)
  newMultiArray : ∀ (lengths : List Int32) (id : ClassId), P.Same (newMultiArray lengths id)
  arrayCopy : ∀ (source : Ref) (sourcePos : Int32) (target : Ref) (targetPos length : Int32),
    P.Same (arrayCopy source sourcePos target targetPos length)
  callBytecode : ∀ (m : Method) (args : List Value), F (callBytecode t m args) (callBytecode t m args)
  native : ∀ {β : Type}, Sequel P (@N β)
  quickly : ∀ {α : Type} {x y : MachineM α}, P x y → N x y
  dropping : ∀ {α β : Type} {x y : MachineM α} (b : β), N x y →
    N (x >>= fun _ => (Pure.pure b : MachineM β)) (y >>= fun _ => (Pure.pure b : MachineM β))
  checks : ∀ {x y : MachineM Unit}, N x y →
    N (Machine.checkInterrupt t >>= fun _ => x) (Machine.checkInterrupt t >>= fun _ => y)
  waits : ∀ (object : Ref) (timeout : Timeout), N.Same (Machine.checkInterrupt t >>= fun _ =>
    synchronize (Sync.wait t object timeout) >>= fun _ => setInterruptible t)
  sleeps : ∀ timeout : Timeout, N.Same (Machine.checkInterrupt t >>= fun _ =>
    onScheduler (·.detach t timeout) >>= fun _ => setInterruptible t)
  joins : ∀ target : ThreadId, N.Same (Machine.checkInterrupt t >>= fun _ =>
    onScheduler (·.join t target) >>= fun joined => if joined then setInterruptible t else Pure.pure ⟨⟩)
  yields : N.Same requestYield
  host : ∀ (args : List Value) (id : NativeId), N.Same (runHost t args id)
  flow : Sequel P F
  next : F (Pure.pure .next) (Pure.pure .next)
  finished : ∀ v : Option Value, F (Pure.pure (.finished v)) (Pure.pure (.finished v))
  answer : ∀ {x y : MachineM (Option Value)}, N x y → F (x >>= finishNative t) (y >>= finishNative t)
  enterMonitor : ∀ object : Ref, F (enterMonitor t object) (enterMonitor t object)
  enters : ∀ object : Ref,
    F (synchronize (Sync.enter t object) >>= fun
        | .acquired => Pure.pure .next
        | .blocked => Pure.pure .pause)
      (synchronize (Sync.enter t object) >>= fun
        | .acquired => Pure.pure .next
        | .blocked => Pure.pure .pause)

namespace Rules

variable {t : ThreadId} {P : Comparison} {F : MachineM Flow → MachineM Flow → Prop}

/-- Turns an interrupt that came before into an exception. -/
theorem checkInterrupt (h : Rules t P) (htake : P.Same (onScheduler (·.takeInterrupt t))) :
    P.Same (checkInterrupt t) := by
  refine h.seq.bind htake fun interrupted => ?_
  cases interrupted with
  | true => exact h.raise h.seq _ _
  | false => exact h.pure _

/-- The monitor of a frame is noted in it. -/
theorem markMonitor (h : Rules t P) (object : Ref) :
    P.Same (Machine.onTop (modify fun f : Frame => { f with monitor := some object })) :=
  h.onTop (.modify fun _ => rfl)

/-- A call, where frames may be put in front freely. -/
theorem callBytecode (h : Rules t P) (hfree : Free P) (hflow : Sequel P F)
    (hnext : F (Pure.pure .next) (Pure.pure .next))
    (henter : ∀ object : Ref, F (enterMonitor t object) (enterMonitor t object))
    (m : Method) (args : List Value) : F (callBytecode t m args) (callBytecode t m args) := by
  unfold Machine.callBytecode
  refine hflow.bind (h.onLinker (Linker.consulting_link m.id)) fun linked => ?_
  cases linked with
  | error e => exact hflow.throw _ rfl
  | ok code =>
    refine hflow.read (fun machine => ?_) fun _ _ _ => rfl
    dsimp only
    split
    · exact h.raise hflow _ _
    · refine hflow.bind (hfree.reframe (Frame.ofCall m.id code args :: ·)) fun _ => ?_
      split
      · split
        · exact hflow.bind (h.orPopFrame (h.mirror _)) fun object => henter object
        · exact hflow.bind (h.pure _) fun object => henter object
      · exact hnext

theorem enterMonitor (h : Rules t P) (henter : ∀ object : Ref, P.Same (onSync (Sync.enter t object)))
    (object : Ref) : P.Same (enterMonitor t object) := by
  refine h.seq.along (henter object) fun result hreaches => ?_
  cases result with
  | ok outcome => exact h.seq.bind (h.markMonitor object) fun _ => h.pure _
  | error e =>
    exact h.seq.bind h.popFrame fun _ => h.raiseSync h.seq ((Sync.plain_enter t object).error hreaches)

/-- Where it makes no difference that a thread may be parked, one relation does for all. -/
theorem course (h : Rules t P)
    (hprimitive : ∀ kind : Kind, P.Same (Machine.newPrimitiveArray kind))
    (hmulti : ∀ (lengths : List Int32) (id : ClassId), P.Same (Machine.newMultiArray lengths id))
    (hcopy : ∀ (source : Ref) (sourcePos : Int32) (target : Ref) (targetPos length : Int32),
      P.Same (Machine.arrayCopy source sourcePos target targetPos length))
    (hcall : ∀ (m : Method) (args : List Value), P.Same (Machine.callBytecode t m args))
    (htake : P.Same (onScheduler (·.takeInterrupt t)))
    (henter : ∀ object : Ref, P.Same (onSync (Sync.enter t object)))
    (hwait : ∀ (object : Ref) (timeout : Timeout), P.Same (onSync (Sync.wait t object timeout)))
    (hdetach : ∀ timeout : Timeout, P.Same (onScheduler (·.detach t timeout)))
    (hjoin : ∀ target : ThreadId, P.Same (onScheduler (·.join t target)))
    (hmark : P.Same (setInterruptible t)) (hyield : P.Same requestYield) (hpause : P.Same (takePause t))
    (hhost : ∀ (args : List Value) (id : NativeId), P.Same (runHost t args id)) :
    Course t P P (@P Flow) where
  toRules := h
  newPrimitiveArray := hprimitive
  newMultiArray := hmulti
  arrayCopy := hcopy
  callBytecode := hcall
  native := h.seq
  quickly hx := hx
  dropping b hx := h.discard hx b
  checks hx := h.seq.bind (h.checkInterrupt htake) fun _ => hx
  waits object timeout := h.seq.bind (h.checkInterrupt htake) fun _ =>
    h.seq.bind (h.synchronize (Sync.plain_wait t object timeout) (hwait object timeout)) fun _ => hmark
  sleeps timeout := h.seq.bind (h.checkInterrupt htake) fun _ => h.seq.bind (hdetach timeout) fun _ => hmark
  joins target := h.seq.bind (h.checkInterrupt htake) fun _ => h.seq.bind (hjoin target) fun joined => by
    cases joined with
    | true => exact hmark
    | false => exact h.pure _
  yields := hyield
  host := hhost
  flow := h.seq
  next := h.pure _
  finished v := h.pure _
  answer hx := h.seq.bind hx fun result => h.seq.bind hpause fun paused =>
    h.seq.bind (h.deliver result) fun flow => by cases flow <;> exact h.pure _
  enterMonitor := h.enterMonitor henter
  enters object := h.seq.bind (h.synchronize (Sync.plain_enter t object) (henter object)) fun outcome => by
    cases outcome <;> exact h.pure _

end Rules

namespace Course

variable {t : ThreadId} {P N : Comparison} {F : MachineM Flow → MachineM Flow → Prop} {k l : Nested}

section Natives

theorem argument (h : Course t P N F) (args : List Value) (index : Nat) :
    P.Same (argument args index) := by
  unfold Comparison.Same Machine.argument
  cases args[index]? with
  | some v => exact h.pure _
  | none => exact h.seq.throw _ rfl

theorem refArgument (h : Course t P N F) (args : List Value) (index : Nat) :
    P.Same (refArgument args index) := h.seq.bind (h.argument args index) fun _ => h.pure _

theorem intArgument (h : Course t P N F) (args : List Value) (index : Nat) :
    P.Same (intArgument args index) := h.seq.bind (h.argument args index) fun _ => h.pure _

theorem longArgument (h : Course t P N F) (args : List Value) (index : Nat) :
    P.Same (longArgument args index) := h.seq.bind (h.argument args index) fun _ => h.pure _

theorem objectWait (h : Course t P N F) (object : Ref) (millis : Int64) (nanos : Int32) :
    N.Same (objectWait t object millis nanos) := by
  unfold Comparison.Same Machine.objectWait
  split
  · exact h.raise h.native _ _
  · split
    · exact h.raise h.native _ _
    · refine h.native.read (fun m => ?_) fun _ _ _ => rfl
      split
      · exact h.raise h.native _ _
      · exact h.waits object _

theorem threadSleep (h : Course t P N F) (millis : Int64) : N.Same (threadSleep t millis) := by
  unfold Comparison.Same Machine.threadSleep
  split
  · exact h.raise h.native _ _
  · by_cases hzero : millis = 0
    · rw [if_pos hzero]
      exact h.checks h.yields
    · rw [if_neg hzero]
      exact h.sleeps _

theorem threadJoin (h : Course t P N F) (object : Ref) : N.Same (threadJoin t object) := by
  unfold Comparison.Same Machine.threadJoin
  refine h.native.read (fun m => ?_) fun _ _ _ => rfl
  cases m.threadOf? object with
  | none => exact h.checks (h.quickly (h.pure _))
  | some target => exact h.joins target

theorem selectVirtual (h : Course t P N F) (object : Ref) (signature : SignatureId) :
    P.Same (selectVirtual object signature) := by
  unfold Comparison.Same Machine.selectVirtual
  refine h.seq.bind (h.classOf object) fun id => h.seq.bind (h.prepare id) fun prepared => ?_
  cases prepared with
  | none => exact h.seq.throw _ rfl
  | some c =>
    dsimp only
    split
    · exact h.pure _
    · exact h.seq.read (fun m => h.raise h.seq _ _) fun _ _ _ => rfl

theorem callBuiltin (h : Course t P N F) (args : List Value) (b : Builtin)
    (hstart : b = .threadStart → ∀ object, N (threadStart k t object) (threadStart l t object)) :
    N (callBuiltin k t args b) (callBuiltin l t args b) := by
  have hquick : ∀ {α : Type} {x : MachineM α}, P.Same x →
      N.Same (x >>= fun _ => (Pure.pure none : MachineM (Option Value))) := fun hx =>
    h.dropping none (h.quickly hx)
  cases b with
  | objectWait =>
    refine h.native.bind (h.refArgument args 0) fun object => ?_
    have hnanos : ∀ millis, N.Same (if 2 < args.length then
        Machine.intArgument args 2 >>= fun nanos =>
          Machine.objectWait t object millis nanos >>= fun _ => Pure.pure none
        else (Pure.pure 0 : MachineM Int32) >>= fun nanos =>
          Machine.objectWait t object millis nanos >>= fun _ => Pure.pure (none : Option Value)) := by
      intro millis
      unfold Comparison.Same
      split
      · exact h.native.bind (h.intArgument args 2) fun nanos =>
          h.dropping none (h.objectWait object millis nanos)
      · exact h.native.bind (h.pure _) fun nanos => h.dropping none (h.objectWait object millis nanos)
    dsimp only
    split
    · exact h.native.bind (h.longArgument args 1) hnanos
    · exact h.native.bind (h.pure _) hnanos
  | objectNotify =>
    exact h.native.bind (h.refArgument args 0) fun object =>
      hquick (h.synchronize (Sync.plain_notify t object) (h.notify object))
  | objectNotifyAll =>
    exact h.native.bind (h.refArgument args 0) fun object =>
      hquick (h.synchronize (Sync.plain_notifyAll t object) (h.notifyAll object))
  | objectHashCode => exact h.quickly (h.seq.bind (h.refArgument args 0) fun _ => h.pure _)
  | systemIdentityHashCode => exact h.quickly (h.seq.bind (h.refArgument args 0) fun _ => h.pure _)
  | objectGetClass =>
    exact h.quickly (h.seq.bind (h.refArgument args 0) fun object =>
      h.seq.bind (h.classOf object) fun id => h.seq.bind (h.mirror id) fun _ => h.pure _)
  | threadSleep =>
    exact h.native.bind (h.longArgument args 0) fun millis => h.dropping none (h.threadSleep millis)
  | threadYield => exact h.dropping none h.yields
  | threadCurrentThread => exact h.quickly (h.seq.bind h.threadObject fun _ => h.pure _)
  | threadStart =>
    exact h.native.bind (h.refArgument args 0) fun object => h.dropping none (hstart rfl object)
  | threadInterrupt =>
    refine h.native.read (fun m => ?_) fun _ _ _ => rfl
    refine h.native.bind (h.refArgument args 0) fun object => ?_
    cases m.threadOf? object with
    | none => exact h.quickly (h.pure _)
    | some target => exact hquick (h.interrupt target)
  | threadIsAlive =>
    exact h.native.bind (h.refArgument args 0) fun object =>
      h.native.read (fun m => h.quickly (h.pure _)) fun _ _ _ => rfl
  | threadJoin =>
    exact h.native.bind (h.refArgument args 0) fun object => h.dropping none (h.threadJoin object)
  | systemGc => exact hquick h.collectGarbage
  | systemArraycopy =>
    exact h.native.bind (h.refArgument args 0) fun source => h.native.bind (h.intArgument args 1)
      fun sourcePos => h.native.bind (h.refArgument args 2) fun target =>
      h.native.bind (h.intArgument args 3) fun targetPos => h.native.bind (h.intArgument args 4)
      fun length => hquick (h.arrayCopy source sourcePos target targetPos length)
  | systemCurrentTimeMillis =>
    exact h.native.read (fun m => h.quickly (h.pure _)) fun _ _ _ => rfl

theorem runNative (h : Course t P N F) (m : Method) (args : List Value) (binding : NativeBinding)
    (hstart : binding = .builtin .threadStart →
      ∀ object, N (threadStart k t object) (threadStart l t object)) :
    N (runNative k t m args binding) (runNative l t m args binding) := by
  cases binding with
  | builtin b => exact h.callBuiltin args b fun hb => hstart (by rw [hb])
  | host id => exact h.host args id
  | unbound => exact h.raise h.native _ _

end Natives

section Calls

theorem push (h : Course t P N F) (v : Value) : P.Same (push v) := h.onTop (Frame.plain_push v)

theorem deliver (h : Course t P N F) (result : Option Value) :
    F (deliver result) (deliver result) := by
  unfold Machine.deliver
  refine h.flow.read (fun m => ?_) fun _ _ _ => rfl
  cases m.active with
  | nil => exact h.finished result
  | cons f rest =>
    cases result with
    | none => exact h.next
    | some v => exact h.flow.bind (h.push v) fun _ => h.next

theorem callNative (h : Course t P N F) (m : Method) (args : List Value)
    (hrun : ∀ binding, N (Machine.runNative k t m args binding) (Machine.runNative l t m args binding)) :
    F (callNative k t m args) (callNative l t m args) := by
  unfold Machine.callNative
  refine h.flow.read (fun machine => ?_) fun _ _ _ => rfl
  refine h.flow.bind (h.onLinker (Linker.consulting_bindNative _ m.id)) fun binding => ?_
  exact h.answer (hrun (binding.getD .unbound))

theorem invokeMethod (h : Course t P N F) (method : MethodId) (args : List Value)
    (hstart : ∀ object, N (threadStart k t object) (threadStart l t object)) :
    F (invokeMethod k t method args) (invokeMethod l t method args) := by
  unfold Machine.invokeMethod
  refine h.flow.read (fun machine => ?_) fun _ _ _ => rfl
  cases machine.classes.method? method with
  | none => exact h.flow.throw _ rfl
  | some m =>
    dsimp only
    cases m.body with
    | «abstract» => exact h.raise h.flow _ _
    | native binding =>
      exact h.callNative m args fun binding => h.runNative m args binding fun _ => hstart
    | bytecode raw linked => exact h.callBytecode m args

theorem returnFrom (h : Course t P N F) (result : Option Value) :
    F (returnFrom t result) (returnFrom t result) := by
  unfold Machine.returnFrom
  refine h.flow.read (fun m => ?_) fun _ _ _ => rfl
  cases m.active with
  | nil => exact h.flow.throw _ rfl
  | cons f rest =>
    refine h.flow.bind h.popFrame fun _ => ?_
    cases f.monitor with
    | none => exact h.deliver result
    | some object =>
      exact h.flow.bind (h.synchronize (Sync.plain_exit t object) (h.exit object)) fun _ => h.deliver result

end Calls

section Instructions

theorem frameStep (h : Course t P N F) {x : FrameM Unit} (hx : Frame.Plain x) : F (frameStep x) (frameStep x) :=
  h.flow.bind (h.onTop hx) fun _ => h.next

theorem popRef (h : Course t P N F) : P.Same (onTop Frame.popRef) := h.onTop Frame.plain_popRef

theorem popN (h : Course t P N F) (n : Nat) : P.Same (onTop (Frame.popN n)) := h.onTop (Frame.plain_popN n)

theorem pushing (h : Course t P N F) {x y : MachineM Value} (hx : P x y) :
    F (pushing x) (pushing y) := h.flow.bind hx fun v => h.flow.bind (h.push v) fun _ => h.next

theorem pushingRef (h : Course t P N F) {x y : MachineM Ref} (hx : P x y) :
    F (pushingRef x) (pushingRef y) := h.flow.bind hx fun _ => h.flow.bind (h.push _) fun _ => h.next

theorem executeArith (h : Course t P N F) (op : ArithOp) (type : NumType) :
    F (executeArith op type) (executeArith op type) := by
  refine h.flow.bind (h.onTop (plain_arithmetic op type)) fun result => ?_
  cases result with
  | none => exact h.raise h.flow _ _
  | some v => exact h.flow.bind (h.push v) fun _ => h.next

theorem newNestedArray (h : Course t P N F) (id : ClassId) (dims : Nat) :
    P.Same (newNestedArray id dims) := by
  refine h.seq.bind (h.popN dims) fun args => ?_
  dsimp only
  split
  · exact h.raise h.seq _ _
  · exact h.newMultiArray _ id

theorem checkCast (h : Course t P N F) (id : ClassId) : P.Same (checkCast id) := by
  refine h.seq.bind (h.onTop Frame.plain_peek) fun v => ?_
  dsimp only
  split
  · refine h.seq.bind (h.classOf _) fun actual => h.seq.bind (h.isSubclass actual id) fun sub => ?_
    split
    · exact h.seq.read (fun m => h.raise h.seq _ _) fun _ _ _ => rfl
    · exact h.pure _
  · exact h.pure _

theorem instanceOf (h : Course t P N F) (id : ClassId) : P.Same (instanceOf id) := by
  refine h.seq.bind h.popRef fun object => h.seq.read (fun m => ?_) fun _ _ _ => rfl
  cases m.liveClass? object with
  | none => exact h.pure _
  | some actual => exact h.seq.bind (h.isSubclass actual id) fun _ => h.pure _

theorem monitorEnter (h : Course t P N F) : F (monitorEnter t) (monitorEnter t) := by
  refine h.flow.bind h.popRef fun object => ?_
  split
  · exact h.raiseNullPointer h.flow
  · exact h.enters object

theorem monitorExit (h : Course t P N F) : F (monitorExit t) (monitorExit t) := by
  refine h.flow.bind h.popRef fun object => ?_
  split
  · exact h.raiseNullPointer h.flow
  · exact h.flow.bind (h.synchronize (Sync.plain_exit t object) (h.exit object)) fun _ => h.next

/-- An instruction that starts no code of its own is related to itself. -/
theorem executePlain (h : Course t P N F) (i : Instruction) (hi : i.isPlain = true) :
    F (executeInstruction k t i) (executeInstruction l t i) := by
  cases i with
  | nop => exact h.next
  | pushInt v => exact h.frameStep (Frame.plain_push _)
  | pushLong v => exact h.frameStep (Frame.plain_push _)
  | pushFloat b => exact h.frameStep (Frame.plain_push _)
  | pushDouble b => exact h.frameStep (Frame.plain_push _)
  | pushNull => exact h.frameStep (Frame.plain_push _)
  | pushString text => exact h.pushingRef (h.internString text)
  | pushClass id => exact h.pushingRef (h.mirror id)
  | load index c => exact h.frameStep ((Frame.plain_getLocal index).bind fun _ => Frame.plain_push _)
  | store index c => exact h.frameStep (Frame.plain_store index)
  | increment index delta => exact h.frameStep (Frame.plain_increment index delta)
  | arrayLoad kind =>
    exact h.pushing (h.seq.bind (h.onTop Frame.plain_popInt) fun index => h.seq.bind h.popRef fun array =>
      h.loadElement array index)
  | stack op => exact h.frameStep (Frame.plain_rearrange op)
  | arith op type => exact h.executeArith op type
  | neg type => exact h.frameStep (plain_negate type)
  | convert source target => exact h.frameStep (plain_convert target)
  | narrow kind => exact h.frameStep (Frame.plain_popInt.bind fun _ => Frame.plain_push _)
  | compare op => exact h.frameStep (plain_compareTop op)
  | ifZero cond target => exact h.frameStep (Frame.plain_popInt.bind fun _ => plain_branchIf _ target)
  | ifCmp cond target =>
    exact h.frameStep (Frame.plain_popInt.bind fun _ => Frame.plain_popInt.bind fun _ => plain_branchIf _ target)
  | ifRefEq equal target =>
    exact h.frameStep (Frame.plain_popRef.bind fun _ => Frame.plain_popRef.bind fun _ => plain_branchIf _ target)
  | ifNull null target => exact h.frameStep (Frame.plain_popRef.bind fun _ => plain_branchIf _ target)
  | goto target => exact h.frameStep (Frame.plain_jump target)
  | tableSwitch low targets default => exact h.frameStep (Frame.plain_popInt.bind fun _ => Frame.plain_jump _)
  | lookupSwitch pairs default => exact h.frameStep (Frame.plain_popInt.bind fun _ => Frame.plain_jump _)
  | returnVoid => exact h.returnFrom none
  | returnValue c => exact h.flow.bind (h.onTop Frame.plain_pop) fun v => h.returnFrom (some v)
  | getField name descriptor kind =>
    exact h.pushing (h.seq.bind h.popRef fun object =>
      h.seq.bind (h.fieldSlot object name descriptor) fun slot => h.readField object slot)
  | putField name descriptor kind =>
    exact h.flow.bind (h.onTop plain_popStore) fun (v, object) =>
      h.flow.bind (h.fieldSlot object name descriptor) fun slot =>
      h.flow.bind (h.writeField object slot _) fun _ => h.next
  | getFieldSlot slot kind =>
    exact h.pushing (h.seq.bind h.popRef fun object =>
      h.seq.bind (h.classOf object) fun _ => h.readField object slot)
  | putFieldSlot slot kind =>
    exact h.flow.bind (h.onTop plain_popStore) fun (v, object) => h.flow.bind (h.classOf object) fun _ =>
      h.flow.bind (h.writeField object slot _) fun _ => h.next
  | newArray kind => exact h.pushingRef (h.newPrimitiveArray kind)
  | multiNewArray id dims => exact h.pushingRef (h.newNestedArray id dims)
  | arrayLength =>
    exact h.pushing (h.seq.bind h.popRef fun array =>
      h.seq.bind (h.arrayLength array) fun _ => h.pure _)
  | throw =>
    refine h.flow.bind h.popRef fun exception => ?_
    split
    · exact h.raiseNullPointer h.flow
    · exact h.flow.throw _ rfl
  | checkCast id => exact h.flow.bind (h.checkCast id) fun _ => h.next
  | instanceOf id => exact h.pushing (h.instanceOf id)
  | monitorEnter => exact h.monitorEnter
  | monitorExit => exact h.monitorExit
  | unresolved symbol => exact h.raiseMissing h.flow symbol
  | _ => cases hi

theorem putStatic (h : Course t P N F) (hfree : Free P) (owner : ClassId) (slot : Nat) (kind : Kind)
    (hinit : P (ensureInitialized k t owner) (ensureInitialized l t owner)) :
    P (putStatic k t owner slot kind) (putStatic l t owner slot kind) := by
  refine h.seq.bind hinit fun _ => h.seq.bind (h.onTop Frame.plain_pop) fun v => ?_
  refine h.seq.read (fun m => ?_) fun _ _ _ => rfl
  cases m.statics.set? owner slot (v.narrowTo kind) with
  | some s => exact hfree.restatic fun _ => s
  | none => exact hfree.throw _

theorem getStatic (h : Course t P N F) (hfree : Free P) (owner : ClassId) (slot : Nat)
    (hinit : P (ensureInitialized k t owner) (ensureInitialized l t owner)) :
    P (getStatic k t owner slot) (getStatic l t owner slot) := by
  refine h.seq.bind hinit fun _ => h.seq.read (fun m => ?_) fun _ _ _ => rfl
  cases m.statics.get? owner slot with
  | some v => exact h.pure v
  | none => exact hfree.throw _

/-- A static field is accessed, where any may be. -/
theorem accessStatic (h : Course t P N F) (hfree : Free P)
    (hinit : ∀ id, P (ensureInitialized k t id) (ensureInitialized l t id)) (i : Instruction)
    (hi : i.isStaticAccess = true) : F (executeInstruction k t i) (executeInstruction l t i) := by
  cases i with
  | getStatic owner slot kind => exact h.pushing (h.getStatic hfree owner slot (hinit owner))
  | putStatic owner slot kind =>
    exact h.flow.bind (h.putStatic hfree owner slot kind (hinit owner)) fun _ => h.next
  | _ => cases hi

/-- Instructions are related when what they start is, and making an array of references, storing an element
or accessing a static field is. -/
theorem executeInstruction (h : Course t P N F) (i : Instruction)
    (hstatic : i.isStaticAccess = true → F (executeInstruction k t i) (executeInstruction l t i))
    (hmake : ∀ id, i = .newRefArray id →
      F (executeInstruction k t (.newRefArray id)) (executeInstruction l t (.newRefArray id)))
    (hstore : ∀ kind, F (executeInstruction k t (.arrayStore kind)) (executeInstruction l t (.arrayStore kind)))
    (hinit : ∀ id, P (ensureInitialized k t id) (ensureInitialized l t id))
    (hstart : ∀ object, N (threadStart k t object) (threadStart l t object)) :
    F (executeInstruction k t i) (executeInstruction l t i) := by
  have hvirtual : ∀ signature params,
      F (invokeVirtual k t signature params) (invokeVirtual l t signature params) :=
    fun signature params => h.flow.bind (h.popN _) fun args =>
      h.flow.bind (h.selectVirtual _ signature) fun method => h.invokeMethod method args hstart
  cases i with
  | newRefArray id => exact hmake id rfl
  | arrayStore kind => exact hstore kind
  | getStatic owner slot kind => exact hstatic rfl
  | putStatic owner slot kind => exact hstatic rfl
  | new id => exact h.pushingRef (h.seq.bind (hinit id) fun _ => h.newInstance id)
  | invokeStatic method site =>
    exact h.flow.bind (hinit method.owner) fun _ => h.flow.bind (h.popN _) fun args =>
      h.invokeMethod method args hstart
  | invokeSpecial method site =>
    refine h.flow.bind (h.popN _) fun args => ?_
    split
    · exact h.raiseNullPointer h.flow
    · exact h.invokeMethod method args hstart
  | invokeVirtual signature site => exact hvirtual signature site.params.length
  | invokeInterface signature site => exact hvirtual signature site.params.length
  | invokeVoidNoArgs signature => exact hvirtual signature 0
  | _ => exact h.executePlain _ rfl

/-- Instructions are related when what they start is, where arrays may be made and filled freely. -/
theorem executeWriting (h : Course t P N F) (hw : Rules.Writes P) (i : Instruction)
    (hstatic : i.isStaticAccess = true → F (Machine.executeInstruction k t i) (Machine.executeInstruction l t i))
    (hinit : ∀ id, P (ensureInitialized k t id) (ensureInitialized l t id))
    (hstart : ∀ object, N (threadStart k t object) (threadStart l t object)) :
    F (Machine.executeInstruction k t i) (Machine.executeInstruction l t i) := by
  refine h.executeInstruction i hstatic (fun id _ => ?_) (fun kind => ?_) hinit hstart
  · exact h.pushingRef (h.seq.bind (h.onTop Frame.plain_popInt) fun length =>
      h.toRules.newArray hw id .reference length)
  · exact h.flow.bind (h.onTop Frame.plain_pop) fun v => h.flow.bind (h.onTop Frame.plain_popInt) fun index =>
      h.flow.bind h.popRef fun array => h.flow.bind (h.storeElement hw.element array index v) fun _ => h.next

end Instructions

end Course

end Machine

end ClassMachine
