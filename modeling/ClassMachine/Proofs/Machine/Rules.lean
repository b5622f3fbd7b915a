import ClassMachine.Machine.Execution
import ClassMachine.Proofs.Heap.Closed
import ClassMachine.Proofs.Link.Turns
import ClassMachine.Proofs.Machine.Closed
import ClassMachine.Proofs.Machine.PlainOperations

/-!
Relations between computations that pass from the parts of a computation to the whole. What instructions
do comes down to a few things done to frames, classes, objects and threads; a relation that holds of each
of these, and of what begins with it, holds of whatever is made of them. The length of a slice and the
trace are no part of it: nothing an instruction does depends on these. Where a relation tells the bodies
of frames or the slots of static fields apart, calls, handlers and static fields are left to it.
-/
namespace ClassMachine.Machine
open Stateful

/-- The same machine with slices of another length, and with another trace. -/
def veiled (m : Machine) (cycles : UInt32) (rows : List TraceRow) : Machine :=
  { m with config := { m.config with sliceCycles := cycles }, trace := rows }

/-- How one computation compares to another. -/
abbrev Comparison : Type 1 := ∀ ⦃α : Type⦄, MachineM α → MachineM α → Prop

abbrev Comparison.Same (P : Comparison) {α : Type} (x : MachineM α) : Prop := P x x

/-- A run of `x` can come to `a`. -/
def Reaches {α : Type} (x : MachineM α) (a : α) : Prop := ∃ m m', x m = .ok a m'

/-- What begins as `P` says and goes on as `T` says is as `T` says. What is read of a machine does not
depend on the length of its slices and its trace. -/
structure Sequel (P : Comparison) {β : Type} (T : MachineM β → MachineM β → Prop) : Prop where
  along : ∀ {α : Type} {x y : MachineM α} {f g : α → MachineM β}, P x y → (∀ a, Reaches x a → T (f a) (g a)) →
    T (x >>= f) (y >>= g)
  read : ∀ {f g : Machine → MachineM β}, (∀ m, T (f m) (g m)) → (∀ m cycles rows, g (m.veiled cycles rows) = g m) →
    T (get >>= f) (get >>= g)
  throw : ∀ e : Trap, e.isSlotless = false → T (throw e) (throw e)

theorem Sequel.bind {P : Comparison} {β : Type} {T : MachineM β → MachineM β → Prop} (h : Sequel P T)
    {α : Type} {x y : MachineM α} {f g : α → MachineM β} (hx : P x y) (hf : ∀ a, T (f a) (g a)) :
    T (x >>= f) (y >>= g) := h.along hx fun a _ => hf a

/-- An instance has the fields of its class as it is once it is prepared. -/
theorem Sequel.newInstance {P : Comparison} (h : Sequel P (@P Ref)) {id : ClassId}
    (hprepare : P.Same (onLinker (Linker.prepare id))) (hreserve : ∀ units : Nat, P.Same (reserve units))
    (hinsert : ∀ kinds : List Kind, P.Same (insertObject (Object.instanceOf id kinds))) :
    P.Same (Machine.newInstance id) := by
  unfold Comparison.Same Machine.newInstance
  refine h.bind hprepare fun prepared => ?_
  cases prepared with
  | none => exact h.throw _ rfl
  | some c => exact h.bind (hreserve _) fun _ => hinsert _

/-- The object of a thread is made on demand, where a thread may be given any object. -/
theorem Sequel.threadObject {P : Comparison} {t : ThreadId} (h : Sequel P (@P Ref))
    (hpure : ∀ r : Ref, P.Same (pure r : MachineM Ref))
    (hname : ∀ r : Ref, P.Same (updateThread t fun u => { u with object := r }))
    (hmake : ∀ id : ClassId, P.Same (Machine.newInstance id)) : P.Same (threadObject t) := by
  unfold Comparison.Same Machine.threadObject
  refine h.read (fun m => ?_) fun _ _ _ => rfl
  dsimp only
  split
  · exact hpure _
  · refine h.read (fun m => ?_) fun _ _ _ => rfl
    exact h.bind (hmake _) fun r => h.bind (hname r) fun _ => hpure r

/-- A string stands for a literal from when it is made. -/
theorem Sequel.internString {P : Comparison} {text : String} (h : Sequel P (@P Ref))
    (hpure : ∀ r : Ref, P.Same (pure r : MachineM Ref)) (hmake : P.Same (stringObject text))
    (hintern : ∀ r : Ref, P.Same (updateHeap (·.intern text r))) : P.Same (Machine.internString text) := by
  unfold Comparison.Same Machine.internString
  refine h.read (fun m => ?_) fun _ _ _ => rfl
  cases m.heap.interned? text with
  | some r => exact hpure r
  | none => exact h.bind hmake fun r => h.bind (hintern r) fun _ => hpure r

/-- What a thread does in the course of an instruction without being parked for it. -/
structure Rules (t : ThreadId) (P : Comparison) : Prop where
  seq : ∀ {β : Type}, Sequel P (@P β)
  pure : ∀ {α : Type} (a : α), P.Same (pure a)
  onTop : ∀ {α : Type} {x : FrameM α}, Frame.Plain x → P.Same (onTop x)
  popFrame : P.Same popFrame
  orPopFrame : ∀ {α : Type} {x y : MachineM α}, P x y → P (orPopFrame x) (orPopFrame y)
  onLinker : ∀ {α : Type} {x : StateM Linker α}, Linker.Consulting x → P.Same (onLinker x)
  reserve : ∀ units : Nat, P.Same (reserve units)
  newInstance : ∀ id : ClassId, P.Same (Machine.newInstance id)
  insertObject : ∀ (type : ClassId) {p : Payload}, (Object.ofPayload type [] p).elements? = none →
    P.Same (insertObject (Object.ofPayload type [] p))
  setField : ∀ (r : Ref) (slot : Nat) (v : Value),
    P.Same (updateHeap fun h => h.update r (·.setField slot v))
  intern : ∀ text : String, P.Same (stringObject text) → P.Same (Machine.internString text)
  registerMirror : ∀ (id : ClassId) (r : Ref), P.Same (updateHeap (·.registerMirror id r))
  pinning : ∀ {α : Type} (rs : List Ref) {x y : MachineM α}, P x y → P (pinning rs x) (pinning rs y)
  collectGarbage : P.Same collectGarbage
  currentThread : (∀ id : ClassId, P.Same (Machine.newInstance id)) → P.Same (threadObject t)
  interrupt : ∀ target : ThreadId, P.Same (onScheduler (·.interrupt target))
  exit : ∀ object : Ref, P.Same (onSync (Sync.exit t object))
  notify : ∀ object : Ref, P.Same (onSync (Sync.notify t object))
  notifyAll : ∀ object : Ref, P.Same (onSync (Sync.notifyAll t object))

/-- Static fields may be changed, frames may be exchanged, and a computation may fail, in whatever way. -/
structure Free (P : Comparison) : Prop where
  restatic : ∀ statics : Statics → Statics,
    P.Same (modify fun m : Machine => { m with statics := statics m.statics })
  reframe : ∀ frames : FrameStack → FrameStack,
    P.Same (modify fun m : Machine => { m with active := frames m.active })
  throw : ∀ {α : Type} (e : Trap), P.Same (throw e : MachineM α)

namespace Rules

variable {α β : Type} {t : ThreadId} {P : Comparison} {T : MachineM β → MachineM β → Prop}

theorem onClasses (h : Rules t P) {x : StateM ClassTable α} (hx : ClassTable.Asking x) :
    P.Same (onClasses x) := h.onLinker (Linker.consulting_asks hx)

theorem isSubclass (h : Rules t P) (sub sup : ClassId) :
    P.Same (Machine.onClasses (ClassTable.isSubclass sub sup)) :=
  h.onClasses (ClassTable.isSubclass_asks sub sup)

theorem prepare (h : Rules t P) (id : ClassId) : P.Same (Machine.onLinker (Linker.prepare id)) :=
  h.onLinker (Linker.consulting_prepare id)

/-- A result of no use is thrown away. -/
theorem discard (h : Rules t P) {x y : MachineM α} (hx : P x y) (b : β) :
    P (x >>= fun _ => (Pure.pure b : MachineM β)) (y >>= fun _ => (Pure.pure b : MachineM β)) :=
  h.seq.bind hx fun _ => h.pure b

section Making

/-- An object with a payload and no fields of its own. -/
theorem allocate (h : Rules t P) (type : ClassId) {p : Payload}
    (hplain : (Object.ofPayload type [] p).elements? = none) : P.Same (allocate (Object.ofPayload type [] p)) :=
  h.seq.bind (h.reserve _) fun _ => h.insertObject type hplain

theorem stringObject (h : Rules t P) (text : String) : P.Same (stringObject text) :=
  h.seq.read (fun _ => h.allocate _ rfl) fun _ _ _ => rfl

theorem raise (h : Rules t P) (hT : Sequel P T) (className : String) (message : Option String) :
    T (raise className message) (raise className message) := by
  unfold Machine.raise
  refine hT.read (fun m => ?_) fun _ _ _ => rfl
  cases m.classes.lookup? className with
  | none => exact hT.throw _ rfl
  | some id =>
    have htext : P.Same (message.mapM Machine.stringObject) := by
      cases message with
      | none => exact h.pure _
      | some text => exact h.seq.bind (h.stringObject text) fun _ => h.pure _
    refine hT.bind htext fun text => ?_
    refine hT.bind (h.pinning _ (h.newInstance id)) fun exception => hT.read (fun m => ?_) fun _ _ _ => rfl
    split
    · exact hT.bind (h.setField _ _ _) fun _ => hT.throw _ rfl
    · exact hT.throw _ rfl

theorem raiseNullPointer (h : Rules t P) (hT : Sequel P T) :
    T Machine.raiseNullPointer Machine.raiseNullPointer := h.raise hT _ _

theorem raiseSync (h : Rules t P) (hT : Sequel P T) {e : SyncError} (he : e.isSlotless = false) :
    T (Machine.raiseSync e) (Machine.raiseSync e) := by
  cases e with
  | monitor e => exact h.raise hT _ _
  | fatal e => exact hT.throw _ he

theorem raiseMissing (h : Rules t P) (hT : Sequel P T) (u : Unresolved) :
    T (Machine.raiseMissing u) (Machine.raiseMissing u) := by
  unfold Machine.raiseMissing
  refine hT.read (fun m => ?_) fun _ _ _ => rfl
  split
  · exact hT.throw _ rfl
  · exact h.raise hT _ _

theorem synchronize (h : Rules t P) {x : SyncM FrameStack α} (hplain : Sync.Plain x)
    (hx : P.Same (onSync x)) : P.Same (synchronize x) := by
  refine h.seq.along hx fun result hreaches => ?_
  cases result with
  | ok a => exact h.pure a
  | error e => exact h.raiseSync h.seq (hplain.error hreaches)

theorem internString (h : Rules t P) (text : String) : P.Same (internString text) :=
  h.intern text (h.stringObject text)

theorem mirror (h : Rules t P) (id : ClassId) : P.Same (mirror id) := by
  unfold Comparison.Same Machine.mirror
  refine h.seq.read (fun m => ?_) fun _ _ _ => rfl
  cases m.heap.mirror? id with
  | some r => exact h.pure r
  | none =>
    refine h.seq.read (fun m => ?_) fun _ _ _ => rfl
    refine h.seq.bind (h.allocate _ rfl) fun r => ?_
    exact h.seq.bind (h.registerMirror id r) fun _ => h.pure r

theorem threadObject (h : Rules t P) : P.Same (threadObject t) := h.currentThread h.newInstance

end Making

section Access

theorem classOf (h : Rules t P) (object : Ref) : P.Same (classOf object) := by
  unfold Comparison.Same Machine.classOf
  split
  · exact h.raiseNullPointer h.seq
  · refine h.seq.read (fun m => ?_) fun _ _ _ => rfl
    cases m.heap.get? object with
    | some o => exact h.pure _
    | none => exact h.seq.throw _ rfl

theorem fieldSlot (h : Rules t P) (object : Ref) (name descriptor : String) :
    P.Same (fieldSlot object name descriptor) := by
  unfold Comparison.Same Machine.fieldSlot
  refine h.seq.bind (h.classOf object) fun id => h.seq.bind (h.prepare id) fun _ => ?_
  refine h.seq.bind (h.onClasses (ClassTable.resolveField_asks id name descriptor)) fun found => ?_
  refine h.seq.read (fun m => ?_) fun _ _ _ => rfl
  dsimp only
  split
  · exact h.pure _
  · exact h.raise h.seq _ _

theorem readField (h : Rules t P) (object : Ref) (slot : Nat) : P.Same (readField object slot) := by
  unfold Comparison.Same Machine.readField
  refine h.seq.read (fun m => ?_) fun _ _ _ => rfl
  split
  · exact h.pure _
  · exact h.seq.throw _ rfl

theorem writeField (h : Rules t P) (object : Ref) (slot : Nat) (v : Value) :
    P.Same (writeField object slot v) := by
  unfold Comparison.Same Machine.writeField
  refine h.seq.read (fun m => ?_) fun _ _ _ => rfl
  split
  · exact h.setField object slot v
  · exact h.seq.throw _ rfl

theorem elementsOf (h : Rules t P) (array : Ref) : P.Same (elementsOf array) := by
  unfold Comparison.Same Machine.elementsOf
  split
  · exact h.raiseNullPointer h.seq
  · refine h.seq.read (fun m => ?_) fun _ _ _ => rfl
    split
    · exact h.pure _
    · exact h.seq.throw _ rfl

theorem arrayLength (h : Rules t P) (array : Ref) : P.Same (arrayLength array) :=
  h.seq.bind (h.elementsOf array) fun _ => h.pure _

theorem loadElement (h : Rules t P) (array : Ref) (index : Int32) : P.Same (loadElement array index) := by
  unfold Comparison.Same Machine.loadElement
  refine h.seq.bind (h.elementsOf array) fun elements => ?_
  split
  · exact h.pure _
  · exact h.raise h.seq _ _

theorem accepts (h : Rules t P) (element : Option ElementType) (v : Value) :
    P.Same (accepts element v) := by
  unfold Comparison.Same Machine.accepts
  split
  · refine h.seq.read (fun m => ?_) fun _ _ _ => rfl
    split
    · exact h.isSubclass _ _
    · exact h.pure _
  · exact h.pure _

end Access

section Writing

/-- Arrays may be made, and their elements written, freely. -/
structure Writes (P : Comparison) : Prop where
  array : ∀ (id : ClassId) (kind : Kind) (length : Nat),
    P.Same (Machine.insertObject (Object.arrayOf id kind length))
  element : ∀ (array : Ref) (index : Nat) (v : Value), P.Same (writeElement array index v)
  fill : ∀ (array : Ref) (index : Nat) (child : Ref),
    P.Same (updateHeap fun h => h.update array (·.setElement index (.ref child)))

theorem newArray (h : Rules t P) (hw : Writes P) (id : ClassId) (kind : Kind) (length : Int32) :
    P.Same (newArray id kind length) := by
  unfold Comparison.Same Machine.newArray
  split
  · exact h.raise h.seq _ _
  · exact h.seq.bind (h.reserve _) fun _ => hw.array id kind _

theorem newPrimitiveArray (h : Rules t P) (hw : Writes P) (kind : Kind) :
    P.Same (newPrimitiveArray kind) := by
  refine h.seq.bind (h.onTop Frame.plain_popInt) fun length => ?_
  refine h.seq.bind (h.onClasses (ClassTable.arrayOf_asks _)) fun found => ?_
  cases found with
  | ok id => exact h.newArray hw id kind length
  | error e => exact h.seq.throw _ rfl

theorem fillArray (h : Rules t P) {array : Ref} {make : MachineM Ref} (hmake : P.Same make)
    (hfill : ∀ (index : Nat) (child : Ref), P.Same (updateHeap fun h => h.update array (·.setElement index (.ref child))))
    (count index : Nat) : P.Same (fillArray array make count index) := by
  induction count generalizing index with
  | zero => exact h.pure _
  | succ count ih =>
    exact h.seq.bind hmake fun child => h.seq.bind (hfill index child) fun _ => ih (index + 1)

theorem newMultiArray (h : Rules t P) (hw : Writes P) (lengths : List Int32) (id : ClassId) :
    P.Same (newMultiArray lengths id) := by
  induction lengths generalizing id with
  | nil => exact h.seq.throw _ rfl
  | cons length rest ih =>
    unfold Comparison.Same Machine.newMultiArray
    refine h.seq.read (fun m => ?_) fun _ _ _ => rfl
    cases (m.classes.get? id).bind (·.element) with
    | none => exact h.seq.throw _ rfl
    | some element =>
      refine h.seq.bind (h.newArray hw id element.kind length) fun array => ?_
      cases element with
      | primitive kind => exact h.pure _
      | reference inner =>
        dsimp only
        split
        · exact h.seq.bind (h.pinning _ (h.fillArray (ih inner) (hw.fill array) _ 0)) fun _ => h.pure _
        · exact h.pure _

end Writing

section Filling

theorem acceptedPart (h : Rules t P) (element : ElementType) (values : List Value) :
    P.Same (acceptedPart element values) := by
  induction values with
  | nil => exact h.pure _
  | cons v rest ih =>
    refine h.seq.bind (h.accepts _ v) fun accepted => ?_
    split
    · exact h.seq.bind ih fun _ => h.pure _
    · exact h.pure _

variable (helement : ∀ (array : Ref) (index : Nat) (v : Value), P.Same (writeElement array index v))
include helement

theorem storeElement (h : Rules t P) (array : Ref) (index : Int32) (v : Value) :
    P.Same (storeElement array index v) := by
  unfold Comparison.Same Machine.storeElement
  refine h.seq.bind (h.elementsOf array) fun elements => ?_
  cases position? index elements.size with
  | none => exact h.raise h.seq _ _
  | some position =>
    refine h.seq.read (fun m => ?_) fun _ _ _ => rfl
    refine h.seq.bind (h.accepts _ v) fun accepted => ?_
    split
    · exact helement array position v
    · exact h.seq.read (fun m => h.raise h.seq _ _) fun _ _ _ => rfl

theorem writeElements (h : Rules t P) (array : Ref) (index : Nat) (values : List Value) :
    P.Same (writeElements array index values) := by
  induction values generalizing index with
  | nil => exact h.pure _
  | cons v rest ih => exact h.seq.bind (helement array index v) fun _ => ih (index + 1)

theorem arrayCopy (h : Rules t P) (source : Ref) (sourcePos : Int32) (target : Ref)
    (targetPos length : Int32) : P.Same (arrayCopy source sourcePos target targetPos length) := by
  unfold Comparison.Same Machine.arrayCopy
  split
  · exact h.raiseNullPointer h.seq
  · refine h.seq.read (fun m => ?_) fun _ _ _ => rfl
    split
    · dsimp only
      split
      · exact h.raise h.seq _ _
      · split
        · exact h.raise h.seq _ _
        · refine h.seq.bind (h.acceptedPart _ _) fun accepted =>
            h.seq.bind (h.writeElements helement target _ accepted) fun _ => ?_
          split
          · exact h.raise h.seq _ _
          · exact h.pure _
    · exact h.raise h.seq _ _

end Filling

/-- A result goes to the caller, if there is one. -/
theorem deliver (h : Rules t P) (result : Option Value) : P.Same (deliver result) := by
  unfold Comparison.Same Machine.deliver
  refine h.seq.read (fun m => ?_) fun _ _ _ => rfl
  cases m.active with
  | nil => exact h.pure _
  | cons f rest =>
    cases result with
    | none => exact h.pure _
    | some v => exact h.seq.bind (h.onTop (Frame.plain_push v)) fun _ => h.pure _

section Unwinding

theorem catches (h : Rules t P) (thrown : ClassId) (type : CatchType) :
    P.Same (catches thrown type) := by
  cases type with
  | any => exact h.pure _
  | type id => exact h.isSubclass thrown id
  | unresolved symbol => exact h.pure _

theorem findHandler (h : Rules t P) (thrown : ClassId) (index : Nat) (handlers : List Handler) :
    P.Same (findHandler thrown index handlers) := by
  induction handlers with
  | nil => exact h.pure _
  | cons handler rest ih =>
    unfold Comparison.Same Machine.findHandler
    split
    · refine h.seq.bind (h.catches thrown _) fun caught => ?_
      split
      · exact h.pure _
      · exact ih
    · exact ih

theorem handlerOf (h : Rules t P) (thrown : ClassId) (f : Frame) : P.Same (handlerOf thrown f) := by
  unfold Comparison.Same Machine.handlerOf
  cases f.pc with
  | zero => exact h.pure _
  | succ index => exact h.findHandler thrown index _

theorem releaseMonitor (h : Rules t P) (f : Frame) : P.Same (releaseMonitor t f) := by
  unfold Comparison.Same Machine.releaseMonitor
  cases f.monitor with
  | none => exact h.pure _
  | some object =>
    refine h.seq.along (h.exit object) fun result hreaches => ?_
    cases result with
    | ok u => exact h.pure _
    | error e =>
      cases e with
      | monitor e => exact h.pure _
      | fatal e => exact h.seq.throw _ ((Sync.plain_exit t object).error hreaches)

theorem unwindFrames (h : Rules t P) (hfree : Free P) (exception : Ref) (thrown : ClassId)
    (frames : FrameStack) : P.Same (unwindFrames t exception thrown frames) := by
  induction frames with
  | nil => exact h.pure _
  | cons f rest ih =>
    refine h.seq.bind (h.handlerOf thrown f) fun handler => ?_
    cases handler with
    | some handler => exact h.seq.bind (hfree.reframe fun _ => _ :: rest) fun _ => h.pure _
    | none =>
      exact h.seq.bind (hfree.reframe fun _ => rest) fun _ => h.seq.bind (h.releaseMonitor f) fun _ => ih

theorem unwind (h : Rules t P) (hfree : Free P) (exception : Ref) : P.Same (unwind t exception) := by
  unfold Comparison.Same Machine.unwind
  refine h.seq.read (fun m => ?_) fun _ _ _ => rfl
  cases m.heap.get? exception with
  | none => exact h.seq.throw _ rfl
  | some o => exact h.unwindFrames hfree exception o.type m.active

end Unwinding

end Rules

end ClassMachine.Machine
