import ClassMachine.Proofs.Machine.Balance
import ClassMachine.Proofs.Machine.QuietCalls

/-!
Steps that keep the balance. Whatever is not about monitors, be it making objects, reading and writing
them, linking or waking threads, leaves a balanced machine balanced, with a result or with an
exception.
-/
namespace ClassMachine

/-- What holds when a computation fails with an exception; other failures promise nothing. -/
def Trap.Leaves (P : Machine → Prop) : Trap → Machine → Prop
  | .exception _, m => P m
  | _, _ => True

theorem Trap.Leaves.mono {P Q : Machine → Prop} (h : ∀ m, P m → Q m) {e : Trap} {m : Machine}
    (he : e.Leaves P m) : e.Leaves Q m := by
  cases e with
  | exception r => exact h m he
  | fatal error => trivial
  | outOfFuel => trivial

theorem Trap.leaves_of {P : Machine → Prop} {m : Machine} (h : P m) (e : Trap) : e.Leaves P m := by
  cases e with
  | exception r => exact h
  | fatal error => trivial
  | outOfFuel => trivial

namespace Frame
open Stateful

/-- Run on a frame, `x` leaves it its body and its monitor. -/
def Bound {α : Type} (x : FrameM α) : Prop :=
  ∀ f, Ends (x f) (fun _ g => g.monitor = f.monitor ∧ g.code = f.code) fun _ _ => True

namespace Bound

variable {α β : Type} {x : FrameM α}

theorem pure (a : α) : Bound (Pure.pure a : FrameM α) := fun _ => ⟨rfl, rfl⟩

theorem throw (e : Inconsistency) : Bound (throw e : FrameM α) := fun _ => trivial

theorem bind {g : α → FrameM β} (hx : Bound x) (hg : ∀ a, Bound (g a)) : Bound (x >>= g) := by
  intro f
  refine (hx f).bind fun a f₁ h₁ => ?_
  exact (hg a f₁).mono (fun _ _ h₂ => ⟨h₂.1.trans h₁.1, h₂.2.trans h₁.2⟩) fun _ _ h => h

theorem get : Bound (get : FrameM Frame) := fun _ => ⟨rfl, rfl⟩

end Bound

variable {α : Type}

theorem push_bound (v : Value) : Bound (push v) := fun _ => ⟨rfl, rfl⟩

theorem pushAll_bound (vs : List Value) : Bound (pushAll vs) := fun _ => ⟨rfl, rfl⟩

theorem jump_bound (target : Nat) : Bound (jump target) := fun _ => ⟨rfl, rfl⟩

theorem pop_bound : Bound pop := by
  intro f
  unfold pop
  cases f.stack with
  | nil => trivial
  | cons v rest => exact ⟨rfl, rfl⟩

theorem peek_bound : Bound peek := by
  intro f
  unfold peek
  cases f.stack with
  | nil => trivial
  | cons v rest => exact ⟨rfl, rfl⟩

theorem popInt_bound : Bound popInt := by
  refine pop_bound.bind fun v => ?_
  split
  · exact .pure _
  · exact .throw _

theorem popLong_bound : Bound popLong := by
  refine pop_bound.bind fun v => ?_
  split
  · exact .pure _
  · exact .throw _

theorem popFloat_bound : Bound popFloat := by
  refine pop_bound.bind fun v => ?_
  split
  · exact .pure _
  · exact .throw _

theorem popDouble_bound : Bound popDouble := by
  refine pop_bound.bind fun v => ?_
  split
  · exact .pure _
  · exact .throw _

theorem popRef_bound : Bound popRef := by
  refine pop_bound.bind fun v => ?_
  split
  · exact .pure _
  · exact .throw _

theorem popN_bound (n : Nat) : Bound (popN n) := by
  intro f
  unfold popN
  split
  · trivial
  · exact ⟨rfl, rfl⟩

theorem getLocal_bound (index : Nat) : Bound (getLocal index) := by
  intro f
  unfold getLocal
  cases f.locals[index]? with
  | none => trivial
  | some v => exact ⟨rfl, rfl⟩

theorem setLocal_bound (index : Nat) (v : Value) : Bound (setLocal index v) := by
  intro f
  unfold setLocal
  split
  · exact ⟨rfl, rfl⟩
  · trivial

theorem store_bound (index : Nat) : Bound (store index) := by
  refine pop_bound.bind fun v => (setLocal_bound index v).bind fun _ => Bound.get.bind fun f => ?_
  split
  · exact setLocal_bound (index + 1) (.int 0)
  · exact .pure _

theorem increment_bound (index : Nat) (delta : Int16) : Bound (increment index delta) := by
  refine (getLocal_bound index).bind fun v => ?_
  cases v.int? with
  | some x => exact setLocal_bound index _
  | none => exact .throw _

theorem rearrange_bound (op : StackOp) : Bound (rearrange op) := by
  cases op with
  | pop => exact pop_bound.bind fun _ => .pure _
  | pop2 =>
    refine pop_bound.bind fun v => ?_
    split
    · exact pop_bound.bind fun _ => .pure _
    · exact .pure _
  | dup => exact peek_bound.bind fun v => push_bound v
  | dupX1 => exact pop_bound.bind fun _ => pop_bound.bind fun _ => pushAll_bound _
  | dupX2 =>
    refine pop_bound.bind fun v => pop_bound.bind fun w => ?_
    cases w.category with
    | two => exact pushAll_bound _
    | one => exact pop_bound.bind fun _ => pushAll_bound _
  | dup2 =>
    refine pop_bound.bind fun v => ?_
    cases v.category with
    | two => exact pushAll_bound _
    | one => exact pop_bound.bind fun _ => pushAll_bound _
  | dup2X1 =>
    refine pop_bound.bind fun v => pop_bound.bind fun w => ?_
    cases v.category with
    | two => exact pushAll_bound _
    | one => exact pop_bound.bind fun _ => pushAll_bound _
  | dup2X2 =>
    refine pop_bound.bind fun v => pop_bound.bind fun w => ?_
    cases v.category with
    | two =>
      cases w.category with
      | two => exact pushAll_bound _
      | one => exact pop_bound.bind fun _ => pushAll_bound _
    | one =>
      refine pop_bound.bind fun x => ?_
      cases x.category with
      | two => exact pushAll_bound _
      | one => exact pop_bound.bind fun _ => pushAll_bound _
  | swap => exact pop_bound.bind fun _ => pop_bound.bind fun _ => pushAll_bound _

end Frame

namespace Machine
open Stateful

/-- A balanced machine stays balanced, with the same thread running and the same threads free. -/
def Fair (running : Option ThreadId) (free : List ThreadId) {α : Type} (x : MachineM α) : Prop :=
  ∀ m, Poised running free m →
    Ends (x m) (fun _ m' => Poised running free m') (Trap.Leaves (Poised running free))

namespace Fair

variable {α β : Type} {running : Option ThreadId} {free : List ThreadId} {x : MachineM α}

theorem pure (a : α) : Fair running free (Pure.pure a : MachineM α) := fun _ hm => hm

theorem throw (e : Trap) : Fair running free (throw e : MachineM α) := fun _ hm => e.leaves_of hm

theorem bind {f : α → MachineM β} (hx : Fair running free x) (hf : ∀ a, Fair running free (f a)) :
    Fair running free (x >>= f) := fun m hm => (hx m hm).bind fun a m₁ h₁ => hf a m₁ h₁

theorem get : Fair running free (get : MachineM Machine) := fun _ hm => hm

theorem modify {f : Machine → Machine} (hf : ∀ m, Poised running free m → Poised running free (f m)) :
    Fair running free (modify f : MachineM Unit) := hf

theorem fatal (e : Fatal) : Fair running free (fatal e : MachineM α) := throw _

theorem inconsistent (what : Inconsistency) : Fair running free (inconsistent what : MachineM α) :=
  throw _

theorem ensuring {after : Machine → Machine} (hx : Fair running free x)
    (ha : ∀ m, Poised running free m → Poised running free (after m)) :
    Fair running free (ensuring x after) := by
  intro m hm
  have h := hx m hm
  unfold Machine.ensuring
  cases hr : x m with
  | ok a m' => exact ha m' (h.of_ok hr)
  | error e m' =>
    have he := h.of_error hr
    cases e with
    | exception r => exact ha m' he
    | fatal error => trivial
    | outOfFuel => trivial

theorem onLinker {x : StateM Linker α}
    (hx : ∀ l, l.classes.Unmonitored → (x l).2.classes.Unmonitored) :
    Fair running free (onLinker x) := fun m hm => hm.congr rfl rfl rfl (hx m.linker) rfl

theorem prepare (id : ClassId) : Fair running free (Machine.onLinker (Linker.prepare id)) :=
  onLinker fun l hl => (Linker.prepare_grows id l).classes.unmonitored hl

theorem onClasses {x : StateM ClassTable α} (hx : ClassTable.Asking x) :
    Fair running free (onClasses x) := onLinker fun l hl =>
  (ClassTable.Asks.grows (hx l.classes)).unmonitored hl

theorem updateHeap {f : Heap → Heap} (hf : ∀ roots h, Heap.Respects h roots (f h)) :
    Fair running free (updateHeap f) := fun m hm => hm.heap (hf m.roots m.heap)

/-- An object is changed, its monitor apart. -/
theorem updateObject (r : Ref) {f : Object → Object} (hf : ∀ o, (f o).monitor = o.monitor) :
    Fair running free (Machine.updateHeap fun h => h.update r f) :=
  updateHeap fun roots h => Heap.update_respects roots h r hf

theorem pinning (rs : List Ref) (hx : Fair running free x) : Fair running free (pinning rs x) := by
  have hpin : ∀ roots h, Heap.Respects h roots (h.pinAll rs) := fun roots h =>
    Heap.respects_of_objects_eq roots (h.objects_pinAll rs).1 (h.objects_pinAll rs).2
  have hunpin : ∀ roots h, Heap.Respects h roots (h.unpinAll rs) := fun roots h =>
    Heap.respects_of_objects_eq roots (h.objects_unpinAll rs).1 (h.objects_unpinAll rs).2
  exact (updateHeap hpin).bind fun _ => hx.ensuring fun m hm => hm.heap (hunpin m.roots m.heap)

theorem onScheduler {f : Scheduler FrameStack → α × Scheduler FrameStack}
    (hf : ∀ s : Scheduler FrameStack, s.Pointwise Thread.Calm (f s).2)
    (hr : ∀ s : Scheduler FrameStack, s.Rotates → (f s).2.Rotates) :
    Fair running free (onScheduler f) := fun m hm =>
  hm.calm (hf m.scheduler) (hr m.scheduler hm.orderly.rotates)

/-- A record gets other marks, or another object. -/
theorem updateThread {u : ThreadId} {f : Thread FrameStack → Thread FrameStack}
    (hf : ∀ r : Thread FrameStack, (f r).pending = r.pending ∧ (f r).state = r.state ∧
      (f r).stack = r.stack) : Fair running free (updateThread u f) := by
  intro m hm
  refine hm.calm (m.scheduler.update_pointwise Thread.Calm.refl u fun r => ?_)
    (Scheduler.update_rotates hm.orderly.rotates u fun r => (hf r).2.1)
  obtain ⟨hp, hs, hstack⟩ := hf r
  refine ⟨⟨hp, ?_, fun _ hready => hs.trans hready⟩, hstack⟩
  unfold Thread.isAlive
  rw [hs]

theorem onTop {x : FrameM α} (hx : Frame.Bound x) : Fair running free (onTop x) := by
  intro m hm
  unfold Machine.onTop
  cases ha : m.active with
  | nil => trivial
  | cons f rest =>
    have hf := hx f
    dsimp only
    cases hr : x f with
    | error e g => trivial
    | ok a g =>
      obtain ⟨hmonitor, hcode⟩ := hf.of_ok hr
      refine hm.frames (fun o => ?_) (fun hbodies f' hf' => ?_) fun _ hempty => ?_
      · rw [ha, levels_cons, levels_cons, hmonitor]
      · rcases List.mem_cons.1 hf' with rfl | hrest
        · rw [hcode]
          exact hbodies f (ha ▸ List.mem_cons_self)
        · exact hbodies f' (ha ▸ List.mem_cons_of_mem f hrest)
      · rw [ha] at hempty
        cases hempty

end Fair

section Making

variable {α : Type} {running : Option ThreadId} {free : List ThreadId}

theorem reserve_fair (units : Nat) : Fair running free (reserve units) := by
  intro m hm
  have hheap := hm.heap (Heap.reserve_respects m.roots m.heap units)
  unfold reserve
  cases hr : m.heap.reserve m.roots units with
  | mk result h =>
    rw [hr] at hheap
    cases result with
    | ok u => exact hheap
    | error e => exact Trap.leaves_of hheap _

theorem insertObject_fair {o : Object} (ho : o.monitor = {}) : Fair running free (insertObject o) := by
  intro m hm
  unfold insertObject
  dsimp only
  split
  · trivial
  · next hfree => exact hm.heap (Heap.insert_respects m.roots m.heap ho (by simpa using hfree))

theorem allocate_fair {o : Object} (ho : o.monitor = {}) : Fair running free (allocate o) :=
  (reserve_fair o.weight).bind fun _ => insertObject_fair ho

theorem newInstance_fair (id : ClassId) : Fair running free (newInstance id) := by
  refine (Fair.prepare id).bind fun found => ?_
  cases found with
  | none => exact .inconsistent _
  | some c => exact allocate_fair rfl

theorem stringObject_fair (text : String) : Fair running free (stringObject text) :=
  Fair.get.bind fun _ => allocate_fair rfl

theorem setField_monitor (slot : Nat) (v : Value) (o : Object) : (o.setField slot v).monitor = o.monitor :=
  rfl

/-- An exception is thrown, or the machine cannot go on. -/
theorem raise_poised {m : Machine} (hm : Poised running free m) (className : String)
    (message : Option String) {Q : α → Machine → Prop} :
    Ends (raise className message m) Q (Trap.Leaves (Poised running free)) := by
  have htext : Fair running free (message.mapM stringObject) := by
    cases message with
    | none => exact .pure _
    | some text => exact (stringObject_fair text).bind fun _ => .pure _
  unfold raise
  rw [bind_get]
  cases m.classes.lookup? className with
  | none => trivial
  | some id =>
    refine (htext m hm).bind fun text m₁ h₁ => ?_
    refine ((newInstance_fair id).pinning _ m₁ h₁).bind fun exception m₂ h₂ => ?_
    rw [bind_get]
    cases m₂.core.messageSlot with
    | none => exact h₂
    | some slot =>
      cases text with
      | none => exact h₂
      | some text => exact (Fair.updateObject _ (setField_monitor _ _) m₂ h₂).bind fun _ m₃ h₃ => h₃

theorem raise_fair (className : String) (message : Option String) :
    Fair running free (raise className message : MachineM α) := fun _ hm => raise_poised hm _ _

theorem raiseNullPointer_fair : Fair running free (raiseNullPointer : MachineM α) := raise_fair _ _

theorem raiseSync_poised {m : Machine} (hm : Poised running free m) (e : SyncError)
    {Q : α → Machine → Prop} : Ends (raiseSync e m) Q (Trap.Leaves (Poised running free)) := by
  cases e with
  | monitor e => exact raise_poised hm _ _
  | fatal e => trivial

theorem newArray_fair (id : ClassId) (kind : Kind) (length : Int32) :
    Fair running free (newArray id kind length) := by
  unfold newArray
  split
  · exact raise_fair _ _
  · exact (reserve_fair _).bind fun _ => insertObject_fair rfl

theorem setElement_monitor (index : Nat) (v : Value) (o : Object) :
    (o.setElement index v).monitor = o.monitor := by
  unfold Object.setElement
  split <;> rfl

theorem fillArray_fair (array : Ref) {make : MachineM Ref} (hmake : Fair running free make)
    (count index : Nat) : Fair running free (fillArray array make count index) := by
  induction count generalizing index with
  | zero => exact .pure _
  | succ count ih =>
    exact hmake.bind fun _ => (Fair.updateObject array (setElement_monitor _ _)).bind fun _ => ih (index + 1)

theorem newMultiArray_fair (lengths : List Int32) (id : ClassId) :
    Fair running free (newMultiArray lengths id) := by
  induction lengths generalizing id with
  | nil => exact .inconsistent _
  | cons length rest ih =>
    unfold newMultiArray
    refine Fair.get.bind fun m => ?_
    split
    · exact .inconsistent _
    · next element _ =>
      refine (newArray_fair _ _ _).bind fun array => ?_
      cases element with
      | primitive kind => exact .pure _
      | reference inner =>
        dsimp only
        split
        · exact ((fillArray_fair array (ih inner) _ _).pinning _).bind fun _ => .pure _
        · exact .pure _

theorem internString_fair (text : String) : Fair running free (internString text) := by
  unfold internString
  refine Fair.get.bind fun m => ?_
  split
  · exact .pure _
  · refine (stringObject_fair text).bind fun r => Fair.bind (.updateHeap fun roots h => ?_) fun _ => .pure _
    exact Heap.respects_of_objects_eq roots rfl rfl

theorem mirror_fair (id : ClassId) : Fair running free (mirror id) := by
  unfold mirror
  refine Fair.get.bind fun m => ?_
  split
  · exact .pure _
  · refine Fair.get.bind fun _ => (allocate_fair rfl).bind fun r => ?_
    refine Fair.bind (.updateHeap fun roots h => ?_) fun _ => .pure _
    exact Heap.respects_of_objects_eq roots rfl rfl

theorem threadObject_fair (thread : ThreadId) : Fair running free (threadObject thread) := by
  unfold threadObject
  refine Fair.get.bind fun m => ?_
  dsimp only
  split
  · exact .pure _
  · refine Fair.get.bind fun _ => (newInstance_fair _).bind fun r => ?_
    exact Fair.bind (.updateThread fun _ => ⟨rfl, rfl, rfl⟩) fun _ => .pure _

end Making

section Access

variable {α : Type} {running : Option ThreadId} {free : List ThreadId}

theorem classOf_fair (object : Ref) : Fair running free (classOf object) := by
  unfold classOf
  split
  · exact raiseNullPointer_fair
  · refine Fair.get.bind fun m => ?_
    split
    · exact .pure _
    · exact .inconsistent _

theorem fieldSlot_fair (object : Ref) (name descriptor : String) :
    Fair running free (fieldSlot object name descriptor) := by
  unfold fieldSlot
  refine (classOf_fair object).bind fun id => (Fair.prepare id).bind fun _ =>
    (Fair.onClasses (ClassTable.resolveField_asks _ _ _)).bind fun found => Fair.get.bind fun m => ?_
  dsimp only
  split
  · exact .pure _
  · exact raise_fair _ _

theorem readField_fair (object : Ref) (slot : Nat) : Fair running free (readField object slot) := by
  unfold readField
  refine Fair.get.bind fun m => ?_
  split
  · exact .pure _
  · exact .inconsistent _

theorem writeField_fair (object : Ref) (slot : Nat) (v : Value) :
    Fair running free (writeField object slot v) := by
  unfold writeField
  refine Fair.get.bind fun m => ?_
  split
  · exact .updateObject object (setField_monitor _ _)
  · exact .inconsistent _

theorem elementsOf_fair (array : Ref) : Fair running free (elementsOf array) := by
  unfold elementsOf
  split
  · exact raiseNullPointer_fair
  · refine Fair.get.bind fun m => ?_
    split
    · exact .pure _
    · exact .inconsistent _

theorem loadElement_fair (array : Ref) (index : Int32) :
    Fair running free (loadElement array index) := by
  unfold loadElement
  refine (elementsOf_fair array).bind fun elements => ?_
  split
  · exact .pure _
  · exact raise_fair _ _

theorem accepts_fair (element : Option ElementType) (v : Value) :
    Fair running free (accepts element v) := by
  unfold accepts
  split
  · refine Fair.get.bind fun m => ?_
    split
    · exact .onClasses (ClassTable.isSubclass_asks _ _)
    · exact .pure _
  · exact .pure _

theorem writeElement_fair (array : Ref) (index : Nat) (v : Value) :
    Fair running free (writeElement array index v) := by
  refine .updateObject array fun o => ?_
  cases o.elements? with
  | some pair => exact setElement_monitor _ _ o
  | none => rfl

theorem storeElement_fair (array : Ref) (index : Int32) (v : Value) :
    Fair running free (storeElement array index v) := by
  unfold storeElement
  refine (elementsOf_fair array).bind fun elements => ?_
  split
  · exact raise_fair _ _
  · refine Fair.get.bind fun m => (accepts_fair _ v).bind fun accepted => ?_
    split
    · exact writeElement_fair array _ v
    · exact Fair.get.bind fun _ => raise_fair _ _

theorem acceptedPart_fair (element : ElementType) (values : List Value) :
    Fair running free (acceptedPart element values) := by
  induction values with
  | nil => exact .pure _
  | cons v rest ih =>
    unfold acceptedPart
    refine (accepts_fair _ _).bind fun accepted => ?_
    split
    · exact ih.bind fun _ => .pure _
    · exact .pure _

theorem writeElements_fair (array : Ref) (index : Nat) (values : List Value) :
    Fair running free (writeElements array index values) := by
  induction values generalizing index with
  | nil => exact .pure _
  | cons v rest ih => exact (writeElement_fair array index v).bind fun _ => ih (index + 1)

theorem arrayCopy_fair (source : Ref) (sourcePos : Int32) (target : Ref) (targetPos length : Int32) :
    Fair running free (arrayCopy source sourcePos target targetPos length) := by
  unfold arrayCopy
  split
  · exact raiseNullPointer_fair
  · refine Fair.get.bind fun m => ?_
    split
    · split
      · exact raise_fair _ _
      · split
        · exact raise_fair _ _
        · refine (acceptedPart_fair _ _).bind fun accepted => (writeElements_fair _ _ _).bind fun _ => ?_
          split
          · exact raise_fair _ _
          · exact .pure _
    · exact raise_fair _ _

theorem collectGarbage_fair : Fair running free collectGarbage := fun m hm =>
  hm.heap (Heap.collect_respects m.roots m.heap)

theorem selectVirtual_fair (object : Ref) (signature : SignatureId) :
    Fair running free (selectVirtual object signature) := by
  unfold selectVirtual
  refine (classOf_fair object).bind fun id => (Fair.prepare id).bind fun found => ?_
  cases found with
  | none => exact .inconsistent _
  | some c =>
    dsimp only
    split
    · exact .pure _
    · exact Fair.get.bind fun _ => raise_fair _ _

theorem argument_fair (args : List Value) (index : Nat) : Fair running free (argument args index) := by
  unfold argument
  split
  · exact .pure _
  · exact .inconsistent _

theorem refArgument_fair (args : List Value) (index : Nat) : Fair running free (refArgument args index) :=
  (argument_fair args index).bind fun _ => .pure _

theorem intArgument_fair (args : List Value) (index : Nat) : Fair running free (intArgument args index) :=
  (argument_fair args index).bind fun _ => .pure _

theorem longArgument_fair (args : List Value) (index : Nat) :
    Fair running free (longArgument args index) := (argument_fair args index).bind fun _ => .pure _

theorem catches_fair (thrown : ClassId) (type : CatchType) : Fair running free (catches thrown type) := by
  cases type with
  | any => exact .pure _
  | type id => exact .onClasses (ClassTable.isSubclass_asks _ _)
  | unresolved symbol => exact .pure _

theorem findHandler_fair (thrown : ClassId) (index : Nat) (handlers : List Handler) :
    Fair running free (findHandler thrown index handlers) := by
  induction handlers with
  | nil => exact .pure _
  | cons h rest ih =>
    unfold findHandler
    split
    · refine (catches_fair thrown h.catches).bind fun caught => ?_
      cases caught with
      | true => exact .pure _
      | false => exact ih
    · exact ih

theorem handlerOf_fair (thrown : ClassId) (f : Frame) : Fair running free (handlerOf thrown f) := by
  unfold handlerOf
  split
  · exact .pure _
  · exact findHandler_fair thrown _ _

end Access

section Threads

variable {running : Option ThreadId} {free : List ThreadId} {t : ThreadId}

theorem wakes_calm {s s' : Scheduler FrameStack} (h : s.Wakes s') : s.Pointwise Thread.Calm s' :=
  h.mono fun _ _ hw => hw.calm

theorem setInterruptible_fair (thread : ThreadId) : Fair running free (setInterruptible thread) :=
  .updateThread fun _ => ⟨rfl, rfl, rfl⟩

theorem takeInterrupt_rotates {s : Scheduler FrameStack} (hs : s.Rotates) (thread : ThreadId) :
    (s.takeInterrupt thread).2.Rotates := Scheduler.update_rotates hs thread fun _ => rfl

theorem checkInterrupt_fair (thread : ThreadId) : Fair running free (checkInterrupt thread) := by
  unfold checkInterrupt
  refine Fair.bind (.onScheduler (fun s => wakes_calm (s.takeInterrupt_wakes thread))
    fun s hs => takeInterrupt_rotates hs thread) fun interrupted => ?_
  split
  · exact raise_fair _ _
  · exact .pure _

theorem requestYield_fair : Fair running free requestYield :=
  .modify fun _ hm => hm.congr rfl rfl rfl (fun hc => hc) rfl

theorem interrupt_fair (target : ThreadId) :
    Fair running free (onScheduler fun s => s.interrupt target) :=
  .onScheduler (fun s => wakes_calm (s.interrupt_wakes target)) fun _ hs =>
    Scheduler.interrupt_rotates hs target

/-- A thread with nothing pending may be taken out of the rotation. -/
theorem Poised.detach {m : Machine} (hm : Poised running free m) (ht : t ∈ free) (timeout : Timeout) :
    Poised running free { m with scheduler := (m.scheduler.detach t timeout).2 } := by
  obtain ⟨r, hfree⟩ := hm.free t ht
  refine hm.calm ⟨Scheduler.nextId_detach _ t timeout, fun u => ?_⟩
    (Scheduler.detach_rotates hm.orderly.rotates t timeout)
  rw [Scheduler.get?_detach]
  split
  · next hu =>
    subst hu
    have hrec : m.scheduler.get? t = some r := hfree.record
    rw [hrec]
    have halive := hfree.alive
    simp only [Option.map_some, halive, if_true]
    refine .some ⟨⟨rfl, ?_, fun hp => absurd hfree.pending hp⟩, rfl⟩
    rw [halive]
    cases timeout <;> rfl
  · exact (Scheduler.Pointwise.refl Thread.Calm.refl m.scheduler).record u

theorem detach_fair (ht : t ∈ free) (timeout : Timeout) :
    Fair running free (onScheduler fun s => s.detach t timeout) := fun _ hm => hm.detach ht timeout

theorem join_fair (ht : t ∈ free) (target : ThreadId) :
    Fair running free (onScheduler fun s => s.join t target) := by
  intro m hm
  show Poised running free { m with scheduler := (m.scheduler.join t target).2 }
  unfold Scheduler.join
  cases m.scheduler.get? target with
  | none => exact hm
  | some r =>
    dsimp only
    split
    · have hcalm := m.scheduler.update_pointwise Thread.Calm.refl target
        (f := fun r => { r with joiners := r.joiners ++ [t] }) fun _ => ⟨⟨rfl, rfl, fun _ h => h⟩, rfl⟩
      have hjoined := hm.calm hcalm (Scheduler.update_rotates hm.orderly.rotates target fun _ => rfl)
      exact hjoined.detach ht .indefinite
    · exact hm

theorem threadSleep_fair (ht : t ∈ free) (millis : Int64) : Fair running free (threadSleep t millis) := by
  unfold threadSleep
  split
  · exact raise_fair _ _
  · refine (checkInterrupt_fair t).bind fun _ => ?_
    split
    · exact requestYield_fair
    · exact (detach_fair ht _).bind fun _ => setInterruptible_fair t

theorem threadJoin_fair (ht : t ∈ free) (object : Ref) : Fair running free (threadJoin t object) := by
  unfold threadJoin
  refine Fair.get.bind fun m => (checkInterrupt_fair t).bind fun _ => ?_
  split
  · exact .pure _
  · refine (join_fair ht _).bind fun joined => ?_
    split
    · exact setInterruptible_fair t
    · exact .pure _

theorem takeParkedInterrupt_poised {m : Machine} (hm : Poised running free m) (thread : ThreadId) :
    Ends (takeParkedInterrupt thread m) (fun _ m' => Poised running free m') fun _ _ => False := by
  unfold takeParkedInterrupt
  rw [bind_get]
  cases m.scheduler.get? thread with
  | none => exact hm
  | some r =>
    dsimp only
    split
    · have hmark := Fair.updateThread (u := thread)
        (f := fun t => { t with interruptible := false, interrupted := false })
        (fun _ => ⟨rfl, rfl, rfl⟩) m hm
      exact hmark
    · exact hm

end Threads

end Machine

end ClassMachine
