import ClassMachine.Proofs.Machine.ClosedInvocation

/-!
Instructions in closed machines. Whatever an instruction takes off the stack before it makes an
object is not used afterwards, or is held by something a collection starts from.
-/
namespace ClassMachine.Machine
open Stateful

section Frames

variable {α β : Type} {S : Ref → Prop} {Q : α → Prop} {R : β → Prop}

theorem Draws.pure {a : α} (ha : Q a) : Draws S (Pure.pure a) Q := fun _ hf => ⟨hf, ha⟩

theorem Draws.bind {x : FrameM α} {g : α → FrameM β} (hx : Draws S x Q)
    (hg : ∀ a, Q a → Draws S (g a) R) : Draws S (x >>= g) R := by
  intro f hf
  exact (hx f hf).bind fun a f' ⟨hf', ha⟩ => hg a ha f' hf'

theorem Draws.throw (e : Inconsistency) : Draws S (throw e : FrameM α) Q := fun _ hf => hf

theorem draws_pop : Draws S Frame.pop fun v => v.Within S := by
  intro f hf
  have hstack := hf.stack
  unfold Frame.pop
  cases hs : f.stack with
  | nil => exact hf
  | cons v rest =>
    rw [hs] at hstack
    exact ⟨⟨hf.locals, fun w hw => hstack w (.tail v hw), hf.monitor⟩, hstack v (.head rest)⟩

theorem draws_peek : Draws S Frame.peek fun v => v.Within S := by
  intro f hf
  have hstack := hf.stack
  unfold Frame.peek
  cases hs : f.stack with
  | nil => exact hf
  | cons v rest =>
    rw [hs] at hstack
    exact ⟨hf, hstack v (.head rest)⟩

theorem draws_popInt : Draws S Frame.popInt fun _ => True := by
  refine draws_pop.bind fun v _ => ?_
  cases v.int? with
  | none => exact .throw _
  | some x => exact .pure trivial

theorem draws_popLong : Draws S Frame.popLong fun _ => True := by
  refine draws_pop.bind fun v _ => ?_
  cases v.long? with
  | none => exact .throw _
  | some x => exact .pure trivial

theorem draws_popFloat : Draws S Frame.popFloat fun _ => True := by
  refine draws_pop.bind fun v _ => ?_
  cases v.float? with
  | none => exact .throw _
  | some x => exact .pure trivial

theorem draws_popDouble : Draws S Frame.popDouble fun _ => True := by
  refine draws_pop.bind fun v _ => ?_
  cases v.double? with
  | none => exact .throw _
  | some x => exact .pure trivial

theorem draws_popRef : Draws S Frame.popRef S := by
  refine draws_pop.bind fun v hv => ?_
  cases hr : v.ref? with
  | none => exact .throw _
  | some r => exact .pure (Value.within_iff_ref?.1 hv r hr)

theorem draws_popN (n : Nat) : Draws S (Frame.popN n) fun vs => ∀ v ∈ vs, v.Within S := by
  intro f hf
  unfold Frame.popN
  split
  · exact hf
  · constructor
    · exact ⟨hf.locals, fun w hw => hf.stack w (List.mem_of_mem_drop hw), hf.monitor⟩
    · intro v hv
      exact hf.stack v (List.mem_of_mem_take (List.mem_reverse.1 hv))

theorem draws_getLocal (index : Nat) : Draws S (Frame.getLocal index) fun v => v.Within S := by
  intro f hf
  unfold Frame.getLocal
  cases hv : f.locals[index]? with
  | none => exact hf
  | some v => exact ⟨hf, hf.locals v (Array.mem_of_getElem? hv)⟩

theorem draws_setLocal (index : Nat) {v : Value} (hv : v.Within S) :
    Draws S (Frame.setLocal index v) fun _ => True := by
  intro f hf
  unfold Frame.setLocal
  split
  · refine ⟨⟨fun w hw => ?_, hf.stack, hf.monitor⟩, trivial⟩
    rcases Array.mem_or_eq_of_mem_setIfInBounds hw with hw | rfl
    · exact hf.locals w hw
    · exact hv
  · exact hf

theorem draws_store (index : Nat) : Draws S (Frame.store index) fun _ => True := by
  refine draws_pop.bind fun v hv => (draws_setLocal index hv).bind fun _ _ f hf => ?_
  rw [bind_get]
  split
  · exact draws_setLocal (v := .int 0) (index + 1) trivial f hf
  · exact ⟨hf, trivial⟩

theorem draws_increment (index : Nat) (delta : Int16) :
    Draws S (Frame.increment index delta) fun _ => True := by
  refine (draws_getLocal index).bind fun v _ => ?_
  cases v.int? with
  | none => exact .throw _
  | some x => exact draws_setLocal index trivial

theorem draws_jump (target : Nat) : Draws S (Frame.jump target) fun _ => True := fun _ hf =>
  ⟨⟨hf.locals, hf.stack, hf.monitor⟩, trivial⟩

theorem draws_branchIf (holds : Bool) (target : Nat) :
    Draws S (branchIf holds target) fun _ => True := by
  unfold branchIf
  split
  · exact draws_jump target
  · exact .pure trivial

theorem draws_pushAll {vs : List Value} (hvs : ∀ v ∈ vs, v.Within S) :
    Draws S (Frame.pushAll vs) fun _ => True := by
  intro f hf
  refine ⟨⟨hf.locals, fun w hw => ?_, hf.monitor⟩, trivial⟩
  rcases List.mem_append.1 hw with hw | hw
  · exact hvs w (List.mem_reverse.1 hw)
  · exact hf.stack w hw

theorem draws_rearrange (op : StackOp) : Draws S (Frame.rearrange op) fun _ => True := by
  cases op with
  | pop => exact draws_pop.bind fun _ _ => .pure trivial
  | pop2 =>
    refine draws_pop.bind fun v _ => ?_
    split
    · exact draws_pop.bind fun _ _ => .pure trivial
    · exact .pure trivial
  | dup => exact draws_peek.bind fun v hv => draws_push hv
  | dupX1 =>
    refine draws_pop.bind fun v hv => draws_pop.bind fun w hw => ?_
    exact draws_pushAll (by simp [hv, hw])
  | dupX2 =>
    refine draws_pop.bind fun v hv => draws_pop.bind fun w hw => ?_
    cases w.category with
    | two => exact draws_pushAll (by simp [hv, hw])
    | one => exact draws_pop.bind fun x hx => draws_pushAll (by simp [hv, hw, hx])
  | dup2 =>
    refine draws_pop.bind fun v hv => ?_
    cases v.category with
    | two => exact draws_pushAll (by simp [hv])
    | one => exact draws_pop.bind fun w hw => draws_pushAll (by simp [hv, hw])
  | dup2X1 =>
    refine draws_pop.bind fun v hv => draws_pop.bind fun w hw => ?_
    cases v.category with
    | two => exact draws_pushAll (by simp [hv, hw])
    | one => exact draws_pop.bind fun x hx => draws_pushAll (by simp [hv, hw, hx])
  | dup2X2 =>
    refine draws_pop.bind fun v hv => draws_pop.bind fun w hw => ?_
    cases v.category with
    | two =>
      cases w.category with
      | two => exact draws_pushAll (by simp [hv, hw])
      | one => exact draws_pop.bind fun x hx => draws_pushAll (by simp [hv, hw, hx])
    | one =>
      refine draws_pop.bind fun x hx => ?_
      cases x.category with
      | two => exact draws_pushAll (by simp [hv, hw, hx])
      | one => exact draws_pop.bind fun y hy => draws_pushAll (by simp [hv, hw, hx, hy])
  | swap =>
    refine draws_pop.bind fun v hv => draws_pop.bind fun w hw => ?_
    exact draws_pushAll (by simp [hv, hw])

/-- Results of arithmetic are numbers. -/
theorem draws_arithmetic (op : ArithOp) (type : NumType) :
    Draws S (arithmetic op type) fun result => ∀ v, result = some v → v.Within S := by
  have hnumber : ∀ {γ : Type} (number? : Option γ) (f : γ → Value), (∀ c, (f c).Within S) →
      ∀ v, number?.map f = some v → v.Within S := by
    intro γ number? f hf v hv
    obtain ⟨c, _, rfl⟩ := Option.map_eq_some_iff.1 hv
    exact hf c
  cases type with
  | int =>
    refine draws_popInt.bind fun b _ => draws_popInt.bind fun a _ => .pure ?_
    exact hnumber _ _ fun _ => trivial
  | long =>
    unfold arithmetic
    dsimp only
    split
    · refine draws_popInt.bind fun b _ => draws_popLong.bind fun a _ => .pure ?_
      exact hnumber (some _) Value.long fun _ => trivial
    · refine draws_popLong.bind fun b _ => draws_popLong.bind fun a _ => .pure ?_
      exact hnumber _ _ fun _ => trivial
  | float =>
    refine draws_popFloat.bind fun b _ => draws_popFloat.bind fun a _ => .pure ?_
    exact hnumber (some _) Value.float fun _ => trivial
  | double =>
    refine draws_popDouble.bind fun b _ => draws_popDouble.bind fun a _ => .pure ?_
    exact hnumber (some _) Value.double fun _ => trivial

theorem draws_negate (type : NumType) : Draws S (negate type) fun _ => True := by
  cases type with
  | int => exact draws_popInt.bind fun _ _ => draws_push trivial
  | long => exact draws_popLong.bind fun _ _ => draws_push trivial
  | float => exact draws_popFloat.bind fun _ _ => draws_push trivial
  | double => exact draws_popDouble.bind fun _ _ => draws_push trivial

theorem within_convert? {v w : Value} {target : NumType} (h : v.convert? target = some w) :
    w.Within S := by
  unfold Value.convert? at h
  split at h <;> cases h <;> trivial

theorem draws_convert (target : NumType) : Draws S (convert target) fun _ => True := by
  refine draws_pop.bind fun v _ => ?_
  cases hw : v.convert? target with
  | none => exact .throw _
  | some w => exact draws_push (within_convert? hw)

theorem draws_compareTop (op : CompareOp) : Draws S (compareTop op) fun _ => True := by
  cases op with
  | long => exact draws_popLong.bind fun _ _ => draws_popLong.bind fun _ _ => draws_push trivial
  | floatL => exact draws_popFloat.bind fun _ _ => draws_popFloat.bind fun _ _ => draws_push trivial
  | floatG => exact draws_popFloat.bind fun _ _ => draws_popFloat.bind fun _ _ => draws_push trivial
  | doubleL =>
    exact draws_popDouble.bind fun _ _ => draws_popDouble.bind fun _ _ => draws_push trivial
  | doubleG =>
    exact draws_popDouble.bind fun _ _ => draws_popDouble.bind fun _ _ => draws_push trivial

theorem draws_popStore : Draws S popStore fun pair => pair.1.Within S ∧ S pair.2 :=
  draws_pop.bind fun _ hv => draws_popRef.bind fun _ hr => .pure ⟨hv, hr⟩

theorem draws_fetch : Draws S fetch fun _ => True := by
  intro f hf
  unfold fetch
  cases f.code.get? f.pc with
  | none => exact hf
  | some i => exact ⟨⟨hf.locals, hf.stack, hf.monitor⟩, trivial⟩

end Frames

section Instructions

variable {α : Type} {t : ThreadId} {pins : Pins} {m : Machine} {k : Nested}

theorem frameStep_tended (hm : Tended t pins m) {x : FrameM Unit} {Q : Unit → Prop}
    (hx : Draws m.heap.Names x Q) :
    Ends (frameStep x m) (fun _ m' => Tended t pins m') (Trapped (Tended t pins)) :=
  (onTop_tended hm hx).bind fun _ _ h => h.1

theorem pushing_tended {x : MachineM Value}
    (hx : Ends (x m) (fun v m' => Tended t pins m' ∧ v.Within m'.heap.Names)
      (Trapped (Tended t pins))) :
    Ends (pushing x m) (fun _ m' => Tended t pins m') (Trapped (Tended t pins)) :=
  hx.bind fun _ _ ⟨h₁, hv⟩ => (push_tended h₁ hv).bind fun _ _ h₂ => h₂

theorem pushingRef_tended {x : MachineM Ref}
    (hx : Ends (x m) (fun r m' => Tended t pins m' ∧ m'.heap.Names r) (Trapped (Tended t pins))) :
    Ends (pushingRef x m) (fun _ m' => Tended t pins m') (Trapped (Tended t pins)) :=
  hx.bind fun r _ ⟨h₁, hr⟩ => (push_tended (v := .ref r) h₁ hr).bind fun _ _ h₂ => h₂

theorem executeArith_tended (hm : Tended t pins m) (op : ArithOp) (type : NumType) :
    Ends (executeArith op type m) (fun _ m' => Tended t pins m') (Trapped (Tended t pins)) := by
  unfold executeArith
  refine (onTop_tended hm (draws_arithmetic op type)).bind fun result m₁ ⟨h₁, heap₁, hresult⟩ => ?_
  cases result with
  | none => exact raise_tended h₁ _ _
  | some v =>
    have hv : v.Within m₁.heap.Names := by
      rw [heap₁]
      exact hresult v rfl
    exact (push_tended h₁ hv).bind fun _ _ h₂ => h₂

theorem static_within {S : Ref → Prop} {s : Statics} (hs : s.Within S) {owner : ClassId}
    {slot : Nat} {v : Value} (hv : s.get? owner slot = some v) : v.Within S := by
  obtain ⟨values, hvalues, hslot⟩ := Option.bind_eq_some_iff.1 hv
  exact hs owner values hvalues v (Array.mem_of_getElem? hslot)

theorem set?_within {S : Ref → Prop} {s s' : Statics} (hs : s.Within S) {owner : ClassId}
    {slot : Nat} {v : Value} (hv : v.Within S) (h : s.set? owner slot v = some s') :
    s'.Within S := by
  unfold Statics.set? at h
  split at h
  · cases h
    intro id values hvalues w hw
    unfold Statics.slots? at hvalues
    dsimp only at hvalues
    rw [Std.ExtTreeMap.getElem?_modify] at hvalues
    split at hvalues
    · obtain ⟨old, hold, rfl⟩ := Option.map_eq_some_iff.1 hvalues
      rcases Array.mem_or_eq_of_mem_setIfInBounds hw with hw | rfl
      · exact hs _ old hold w hw
      · exact hv
    · exact hs id values hvalues w hw
  · cases h

theorem getStatic_tended (hk : Settled k) (hm : Tended t pins m) (owner : ClassId) (slot : Nat) :
    Ends (getStatic k t owner slot m)
      (fun v m' => Tended t pins m' ∧ v.Within m'.heap.Names) (Trapped (Tended t pins)) := by
  unfold getStatic
  refine (ensureInitialized_tended hk hm owner).bind fun _ m₁ h₁ => ?_
  rw [bind_get]
  cases hv : m₁.statics.get? owner slot with
  | none => exact h₁
  | some v => exact ⟨h₁, static_within h₁.tidy.closed.statics hv⟩

theorem putStatic_tended (hk : Settled k) (hm : Tended t pins m) (owner : ClassId) (slot : Nat)
    (kind : Kind) :
    Ends (putStatic k t owner slot kind m) (fun _ m' => Tended t pins m')
      (Trapped (Tended t pins)) := by
  unfold putStatic
  refine (ensureInitialized_tended hk hm owner).bind fun _ m₁ h₁ => ?_
  refine (onTop_tended h₁ draws_pop).bind fun v m₂ ⟨h₂, heap₂, hv⟩ => ?_
  rw [bind_get]
  cases hs : m₂.statics.set? owner slot (v.narrowTo kind) with
  | none => exact h₂
  | some s =>
    have hv₂ : v.Within m₂.heap.Names := by
      rw [heap₂]
      exact hv
    exact h₂.of_statics (set?_within h₂.tidy.closed.statics (Value.within_narrowTo hv₂ kind) hs)

/-- The arguments of a call, taken off the stack. -/
theorem popArgs_tended (hm : Tended t pins m) (n : Nat) :
    Ends (onTop (Frame.popN n) m)
      (fun args m' => Tended t pins m' ∧ ∀ v ∈ args, v.Within m'.heap.Names)
      (Trapped (Tended t pins)) := by
  refine (onTop_tended hm (draws_popN n)).mono (fun args m₁ ⟨h₁, heap₁, hargs⟩ => ?_) fun _ _ h => h
  rw [heap₁]
  exact ⟨h₁, hargs⟩

theorem invokeVirtual_tended (hk : Settled k) (hm : Tended t pins m) (signature : SignatureId)
    (params : Nat) :
    Ends (invokeVirtual k t signature params m) (fun _ m' => Tended t pins m')
      (Trapped (Tended t pins)) := by
  unfold invokeVirtual
  refine (popArgs_tended hm _).bind fun args m₁ ⟨h₁, hargs⟩ => ?_
  refine (selectVirtual_steady _ signature pins m₁ h₁).bind fun method m₂ ⟨h₂, hn₂⟩ => ?_
  exact invokeMethod_tended hk h₂ (fun v hv => (hargs v hv).mono hn₂) method

theorem invokeSpecial_tended (hk : Settled k) (hm : Tended t pins m) (method : MethodId)
    (params : Nat) :
    Ends (invokeSpecial k t method params m) (fun _ m' => Tended t pins m')
      (Trapped (Tended t pins)) := by
  unfold invokeSpecial
  refine (popArgs_tended hm _).bind fun args m₁ ⟨h₁, hargs⟩ => ?_
  split
  · exact raiseNullPointer_tended h₁
  · exact invokeMethod_tended hk h₁ hargs method

theorem newPrimitiveArray_tended (hm : Tended t pins m) (kind : Kind) :
    Ends (newPrimitiveArray kind m) (fun r m' => Tended t pins m' ∧ m'.heap.Names r)
      (Trapped (Tended t pins)) := by
  unfold newPrimitiveArray
  refine (onTop_tended hm draws_popInt).bind fun length m₁ ⟨h₁, _⟩ => ?_
  refine (onClasses_tended h₁ _).bind fun found m₂ ⟨h₂, _⟩ => ?_
  cases found with
  | ok id => exact newArray_tended h₂ id kind length
  | error e => exact h₂

theorem newNestedArray_tended (hm : Tended t pins m) (id : ClassId) (dims : Nat) :
    Ends (newNestedArray id dims m) (fun r m' => Tended t pins m' ∧ m'.heap.Names r)
      (Trapped (Tended t pins)) := by
  unfold newNestedArray
  refine (onTop_tended hm (draws_popN dims)).bind fun counts m₁ ⟨h₁, _⟩ => ?_
  cases (counts.map fun v => v.int?.getD 0).find? (· < 0) with
  | some negative => exact raise_tended h₁ _ _
  | none => exact newMultiArray_tended _ id h₁

theorem checkCast_tended (hm : Tended t pins m) (id : ClassId) :
    Ends (checkCast id m) (fun _ m' => Tended t pins m') (Trapped (Tended t pins)) := by
  unfold checkCast
  refine (onTop_tended hm draws_peek).bind fun v m₁ ⟨h₁, _⟩ => ?_
  dsimp only
  split
  · refine (classOf_steady _ pins m₁ h₁).bind fun actual m₂ ⟨h₂, _⟩ => ?_
    refine (onClasses_tended h₂ _).bind fun subclass m₃ ⟨h₃, _⟩ => ?_
    cases subclass with
    | true => exact h₃
    | false => exact raise_tended h₃ _ _
  · exact h₁

theorem instanceOf_tended (hm : Tended t pins m) (id : ClassId) :
    Ends (instanceOf id m) (fun v m' => Tended t pins m' ∧ v.Within m'.heap.Names)
      (Trapped (Tended t pins)) := by
  unfold instanceOf
  refine (onTop_tended hm draws_popRef).bind fun object m₁ ⟨h₁, _⟩ => ?_
  rw [bind_get]
  cases m₁.liveClass? object with
  | none => exact ⟨h₁, trivial⟩
  | some actual => exact (onClasses_tended h₁ _).bind fun _ m₂ ⟨h₂, _⟩ => ⟨h₂, trivial⟩

theorem monitorEnter_tended (hm : Tended t pins m) :
    Ends (monitorEnter t m) (fun _ m' => Tended t pins m') (Trapped (Tended t pins)) := by
  unfold monitorEnter
  refine (onTop_tended hm draws_popRef).bind fun object m₁ ⟨h₁, heap₁, hobject⟩ => ?_
  split
  · exact raiseNullPointer_tended h₁
  · rw [← heap₁] at hobject
    refine (synchronize_tended h₁ (Sync.enter_gentle t hobject)).bind fun entry m₂ ⟨h₂, _⟩ => ?_
    cases entry <;> exact h₂

theorem monitorExit_tended (hm : Tended t pins m) :
    Ends (monitorExit t m) (fun _ m' => Tended t pins m') (Trapped (Tended t pins)) := by
  unfold monitorExit
  refine (onTop_tended hm draws_popRef).bind fun object m₁ ⟨h₁, _⟩ => ?_
  split
  · exact raiseNullPointer_tended h₁
  · exact (synchronize_tended h₁ (Sync.exit_gentle t object)).bind fun _ m₂ ⟨h₂, _⟩ => h₂

theorem raiseMissing_tended (hm : Tended t pins m) (u : Unresolved) {Q : α → Machine → Prop} :
    Ends (raiseMissing u m) Q (Trapped (Tended t pins)) := by
  unfold raiseMissing
  rw [bind_get]
  cases m.config.missingSymbol with
  | abort => exact hm
  | _ => exact raise_tended hm _ _

theorem arrayStore_tended (hm : Tended t pins m) (kind : Kind) :
    Ends (executeInstruction k t (.arrayStore kind) m) (fun _ m' => Tended t pins m')
      (Trapped (Tended t pins)) := by
  refine (onTop_tended hm draws_pop).bind fun v m₁ ⟨h₁, heap₁, hv⟩ => ?_
  refine (onTop_tended h₁ draws_popInt).bind fun index m₂ ⟨h₂, heap₂, _⟩ => ?_
  refine (onTop_tended h₂ draws_popRef).bind fun array m₃ ⟨h₃, heap₃, _⟩ => ?_
  rw [← heap₁, ← heap₂, ← heap₃] at hv
  exact (storeElement_tended h₃ array index hv).bind fun _ _ h₄ => h₄

/-- A value taken for a store is still live once the object is looked at: until then objects are
made only to be thrown. -/
theorem storing_tended (hm : Tended t pins m) {look : Ref → MachineM α}
    (hlook : ∀ object, Steady t (look object)) (slot : α → Nat) (kind : Kind) :
    Ends ((onTop popStore >>= fun pair => look pair.2 >>= fun a =>
        writeField pair.2 (slot a) (pair.1.narrowTo kind) >>= fun _ => pure Flow.next) m)
      (fun _ m' => Tended t pins m') (Trapped (Tended t pins)) := by
  refine (onTop_tended hm draws_popStore).bind fun (v, object) m₁ ⟨h₁, heap₁, hv, _⟩ => ?_
  refine (hlook object pins m₁ h₁).bind fun a m₂ ⟨h₂, hn₂⟩ => ?_
  rw [← heap₁] at hv
  exact (writeField_tended h₂ object (slot a) (Value.within_narrowTo (hv.mono hn₂) kind)).bind
    fun _ _ h₃ => h₃

theorem executeInstruction_tended (hk : Settled k) (hm : Tended t pins m) (i : Instruction) :
    Ends (executeInstruction k t i m) (fun _ m' => Tended t pins m') (Trapped (Tended t pins)) := by
  cases i with
  | nop => exact hm
  | pushInt v => exact frameStep_tended hm (draws_push trivial)
  | pushLong v => exact frameStep_tended hm (draws_push trivial)
  | pushFloat b => exact frameStep_tended hm (draws_push trivial)
  | pushDouble b => exact frameStep_tended hm (draws_push trivial)
  | pushNull => exact frameStep_tended hm (draws_push m.heap.names_null)
  | pushString text => exact pushingRef_tended (internString_tended hm text)
  | pushClass id => exact pushingRef_tended (mirror_tended hm id)
  | load index kind =>
    exact frameStep_tended hm ((draws_getLocal index).bind fun v hv => draws_push hv)
  | store index kind => exact frameStep_tended hm (draws_store index)
  | increment index delta => exact frameStep_tended hm (draws_increment index delta)
  | arrayLoad kind =>
    apply pushing_tended
    refine (onTop_tended hm draws_popInt).bind fun index m₁ ⟨h₁, _⟩ => ?_
    refine (onTop_tended h₁ draws_popRef).bind fun array m₂ ⟨h₂, _⟩ => ?_
    exact loadElement_tended h₂ array index
  | arrayStore kind => exact arrayStore_tended hm kind
  | stack op => exact frameStep_tended hm (draws_rearrange op)
  | arith op type => exact executeArith_tended hm op type
  | neg type => exact frameStep_tended hm (draws_negate type)
  | convert source target => exact frameStep_tended hm (draws_convert target)
  | narrow kind =>
    apply frameStep_tended hm
    exact draws_popInt.bind fun x _ => draws_push (Value.within_narrowTo (v := .int x) trivial kind)
  | compare op => exact frameStep_tended hm (draws_compareTop op)
  | ifZero cond target =>
    exact frameStep_tended hm (draws_popInt.bind fun x _ => draws_branchIf _ target)
  | ifCmp cond target =>
    apply frameStep_tended hm
    exact draws_popInt.bind fun b _ => draws_popInt.bind fun a _ => draws_branchIf _ target
  | ifRefEq equal target =>
    apply frameStep_tended hm
    exact draws_popRef.bind fun b _ => draws_popRef.bind fun a _ => draws_branchIf _ target
  | ifNull null target =>
    exact frameStep_tended hm (draws_popRef.bind fun r _ => draws_branchIf _ target)
  | goto target => exact frameStep_tended hm (draws_jump target)
  | tableSwitch low targets default =>
    exact frameStep_tended hm (draws_popInt.bind fun key _ => draws_jump _)
  | lookupSwitch pairs default =>
    exact frameStep_tended hm (draws_popInt.bind fun key _ => draws_jump _)
  | returnVoid => exact returnFrom_tended ⟨hm, fun v hv => by cases hv⟩
  | returnValue kind =>
    refine (onTop_tended hm draws_pop).bind fun v m₁ ⟨h₁, heap₁, hv⟩ => ?_
    apply returnFrom_tended
    refine ⟨h₁, fun w hw => ?_⟩
    cases hw
    rw [heap₁]
    exact hv
  | getStatic owner slot kind => exact pushing_tended (getStatic_tended hk hm owner slot)
  | putStatic owner slot kind =>
    exact (putStatic_tended hk hm owner slot kind).bind fun _ _ h₁ => h₁
  | getField name descriptor kind =>
    apply pushing_tended
    refine (onTop_tended hm draws_popRef).bind fun object m₁ ⟨h₁, _⟩ => ?_
    refine (fieldSlot_steady object name descriptor pins m₁ h₁).bind fun slot m₂ ⟨h₂, _⟩ => ?_
    exact readField_tended h₂ object slot
  | putField name descriptor kind =>
    exact storing_tended hm (fun object => fieldSlot_steady object name descriptor) id kind
  | getFieldSlot slot kind =>
    apply pushing_tended
    refine (onTop_tended hm draws_popRef).bind fun object m₁ ⟨h₁, _⟩ => ?_
    refine (classOf_steady object pins m₁ h₁).bind fun _ m₂ ⟨h₂, _⟩ => ?_
    exact readField_tended h₂ object slot
  | putFieldSlot slot kind => exact storing_tended hm classOf_steady (fun _ => slot) kind
  | invokeStatic method site =>
    refine (ensureInitialized_tended hk hm method.owner).bind fun _ m₁ h₁ => ?_
    refine (popArgs_tended h₁ _).bind fun args m₂ ⟨h₂, hargs⟩ => ?_
    exact invokeMethod_tended hk h₂ hargs method
  | invokeSpecial method site => exact invokeSpecial_tended hk hm method _
  | invokeVirtual signature site => exact invokeVirtual_tended hk hm signature _
  | invokeInterface signature site => exact invokeVirtual_tended hk hm signature _
  | invokeVoidNoArgs signature => exact invokeVirtual_tended hk hm signature 0
  | new id =>
    apply pushingRef_tended
    exact (ensureInitialized_tended hk hm id).bind fun _ m₁ h₁ => newInstance_tended h₁ id
  | newArray kind => exact pushingRef_tended (newPrimitiveArray_tended hm kind)
  | newRefArray id =>
    apply pushingRef_tended
    exact (onTop_tended hm draws_popInt).bind fun length m₁ ⟨h₁, _⟩ => newArray_tended h₁ id _ length
  | multiNewArray id dims => exact pushingRef_tended (newNestedArray_tended hm id dims)
  | arrayLength =>
    apply pushing_tended
    refine (onTop_tended hm draws_popRef).bind fun array m₁ ⟨h₁, _⟩ => ?_
    exact (arrayLength_tended h₁ array).bind fun _ _ h₂ => ⟨h₂, trivial⟩
  | throw =>
    refine (onTop_tended hm draws_popRef).bind fun exception m₁ ⟨h₁, heap₁, hexception⟩ => ?_
    split
    · exact raiseNullPointer_tended h₁
    · rw [← heap₁] at hexception
      exact ⟨h₁, hexception⟩
  | checkCast id => exact (checkCast_tended hm id).bind fun _ _ h₁ => h₁
  | instanceOf id => exact pushing_tended (instanceOf_tended hm id)
  | monitorEnter => exact monitorEnter_tended hm
  | monitorExit => exact monitorExit_tended hm
  | unresolved symbol => exact raiseMissing_tended hm symbol

/-- One instruction keeps a machine closed, and throws only live objects. -/
theorem executeOne_tended (hk : Settled k) (hm : Tended t pins m) :
    Ends (executeOne k t m) (fun _ m' => Tended t pins m') (Trapped (Tended t pins)) := by
  unfold executeOne
  exact (onTop_tended hm draws_fetch).bind fun i m₁ ⟨h₁, _⟩ => executeInstruction_tended hk h₁ i

end Instructions

end ClassMachine.Machine
