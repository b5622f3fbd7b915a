import ClassMachine.Proofs.Machine.BalanceCalls

/-!
Instructions in a balanced machine. Without the instructions that enter and leave monitors, a thread
gets and gives up monitors with its frames alone: every other instruction works on the frame in front,
asks the heap and the classes, or calls and returns.
-/
namespace ClassMachine

theorem LinkedCode.isMonitor_of_get? {code : LinkedCode} (h : code.isUnmonitored = true) {pc : Nat}
    {i : Instruction} (hi : code.get? pc = some i) : i.isMonitor = false := by
  unfold LinkedCode.isUnmonitored at h
  have hmem := Array.mem_of_getElem? hi
  simpa using Array.all_eq_true'.1 h i hmem

namespace Machine
open Stateful

section Frames

open ClassMachine.Frame

theorem arithmetic_bound (op : ArithOp) (type : NumType) : Bound (arithmetic op type) := by
  cases type with
  | int => exact popInt_bound.bind fun _ => popInt_bound.bind fun _ => .pure _
  | long =>
    show Bound (if op.isShift then _ else _)
    split
    · exact popInt_bound.bind fun _ => popLong_bound.bind fun _ => .pure _
    · exact popLong_bound.bind fun _ => popLong_bound.bind fun _ => .pure _
  | float => exact popFloat_bound.bind fun _ => popFloat_bound.bind fun _ => .pure _
  | double => exact popDouble_bound.bind fun _ => popDouble_bound.bind fun _ => .pure _

theorem negate_bound (type : NumType) : Bound (negate type) := by
  cases type with
  | int => exact popInt_bound.bind fun _ => push_bound _
  | long => exact popLong_bound.bind fun _ => push_bound _
  | float => exact popFloat_bound.bind fun _ => push_bound _
  | double => exact popDouble_bound.bind fun _ => push_bound _

theorem convert_bound (target : NumType) : Bound (convert target) := by
  unfold convert
  refine pop_bound.bind fun v => ?_
  cases v.convert? target with
  | some w => exact push_bound w
  | none => exact .throw _

theorem compareTop_bound (op : CompareOp) : Bound (compareTop op) := by
  cases op with
  | long => exact popLong_bound.bind fun _ => popLong_bound.bind fun _ => push_bound _
  | floatL => exact popFloat_bound.bind fun _ => popFloat_bound.bind fun _ => push_bound _
  | floatG => exact popFloat_bound.bind fun _ => popFloat_bound.bind fun _ => push_bound _
  | doubleL => exact popDouble_bound.bind fun _ => popDouble_bound.bind fun _ => push_bound _
  | doubleG => exact popDouble_bound.bind fun _ => popDouble_bound.bind fun _ => push_bound _

theorem branchIf_bound (holds : Bool) (target : Nat) : Bound (branchIf holds target) := by
  unfold branchIf
  split
  · exact jump_bound target
  · exact .pure _

theorem fetch_bound : Bound fetch := by
  intro f
  unfold fetch
  cases f.code.get? f.pc with
  | none => trivial
  | some i => exact ⟨rfl, rfl⟩

theorem popStore_bound : Bound popStore := pop_bound.bind fun _ => popRef_bound.bind fun _ => .pure _

end Frames

section Asking

variable {α : Type} {running : Option ThreadId} {free : List ThreadId}

theorem push_fair (v : Value) : Fair running free (push v) := .onTop (Frame.push_bound v)

theorem popRef_fair : Fair running free (onTop Frame.popRef) := .onTop Frame.popRef_bound

theorem arrayLength_fair (array : Ref) : Fair running free (arrayLength array) :=
  (elementsOf_fair array).bind fun _ => .pure _

theorem newPrimitiveArray_fair (kind : Kind) : Fair running free (newPrimitiveArray kind) := by
  unfold newPrimitiveArray
  refine (Fair.onTop Frame.popInt_bound).bind fun length => ?_
  refine (Fair.onClasses (ClassTable.arrayOf_asks _)).bind fun found => ?_
  cases found with
  | ok id => exact newArray_fair id kind length
  | error e => exact .inconsistent _

theorem newNestedArray_fair (id : ClassId) (dims : Nat) : Fair running free (newNestedArray id dims) := by
  unfold newNestedArray
  refine (Fair.onTop (Frame.popN_bound dims)).bind fun counts => ?_
  dsimp only
  split
  · exact raise_fair _ _
  · exact newMultiArray_fair _ _

theorem checkCast_fair (id : ClassId) : Fair running free (checkCast id) := by
  unfold checkCast
  refine (Fair.onTop Frame.peek_bound).bind fun v => ?_
  dsimp only
  split
  · refine (classOf_fair _).bind fun actual => ?_
    refine (Fair.onClasses (ClassTable.isSubclass_asks _ _)).bind fun yes => ?_
    cases yes with
    | true => exact .pure _
    | false => exact Fair.get.bind fun _ => raise_fair _ _
  · exact .pure _

theorem instanceOf_fair (id : ClassId) : Fair running free (instanceOf id) := by
  unfold instanceOf
  refine popRef_fair.bind fun object => Fair.get.bind fun m => ?_
  cases m.liveClass? object with
  | some actual => exact (Fair.onClasses (ClassTable.isSubclass_asks _ _)).bind fun _ => .pure _
  | none => exact .pure _

end Asking

/-- Come to the same on every machine that is balanced while a thread goes on, and leave that thread
as the flow says. -/
def Proceed (t : ThreadId) (free : List ThreadId) (x y : MachineM Flow) : Prop :=
  ∀ m, Poised (some t) (t :: free) m →
    Same x y m (Flow.Goes t free) (Trap.Leaves (Poised (some t) (t :: free)))

section Proceeding

variable {α : Type} {t : ThreadId} {free : List ThreadId} {x y : MachineM α}

theorem Agree.proceed {f g : α → MachineM Flow} (hx : Agree (some t) (t :: free) x y)
    (hf : ∀ a, Proceed t free (f a) (g a)) : Proceed t free (x >>= f) (y >>= g) :=
  fun m hm => (hx m hm).bind fun a m₁ h₁ => hf a m₁ h₁

theorem Agree.next (hx : Agree (some t) (t :: free) x y) :
    Proceed t free (x >>= fun _ => Pure.pure .next) (y >>= fun _ => Pure.pure .next) :=
  hx.proceed fun _ _ hm => .of_ends hm

theorem Fair.next (hx : Fair (some t) (t :: free) x) :
    Proceed t free (x >>= fun _ => Pure.pure .next) (x >>= fun _ => Pure.pure .next) := hx.agree.next

/-- What only raises. -/
theorem raise_proceed (className : String) (message : Option String) :
    Proceed t free (raise className message) (raise className message) :=
  fun _ hm => .of_ends (raise_poised hm className message)

theorem frameStep_proceed {x : FrameM Unit} (hx : Frame.Bound x) :
    Proceed t free (frameStep x) (frameStep x) := (Fair.onTop hx).next

theorem pushing_proceed {x y : MachineM Value} (hx : Agree (some t) (t :: free) x y) :
    Proceed t free (pushing x) (pushing y) := hx.proceed fun v => (push_fair v).next

theorem pushingRef_proceed {x y : MachineM Ref} (hx : Agree (some t) (t :: free) x y) :
    Proceed t free (pushingRef x) (pushingRef y) := hx.proceed fun r => (push_fair (.ref r)).next

end Proceeding

section Instructions

variable {t : ThreadId} {free : List ThreadId} {m : Machine} {k l : Nested}

theorem raiseMissing_proceed (u : Unresolved) : Proceed t free (raiseMissing u) (raiseMissing u) := by
  unfold raiseMissing
  refine Fair.get.agree.proceed fun m => ?_
  split
  · exact fun _ _ => .of_ends trivial
  · exact raise_proceed _ _

theorem executeArith_proceed (op : ArithOp) (type : NumType) :
    Proceed t free (executeArith op type) (executeArith op type) := by
  refine (Fair.onTop (arithmetic_bound op type)).agree.proceed fun result => ?_
  cases result with
  | some v => exact (push_fair v).next
  | none => exact raise_proceed _ _

theorem getStatic_agree (hk : k.Fair l) (ht : t ∈ free) (owner : ClassId) (slot : Nat) :
    Agree (some t) free (getStatic k t owner slot) (getStatic l t owner slot) := by
  unfold getStatic
  refine (ensureInitialized_agree hk ht owner).bind fun _ => Fair.agree (Fair.get.bind fun m => ?_)
  cases m.statics.get? owner slot with
  | some v => exact .pure v
  | none => exact .inconsistent _

theorem putStatic_agree (hk : k.Fair l) (ht : t ∈ free) (owner : ClassId) (slot : Nat) (kind : Kind) :
    Agree (some t) free (putStatic k t owner slot kind) (putStatic l t owner slot kind) := by
  unfold putStatic
  refine (ensureInitialized_agree hk ht owner).bind fun _ => Fair.agree ?_
  refine (Fair.onTop Frame.pop_bound).bind fun v => Fair.get.bind fun m => ?_
  cases m.statics.set? owner slot (v.narrowTo kind) with
  | some s => exact .modify fun _ hm => hm.congr rfl rfl rfl (fun hc => hc) rfl
  | none => exact .inconsistent _

theorem invokeMethod_proceed (hk : k.Fair l) (hnot : t ∉ free) (method : MethodId) (args : List Value) :
    Proceed t free (invokeMethod k t method args) (invokeMethod l t method args) :=
  fun _ hm => invokeMethod_same hk hm hnot method args

theorem invokeVirtual_proceed (hk : k.Fair l) (hnot : t ∉ free) (signature : SignatureId) (params : Nat) :
    Proceed t free (invokeVirtual k t signature params) (invokeVirtual l t signature params) := by
  unfold invokeVirtual
  refine (Fair.onTop (Frame.popN_bound _)).agree.proceed fun args => ?_
  exact (selectVirtual_fair _ signature).agree.proceed fun method => invokeMethod_proceed hk hnot method args

theorem invokeSpecial_proceed (hk : k.Fair l) (hnot : t ∉ free) (method : MethodId) (params : Nat) :
    Proceed t free (invokeSpecial k t method params) (invokeSpecial l t method params) := by
  unfold invokeSpecial
  refine (Fair.onTop (Frame.popN_bound _)).agree.proceed fun args => ?_
  split
  · exact raise_proceed _ _
  · exact invokeMethod_proceed hk hnot method args

theorem executeInstruction_proceed (hk : k.Fair l) (hnot : t ∉ free) {i : Instruction}
    (hi : i.isMonitor = false) :
    Proceed t free (executeInstruction k t i) (executeInstruction l t i) := by
  have ht : t ∈ t :: free := List.mem_cons_self
  cases i with
  | nop => exact fun _ hm => .of_ends hm
  | pushInt v => exact frameStep_proceed (Frame.push_bound _)
  | pushLong v => exact frameStep_proceed (Frame.push_bound _)
  | pushFloat b => exact frameStep_proceed (Frame.push_bound _)
  | pushDouble b => exact frameStep_proceed (Frame.push_bound _)
  | pushNull => exact frameStep_proceed (Frame.push_bound _)
  | pushString text => exact pushingRef_proceed (internString_fair text).agree
  | pushClass id => exact pushingRef_proceed (mirror_fair id).agree
  | load index c => exact frameStep_proceed ((Frame.getLocal_bound index).bind fun _ => Frame.push_bound _)
  | store index c => exact frameStep_proceed (Frame.store_bound index)
  | increment index delta => exact frameStep_proceed (Frame.increment_bound index delta)
  | arrayLoad kind =>
    exact pushing_proceed ((Fair.onTop Frame.popInt_bound).bind fun index =>
      popRef_fair.bind fun array => loadElement_fair array index).agree
  | arrayStore kind =>
    refine (Fair.onTop Frame.pop_bound).agree.proceed fun v => ?_
    refine (Fair.onTop Frame.popInt_bound).agree.proceed fun index => ?_
    exact popRef_fair.agree.proceed fun array => (storeElement_fair array index v).next
  | stack op => exact frameStep_proceed (Frame.rearrange_bound op)
  | arith op type => exact executeArith_proceed op type
  | neg type => exact frameStep_proceed (negate_bound type)
  | convert source target => exact frameStep_proceed (convert_bound target)
  | narrow kind => exact frameStep_proceed (Frame.popInt_bound.bind fun _ => Frame.push_bound _)
  | compare op => exact frameStep_proceed (compareTop_bound op)
  | ifZero cond target => exact frameStep_proceed (Frame.popInt_bound.bind fun _ => branchIf_bound _ _)
  | ifCmp cond target =>
    exact frameStep_proceed (Frame.popInt_bound.bind fun _ => Frame.popInt_bound.bind fun _ =>
      branchIf_bound _ _)
  | ifRefEq equal target =>
    exact frameStep_proceed (Frame.popRef_bound.bind fun _ => Frame.popRef_bound.bind fun _ =>
      branchIf_bound _ _)
  | ifNull null target => exact frameStep_proceed (Frame.popRef_bound.bind fun _ => branchIf_bound _ _)
  | goto target => exact frameStep_proceed (Frame.jump_bound target)
  | tableSwitch low targets default =>
    exact frameStep_proceed (Frame.popInt_bound.bind fun _ => Frame.jump_bound _)
  | lookupSwitch pairs default =>
    exact frameStep_proceed (Frame.popInt_bound.bind fun _ => Frame.jump_bound _)
  | returnVoid => exact fun m hm => .of_ends (returnFrom_goes hm hnot none)
  | returnValue c =>
    exact (Fair.onTop Frame.pop_bound).agree.proceed fun v m hm => .of_ends (returnFrom_goes hm hnot (some v))
  | getStatic owner slot kind => exact pushing_proceed (getStatic_agree hk ht owner slot)
  | putStatic owner slot kind => exact (putStatic_agree hk ht owner slot kind).next
  | getField name descriptor kind =>
    exact pushing_proceed (popRef_fair.bind fun object => (fieldSlot_fair object name descriptor).bind
      fun slot => readField_fair object slot).agree
  | putField name descriptor kind =>
    refine (Fair.onTop popStore_bound).agree.proceed fun ⟨v, object⟩ => ?_
    exact (fieldSlot_fair object name descriptor).agree.proceed fun slot => (writeField_fair _ _ _).next
  | getFieldSlot slot kind =>
    exact pushing_proceed (popRef_fair.bind fun object => (classOf_fair object).bind
      fun _ => readField_fair object slot).agree
  | putFieldSlot slot kind =>
    refine (Fair.onTop popStore_bound).agree.proceed fun ⟨v, object⟩ => ?_
    exact (classOf_fair object).agree.proceed fun _ => (writeField_fair _ _ _).next
  | invokeStatic method site =>
    refine (ensureInitialized_agree hk ht method.owner).proceed fun _ => ?_
    exact (Fair.onTop (Frame.popN_bound _)).agree.proceed fun args => invokeMethod_proceed hk hnot method args
  | invokeSpecial method site => exact invokeSpecial_proceed hk hnot method _
  | invokeVirtual signature site => exact invokeVirtual_proceed hk hnot signature _
  | invokeInterface signature site => exact invokeVirtual_proceed hk hnot signature _
  | invokeVoidNoArgs signature => exact invokeVirtual_proceed hk hnot signature 0
  | new id =>
    exact pushingRef_proceed ((ensureInitialized_agree hk ht id).bind fun _ => (newInstance_fair id).agree)
  | newArray kind => exact pushingRef_proceed (newPrimitiveArray_fair kind).agree
  | newRefArray id =>
    exact pushingRef_proceed ((Fair.onTop Frame.popInt_bound).bind fun length =>
      newArray_fair id .reference length).agree
  | multiNewArray id dims => exact pushingRef_proceed (newNestedArray_fair id dims).agree
  | arrayLength =>
    exact pushing_proceed (popRef_fair.bind fun array => (arrayLength_fair array).bind fun _ => .pure _).agree
  | throw =>
    refine popRef_fair.agree.proceed fun exception => ?_
    split
    · exact raise_proceed _ _
    · exact fun m hm => .of_ends hm
  | checkCast id => exact (checkCast_fair id).next
  | instanceOf id => exact pushing_proceed (instanceOf_fair id).agree
  | monitorEnter => cases hi
  | monitorExit => cases hi
  | unresolved symbol => exact raiseMissing_proceed symbol

/-- The instruction at hand comes from the body of a frame. -/
theorem fetch_poised (hm : Poised (some t) free m) :
    Ends (onTop fetch m) (fun i m' => Poised (some t) free m' ∧ i.isMonitor = false)
      (Trap.Leaves (Poised (some t) free)) := by
  have hfair := Fair.onTop fetch_bound m hm
  have hbodies := hm.bodies_active
  unfold onTop at hfair ⊢
  cases ha : m.active with
  | nil => trivial
  | cons f rest =>
    rw [ha] at hfair hbodies
    have hbody := hbodies f List.mem_cons_self
    dsimp only at hfair ⊢
    unfold fetch at hfair ⊢
    cases hi : f.code.get? f.pc with
    | none => trivial
    | some i =>
      rw [hi] at hfair
      exact ⟨hfair, LinkedCode.isMonitor_of_get? hbody hi⟩

theorem executeOne_proceed (hk : k.Fair l) (hnot : t ∉ free) :
    Proceed t free (executeOne k t) (executeOne l t) := fun _ hm =>
  (Same.of_ends (fetch_poised hm)).bind fun _ _ ⟨h₁, hi⟩ => executeInstruction_proceed hk hnot hi _ h₁

end Instructions

end Machine

end ClassMachine
