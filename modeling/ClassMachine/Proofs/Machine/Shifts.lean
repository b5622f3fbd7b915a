import ClassMachine.Machine.Run
import ClassMachine.Proofs.Machine.Execution

/-!
What a thread does to frames when it runs, whether or not they are in step: an instruction works on
the frame in front, puts one before it or leaves it, and an exception leaves frames until one of them
catches it. The frames of other threads are out of reach.
-/
namespace ClassMachine.Machine
open Stateful

/-- At most the frame in front has changed. -/
inductive Top : FrameStack → FrameStack → Prop
  | none : Top [] []
  | front (f g : Frame) (rest : FrameStack) : Top (f :: rest) (g :: rest)

theorem Top.refl (frames : FrameStack) : Top frames frames := by
  cases frames with
  | nil => exact .none
  | cons f rest => exact .front f f rest

/-- What an instruction of the frame in front does to a stack of frames. -/
inductive Shift : FrameStack → FrameStack → Prop
  | empty (frames : FrameStack) : Shift [] frames
  | front (f g : Frame) (rest : FrameStack) : Shift (f :: rest) (g :: rest)
  | call (f g callee : Frame) (rest : FrameStack) : Shift (f :: rest) (callee :: g :: rest)
  | back (f : Frame) (result : Option Value) (rest : FrameStack) :
    Shift (f :: rest) (returned result rest)

/-- Relations between stacks that do not tell what was done to the frame in front. -/
structure Coarse (R : FrameStack → FrameStack → Prop) : Prop where
  ofTop : ∀ {a b}, Top a b → R a b
  afterTop : ∀ {a b c}, Top a b → R b c → R a c

theorem Top.coarse : Coarse Top := by
  refine ⟨fun h => h, fun h h' => ?_⟩
  cases h with
  | none => exact h'
  | front f g rest => cases h' with | front _ g' _ => exact .front f g' rest

theorem Shift.coarse : Coarse Shift := by
  refine ⟨fun h => ?_, fun h h' => ?_⟩
  · cases h with
    | none => exact .empty []
    | front f g rest => exact .front f g rest
  · cases h with
    | none => exact h'
    | front f g rest =>
      cases h' with
      | front _ g' _ => exact .front f g' rest
      | call _ g' callee _ => exact .call f g' callee rest
      | back _ result _ => exact .back f result rest

theorem Coarse.any : Coarse fun _ _ => True := ⟨fun _ => trivial, fun _ _ => trivial⟩

/-- The frames of the running thread have changed as `R` says, and those of other threads have
not. -/
structure Touched (t : ThreadId) (R : FrameStack → FrameStack → Prop) (m m' : Machine) : Prop where
  frames : R m.active m'.active
  others : m.scheduler.Spares (· ≠ t) m'.scheduler

/-- Run by a thread whose number has been given out, `x` changes no frames but its own, and those as
`R` says. -/
def Touches (t : ThreadId) (R : FrameStack → FrameStack → Prop) {α : Type} (x : MachineM α) : Prop :=
  ∀ m, t < m.scheduler.nextId →
    Ends (x m) (fun _ m' => m.Touched t R m') fun _ m' => m.Touched t R m'

section Rules

variable {α β : Type} {t : ThreadId} {R : FrameStack → FrameStack → Prop} {x : MachineM α}

theorem Keeps.touched {m m' : Machine} (h : m.Keeps m') (hR : Coarse R) : m.Touched t R m' := by
  refine ⟨?_, h.threads.mono fun _ _ _ => trivial⟩
  rw [h.active]
  exact hR.ofTop (.refl _)

theorem Quiet.touches (hx : Quiet t x) (hR : Coarse R) : Touches t R x := fun m hm =>
  (hx m hm).mono (fun _ _ h => h.touched hR) fun _ _ h => h.1.touched hR

theorem Touches.bind {f : α → MachineM β} (hx : Touches t Top x) (hR : Coarse R)
    (hf : ∀ a, Touches t R (f a)) : Touches t R (x >>= f) := by
  intro m hm
  have h := hx m hm
  cases hr : x m with
  | ok a m₁ =>
    have h₁ := h.of_ok hr
    rw [bind_of_ok hr]
    refine (hf a m₁ (UInt32.lt_of_lt_of_le hm h₁.others.nextId)).mono ?_ ?_ <;>
      exact fun _ m₂ h₂ => ⟨hR.afterTop h₁.frames h₂.frames, h₁.others.trans h₂.others⟩
  | error e m₁ =>
    have h₁ := h.of_error hr
    rw [bind_of_error hr]
    exact ⟨hR.ofTop h₁.frames, h₁.others⟩

theorem Touches.mono {R' : FrameStack → FrameStack → Prop} (hx : Touches t R x)
    (hR : ∀ a b, R a b → R' a b) : Touches t R' x := fun m hm =>
  (hx m hm).mono (fun _ _ h => ⟨hR _ _ h.frames, h.others⟩) fun _ _ h => ⟨hR _ _ h.frames, h.others⟩

theorem Touches.pure (a : α) : Touches t Top (Pure.pure a : MachineM α) :=
  (Quiet.pure a).touches Top.coarse

theorem Touches.onTop (x : FrameM α) : Touches t Top (onTop x) := by
  intro m _
  unfold Machine.onTop
  cases ha : m.active with
  | nil => exact ⟨by rw [ha]; exact .none, .refl _ _⟩
  | cons f rest =>
    dsimp only
    cases x f with
    | ok a g => exact ⟨by rw [ha]; exact .front f g rest, .refl _ _⟩
    | error e g => exact ⟨by rw [ha]; exact .front f g rest, .refl _ _⟩

theorem frameStep_touches (x : FrameM Unit) : Touches t Top (frameStep x) :=
  (Touches.onTop x).bind Top.coarse fun _ => .pure _

theorem pushing_touches {x : MachineM Value} (hx : Touches t Top x) : Touches t Top (pushing x) :=
  hx.bind Top.coarse fun _ => (Touches.onTop _).bind Top.coarse fun _ => .pure _

theorem pushingRef_touches {x : MachineM Ref} (hx : Touches t Top x) : Touches t Top (pushingRef x) :=
  hx.bind Top.coarse fun _ => (Touches.onTop _).bind Top.coarse fun _ => .pure _

/-- The frame in front is asked first. -/
theorem asking_touches {x : FrameM α} {f : α → MachineM β} (hf : ∀ a, Quiet t (f a)) :
    Touches t Top (Machine.onTop x >>= f) :=
  (Touches.onTop x).bind Top.coarse fun a => (hf a).touches Top.coarse

end Rules

section Instructions

variable {t : ThreadId} {k : Nested}

theorem Invokes.shifts {x : MachineM Flow} (hx : Invokes t x) : Touches t Shift x := by
  intro m hm
  refine (hx m hm).mono (fun _ m' h => ?_) fun _ m' h => h.1.touched Shift.coarse
  have hshift : Shift m.active m'.active := by
    cases h with
    | entered callee ha _ =>
      rw [ha]
      cases m.active with
      | nil => exact .empty _
      | cons f rest => exact .call f f callee rest
    | answered result ha _ =>
      rw [ha]
      cases m.active with
      | nil => exact .empty _
      | cons f rest => exact .front f _ rest
  refine ⟨hshift, ?_⟩
  cases h with
  | entered _ _ hs => exact hs.mono fun _ _ _ => trivial
  | answered _ _ hs => exact hs.mono fun _ _ _ => trivial

theorem returnFrom_shifts (result : Option Value) : Touches t Shift (returnFrom t result) := by
  intro m hm
  cases ha : m.active with
  | nil =>
    unfold returnFrom
    rw [bind_get, ha]
    exact (Keeps.refl m).touched Shift.coarse
  | cons g rest =>
    have hleft : Shift (g :: rest) rest := by
      have h := Shift.back g none rest
      rwa [returned_none] at h
    refine (returnFrom_ends ⟨ha, hm⟩ result).mono (fun _ m' h => ?_) fun _ m' h => ?_
    · exact ⟨by rw [ha, h.1]; exact .back g result rest, h.2.mono fun _ _ _ => trivial⟩
    · exact ⟨by rw [ha, h.1.1]; exact hleft, h.1.2.mono fun _ _ _ => trivial⟩

theorem executeArith_touches (op : ArithOp) (type : NumType) :
    Touches t Top (executeArith op type) := by
  unfold executeArith
  refine (Touches.onTop _).bind Top.coarse fun result => ?_
  cases result with
  | none => exact (raise_quiet _ _).touches Top.coarse
  | some v => exact (Touches.onTop _).bind Top.coarse fun _ => .pure _

theorem putStatic_touches (hk : k.Quiet) (owner : ClassId) (slot : Nat) (kind : Kind) :
    Touches t Top (putStatic k t owner slot kind) := by
  unfold putStatic
  refine ((ensureInitialized_quiet hk owner).touches Top.coarse).bind Top.coarse fun _ => ?_
  refine asking_touches fun v => Quiet.get.bind fun m => ?_
  split
  · exact .modify fun _ => .of_eq rfl rfl
  · exact .inconsistent rfl

theorem checkCast_touches (id : ClassId) : Touches t Top (checkCast id) := by
  unfold checkCast
  refine asking_touches fun v => ?_
  dsimp only
  split
  · refine (classOf_quiet _).bind fun actual => (Quiet.onClasses _).bind fun sub => ?_
    split
    · exact Quiet.get.bind fun _ => raise_quiet _ _
    · exact .pure _
  · exact .pure _

theorem instanceOf_touches (id : ClassId) : Touches t Top (instanceOf id) := by
  unfold instanceOf
  refine asking_touches fun object => Quiet.get.bind fun m => ?_
  cases m.liveClass? object with
  | none => exact .pure _
  | some actual => exact (Quiet.onClasses _).bind fun _ => .pure _

theorem monitorEnter_touches : Touches t Top (monitorEnter t) := by
  unfold monitorEnter
  refine asking_touches fun object => ?_
  split
  · exact raiseNullPointer_raises.quiet
  · refine (synchronize_quiet (Sync.enter_tame t object)).bind fun outcome => ?_
    cases outcome <;> exact .pure _

theorem monitorExit_touches : Touches t Top (monitorExit t) := by
  unfold monitorExit
  refine asking_touches fun object => ?_
  split
  · exact raiseNullPointer_raises.quiet
  · exact (synchronize_quiet (Sync.exit_tame t object)).bind fun _ => .pure _

theorem newNestedArray_touches (id : ClassId) (dims : Nat) :
    Touches t Top (newNestedArray id dims) := by
  unfold newNestedArray
  refine asking_touches fun args => ?_
  dsimp only
  split
  · exact raise_quiet _ _
  · exact newMultiArray_quiet _ _

theorem newPrimitiveArray_touches (kind : Kind) : Touches t Top (newPrimitiveArray kind) := by
  unfold newPrimitiveArray
  refine asking_touches fun length => (Quiet.onClasses _).bind fun found => ?_
  cases found with
  | ok id => exact newArray_quiet id kind length
  | error e => exact .inconsistent rfl

/-- Instructions that neither call nor return work on the frame in front alone. -/
theorem executeInstruction_touches (hk : k.Quiet) (i : Instruction) :
    Touches t Shift (executeInstruction k t i) := by
  have htop : ∀ {x : MachineM Flow}, Touches t Top x → Touches t Shift x := fun hx =>
    hx.mono fun _ _ => Shift.coarse.ofTop
  have hcall : ∀ {n : Nat} {x : List Value → MachineM Flow}, (∀ args, Invokes t (x args)) →
      Touches t Shift (onTop (Frame.popN n) >>= x) := fun hx =>
    (Touches.onTop _).bind Shift.coarse fun args => (hx args).shifts
  have hvirtual : ∀ signature params, Touches t Shift (invokeVirtual k t signature params) :=
    fun signature params => hcall fun args => (selectVirtual_quiet _ _).invokes fun method =>
      invokeMethod_invokes hk method args
  cases i with
  | nop => exact htop (.pure _)
  | pushInt v => exact htop (frameStep_touches _)
  | pushLong v => exact htop (frameStep_touches _)
  | pushFloat b => exact htop (frameStep_touches _)
  | pushDouble b => exact htop (frameStep_touches _)
  | pushNull => exact htop (frameStep_touches _)
  | pushString text => exact htop (pushingRef_touches ((internString_quiet text).touches Top.coarse))
  | pushClass id => exact htop (pushingRef_touches ((mirror_quiet id).touches Top.coarse))
  | load index c => exact htop (frameStep_touches _)
  | store index c => exact htop (frameStep_touches _)
  | increment index delta => exact htop (frameStep_touches _)
  | arrayLoad kind =>
    exact htop (pushing_touches ((Touches.onTop _).bind Top.coarse fun index =>
      asking_touches fun array => loadElement_quiet array index))
  | arrayStore kind =>
    exact htop ((Touches.onTop _).bind Top.coarse fun v => (Touches.onTop _).bind Top.coarse
      fun index => asking_touches fun array => (storeElement_quiet array index v).bind fun _ => .pure _)
  | stack op => exact htop (frameStep_touches _)
  | arith op type => exact htop (executeArith_touches op type)
  | neg type => exact htop (frameStep_touches _)
  | convert source target => exact htop (frameStep_touches _)
  | narrow kind => exact htop (frameStep_touches _)
  | compare op => exact htop (frameStep_touches _)
  | ifZero cond target => exact htop (frameStep_touches _)
  | ifCmp cond target => exact htop (frameStep_touches _)
  | ifRefEq equal target => exact htop (frameStep_touches _)
  | ifNull null target => exact htop (frameStep_touches _)
  | goto target => exact htop (frameStep_touches _)
  | tableSwitch low targets default => exact htop (frameStep_touches _)
  | lookupSwitch pairs default => exact htop (frameStep_touches _)
  | returnVoid => exact returnFrom_shifts none
  | returnValue c => exact (Touches.onTop _).bind Shift.coarse fun v => returnFrom_shifts (some v)
  | getStatic owner slot kind =>
    exact htop (pushing_touches ((getStatic_quiet hk owner slot).touches Top.coarse))
  | putStatic owner slot kind =>
    exact htop ((putStatic_touches hk owner slot kind).bind Top.coarse fun _ => .pure _)
  | getField name descriptor kind =>
    exact htop (pushing_touches (asking_touches fun object =>
      (fieldSlot_quiet object name descriptor).bind fun slot => readField_quiet object slot))
  | putField name descriptor kind =>
    exact htop (asking_touches fun (v, object) => (fieldSlot_quiet object name descriptor).bind
      fun slot => (writeField_quiet object slot _).bind fun _ => .pure _)
  | getFieldSlot slot kind =>
    exact htop (pushing_touches (asking_touches fun object =>
      (classOf_quiet object).bind fun _ => readField_quiet object slot))
  | putFieldSlot slot kind =>
    exact htop (asking_touches fun (v, object) => (classOf_quiet object).bind
      fun _ => (writeField_quiet object slot _).bind fun _ => .pure _)
  | invokeStatic method site =>
    refine ((ensureInitialized_quiet hk method.owner).touches Top.coarse).bind Shift.coarse fun _ => ?_
    exact hcall fun args => invokeMethod_invokes hk method args
  | invokeSpecial method site =>
    refine hcall fun args => ?_
    split
    · exact raiseNullPointer_raises.invokes
    · exact invokeMethod_invokes hk method args
  | invokeVirtual signature site => exact hvirtual signature site.params.length
  | invokeInterface signature site => exact hvirtual signature site.params.length
  | invokeVoidNoArgs signature => exact hvirtual signature 0
  | new id =>
    exact htop (pushingRef_touches (((ensureInitialized_quiet hk id).bind fun _ =>
      newInstance_quiet id).touches Top.coarse))
  | newArray kind => exact htop (pushingRef_touches (newPrimitiveArray_touches kind))
  | newRefArray id =>
    exact htop (pushingRef_touches (asking_touches fun length => newArray_quiet id .reference length))
  | multiNewArray id dims => exact htop (pushingRef_touches (newNestedArray_touches id dims))
  | arrayLength =>
    exact htop (pushing_touches (asking_touches fun array =>
      (arrayLength_quiet array).bind fun _ => .pure _))
  | throw =>
    refine htop (asking_touches fun exception => ?_)
    split
    · exact raiseNullPointer_raises.quiet
    · exact .throw rfl
  | checkCast id => exact htop ((checkCast_touches id).bind Top.coarse fun _ => .pure _)
  | instanceOf id => exact htop (pushing_touches (instanceOf_touches id))
  | monitorEnter => exact htop monitorEnter_touches
  | monitorExit => exact htop monitorExit_touches
  | unresolved symbol => exact htop ((raiseMissing_raises symbol).quiet.touches Top.coarse)

theorem executeOne_touches (hk : k.Quiet) : Touches t Shift (executeOne k t) :=
  (Touches.onTop fetch).bind Shift.coarse fun i => executeInstruction_touches hk i

end Instructions

section Unwinding

variable {t : ThreadId}

theorem catches_ends (thrown : ClassId) (c : CatchType) (m : Machine) :
    Ends (catches thrown c m) (fun _ m' => m.Keeps m') fun _ _ => False := by
  cases c with
  | any => exact .refl m
  | type id => exact Keeps.of_eq rfl rfl
  | unresolved name => exact .refl m

/-- A handler that is found is one of those that guard the instruction. -/
theorem findHandler_ends (thrown : ClassId) (index : Nat) (handlers : List Handler) (m : Machine) :
    Ends (findHandler thrown index handlers m)
      (fun found m' => m.Keeps m' ∧ ∀ h, found = some h → h ∈ handlers ∧ h.covers index = true)
      fun _ _ => False := by
  induction handlers generalizing m with
  | nil => exact ⟨.refl m, fun h hh => by cases hh⟩
  | cons h rest ih =>
    have hrest : ∀ m', m.Keeps m' → Ends (findHandler thrown index rest m')
        (fun found m'' => m.Keeps m'' ∧
          ∀ h', found = some h' → h' ∈ h :: rest ∧ h'.covers index = true)
        fun _ _ => False := by
      refine fun m' hk => (ih m').mono (fun found m'' hm => ?_) fun _ _ h => h
      refine ⟨hk.trans hm.1, fun h' hh => ?_⟩
      exact ⟨List.mem_cons_of_mem _ (hm.2 h' hh).1, (hm.2 h' hh).2⟩
    unfold findHandler
    split
    · next hcov =>
      refine (catches_ends thrown h.catches m).bind fun caught m' hk => ?_
      cases caught with
      | false => exact hrest m' hk
      | true => exact ⟨hk, fun h' hh => by cases hh; exact ⟨List.mem_cons_self, hcov⟩⟩
    · exact hrest m (.refl m)

theorem releaseMonitor_keeps (thread : ThreadId) (f : Frame) (m : Machine) :
    Ends (releaseMonitor thread f m) (fun _ m' => m.Keeps m') fun _ m' => m.Keeps m' := by
  unfold releaseMonitor
  cases f.monitor with
  | none => exact .refl m
  | some object =>
    refine ((onSync_ends (Sync.exit_tame thread object) m).mono (fun _ _ h => h)
      fun _ _ h => h.elim).bind fun result m' ⟨hk, _⟩ => ?_
    cases result with
    | ok u => exact hk
    | error e => cases e <;> exact hk

/-- What a handler finds: one of the frames, at the handler, and those behind it. -/
def Caught (exception : Ref) (frames frames' : FrameStack) : Prop :=
  ∃ g tail index h, g :: tail <:+ frames ∧ g.pc = index + 1 ∧ h ∈ g.code.handlers ∧
    h.covers index = true ∧ frames' = g.caught exception h :: tail

theorem unwindFrames_ends (exception : Ref) (thrown : ClassId) (frames : FrameStack) (m : Machine) :
    Ends (unwindFrames t exception thrown frames m)
      (fun found m' => (found = true → Caught exception frames m'.active) ∧
        m.scheduler.Spares (fun _ => True) m'.scheduler)
      fun _ m' => m.scheduler.Spares (fun _ => True) m'.scheduler := by
  induction frames generalizing m with
  | nil => exact ⟨(fun h => by cases h), .refl _ _⟩
  | cons f rest ih =>
    have hfind : Ends (handlerOf thrown f m)
        (fun found m' => m.Keeps m' ∧ ∀ h, found = some h →
          ∃ index, f.pc = index + 1 ∧ h ∈ f.code.handlers ∧ h.covers index = true)
        fun _ m' => m.scheduler.Spares (fun _ => True) m'.scheduler := by
      unfold handlerOf
      cases hpc : f.pc with
      | zero => exact ⟨.refl m, fun h hh => by cases hh⟩
      | succ index =>
        refine (findHandler_ends thrown index f.code.handlers m).mono ?_ fun _ _ h => h.elim
        exact fun found m' hm => ⟨hm.1, fun h hh => ⟨index, rfl, (hm.2 h hh).1, (hm.2 h hh).2⟩⟩
    refine hfind.bind fun found m₁ ⟨hk, hcov⟩ => ?_
    cases found with
    | some h =>
      obtain ⟨index, hpc, hmem, hh⟩ := hcov h rfl
      exact ⟨fun _ => ⟨f, rest, index, h, List.suffix_refl _, hpc, hmem, hh, rfl⟩, hk.threads⟩
    | none =>
      dsimp only
      rw [bind_modify]
      refine ((releaseMonitor_keeps t f { m₁ with active := rest }).mono
        (fun _ m₂ h => hk.threads.trans h.threads) fun _ m₂ h => hk.threads.trans h.threads).bind
        fun _ m₂ h₂ => ?_
      refine (ih m₂).mono (fun found m₃ h₃ => ⟨fun hf => ?_, h₂.trans h₃.2⟩) fun _ _ h₃ => h₂.trans h₃
      obtain ⟨g, tail, index, h, hsuffix, hrest⟩ := h₃.1 hf
      exact ⟨g, tail, index, h, hsuffix.trans (List.suffix_cons f rest), hrest⟩

theorem unwind_ends (exception : Ref) (m : Machine) :
    Ends (unwind t exception m)
      (fun found m' => (found = true → Caught exception m.active m'.active) ∧
        m.scheduler.Spares (fun _ => True) m'.scheduler)
      fun _ m' => m.scheduler.Spares (fun _ => True) m'.scheduler := by
  unfold unwind
  rw [bind_get]
  cases m.heap.get? exception with
  | none => exact .refl _ _
  | some o => exact unwindFrames_ends exception o.type m.active m

end Unwinding

end ClassMachine.Machine
