import ClassMachine.Proofs.Machine.ClosedCalls

/-!
Native methods, calls and returns in closed machines. Arguments are live when a call is made, and from
then on the frame of the call holds them; a result is handed over before anything is made.
-/
namespace ClassMachine.Machine
open Stateful

section Builtins

variable {t : ThreadId} {pins : Pins} {m : Machine} {k : Nested} {args : List Value}

theorem acceptedPart_tended (element : ElementType) (values : List Value) (hm : Tended t pins m) :
    Ends (acceptedPart element values m)
      (fun accepted m' => Tended t pins m' ∧ (∀ r, m.heap.Names r → m'.heap.Names r) ∧
        ∀ v ∈ accepted, v ∈ values)
      (Trapped (Tended t pins)) := by
  induction values generalizing m with
  | nil => exact ⟨hm, fun _ hr => hr, fun v hv => hv⟩
  | cons v rest ih =>
    unfold acceptedPart
    refine (accepts_steady _ v pins m hm).bind fun accepted m₁ haccepted => ?_
    obtain ⟨h₁, hn₁⟩ := haccepted
    split
    · refine (ih h₁).bind fun part m₂ htaken => ?_
      obtain ⟨h₂, hn₂, hpart⟩ := htaken
      refine ⟨h₂, fun r hr => hn₂ r (hn₁ r hr), fun w hw => ?_⟩
      rcases List.mem_cons.1 hw with rfl | hw
      · exact List.mem_cons_self
      · exact List.mem_cons_of_mem v (hpart w hw)
    · exact ⟨h₁, hn₁, fun w hw => by cases hw⟩

theorem writeElements_tended (array : Ref) (index : Nat) (values : List Value)
    (hm : Tended t pins m) (hv : ∀ v ∈ values, v.Within m.heap.Names) :
    Ends (writeElements array index values m) (fun _ m' => Tended t pins m')
      (Trapped (Tended t pins)) := by
  induction values generalizing m index with
  | nil => exact hm
  | cons v rest ih =>
    refine (writeElement_grown hm array index (hv v List.mem_cons_self)).bind fun _ m₁ ⟨h₁, hn₁⟩ => ?_
    exact ih (index + 1) h₁ fun w hw => (hv w (List.mem_cons_of_mem v hw)).mono hn₁

theorem arrayOf?_within (hm : Tended t pins m) {r : Ref} {element : ElementType}
    {elements : Array Value} (h : m.arrayOf? r = some (element, elements)) :
    ∀ v ∈ elements, v.Within m.heap.Names := by
  unfold arrayOf? at h
  obtain ⟨o, ho, h⟩ := Option.bind_eq_some_iff.1 h
  obtain ⟨c, _, h⟩ := Option.bind_eq_some_iff.1 h
  obtain ⟨e, _, h⟩ := Option.bind_eq_some_iff.1 h
  obtain ⟨⟨kind, found⟩, hfound, h⟩ := Option.bind_eq_some_iff.1 h
  cases h
  exact elements_within (hm.tidy.closed.heap.objects r o ho) hfound

theorem arrayCopy_tended (hm : Tended t pins m) (source : Ref) (sourcePos : Int32) (target : Ref)
    (targetPos length : Int32) :
    Ends (arrayCopy source sourcePos target targetPos length m) (fun _ m' => Tended t pins m')
      (Trapped (Tended t pins)) := by
  unfold arrayCopy
  split
  · exact raiseNullPointer_tended hm
  · rw [bind_get]
    cases hsource : m.arrayOf? source with
    | none => exact raise_tended hm _ _
    | some pair =>
      obtain ⟨sourceType, elements⟩ := pair
      cases m.arrayOf? target with
      | none => exact raise_tended hm _ _
      | some pair =>
        obtain ⟨targetType, targetElements⟩ := pair
        dsimp only
        split
        · exact raise_tended hm _ _
        · split
          · exact raise_tended hm _ _
          · refine (acceptedPart_tended targetType _ hm).bind fun accepted m₁ ⟨h₁, hn₁, hpart⟩ => ?_
            have hvalues : ∀ v ∈ accepted, v.Within m₁.heap.Names := by
              intro v hv
              have hmem := List.mem_of_mem_drop (List.mem_of_mem_take (hpart v hv))
              exact (arrayOf?_within hm hsource v (Array.mem_toList_iff.1 hmem)).mono hn₁
            refine (writeElements_tended target _ accepted h₁ hvalues).bind fun _ m₂ h₂ => ?_
            split
            · exact raise_tended h₂ _ _
            · exact h₂

theorem collectGarbage_tended (hm : Tended t pins m) :
    Ends (collectGarbage m) (fun _ m' => Tended t pins m') (Trapped (Tended t pins)) :=
  hm.of_collected (Heap.collect_collected hm.tidy.closed.heap hm.tidy.closed.roots)

/-- What a native method returns is live. -/
def Answers (t : ThreadId) (pins : Pins) (result : Option Value) (m : Machine) : Prop :=
  Tended t pins m ∧ ∀ v ∈ result, v.Within m.heap.Names

theorem answers_none (hm : Tended t pins m) : Answers t pins none m := ⟨hm, fun v hv => by cases hv⟩

theorem answers_int (hm : Tended t pins m) (n : Int32) : Answers t pins (some (.int n)) m :=
  ⟨hm, fun v hv => by cases hv; trivial⟩

theorem answers_ref (hm : Tended t pins m) {r : Ref} (hr : m.heap.Names r) :
    Answers t pins (some (.ref r)) m := ⟨hm, fun v hv => by cases hv; exact hr⟩

theorem callBuiltin_answers (hk : Settled k) (hm : Tended t pins m)
    (hargs : ∀ v ∈ args, v.Within m.heap.Names) (b : Builtin) :
    Ends (callBuiltin k t args b m) (Answers t pins) (Trapped (Tended t pins)) := by
  have hsteady : ∀ {α : Type} {x : MachineM α} {m : Machine}, Steady t x → Tended t pins m →
      Ends ((x >>= fun _ => pure none) m) (Answers t pins) (Trapped (Tended t pins)) :=
    fun hx hm => (hx pins _ hm).bind fun _ _ h => answers_none h.1
  have htended : ∀ {α : Type} {x : MachineM α} {m : Machine},
      Ends (x m) (fun _ m' => Tended t pins m') (Trapped (Tended t pins)) →
      Ends ((x >>= fun _ => pure none) m) (Answers t pins) (Trapped (Tended t pins)) :=
    fun hx => hx.bind fun _ _ h => answers_none h
  cases b with
  | objectWait =>
    refine (refArgument_ends hm hargs 0).bind fun object m₁ h => ?_
    obtain ⟨rfl, ho⟩ := h
    have hwait : ∀ millis nanos, Ends ((objectWait t object millis nanos >>= fun _ => pure none) m₁)
        (Answers t pins) (Trapped (Tended t pins)) := fun millis nanos =>
      htended (objectWait_tended hm ho millis nanos)
    have hnanos : ∀ millis, Ends ((if 2 < args.length then
        intArgument args 2 >>= fun nanos => objectWait t object millis nanos >>= fun _ => pure none
        else pure 0 >>= fun nanos => objectWait t object millis nanos >>= fun _ => pure none) m₁)
        (Answers t pins) (Trapped (Tended t pins)) := by
      intro millis
      split
      · refine (numberArgument_ends hm 2).bind fun nanos m₂ h => ?_
        subst h
        exact hwait millis nanos
      · exact hwait millis 0
    split
    · refine (numberArgument_ends hm 1).bind fun millis m₂ h => ?_
      subst h
      exact hnanos millis
    · exact hnanos 0
  | objectNotify =>
    refine (refArgument_ends hm hargs 0).bind fun object m₁ h => ?_
    obtain ⟨rfl, _⟩ := h
    exact (synchronize_tended hm (Sync.notify_gentle t object)).bind fun _ _ h => answers_none h.1
  | objectNotifyAll =>
    refine (refArgument_ends hm hargs 0).bind fun object m₁ h => ?_
    obtain ⟨rfl, _⟩ := h
    exact (synchronize_tended hm (Sync.notifyAll_gentle t object)).bind fun _ _ h => answers_none h.1
  | objectHashCode =>
    refine (refArgument_ends hm hargs 0).bind fun object m₁ h => ?_
    obtain ⟨rfl, _⟩ := h
    exact answers_int hm _
  | systemIdentityHashCode =>
    refine (refArgument_ends hm hargs 0).bind fun object m₁ h => ?_
    obtain ⟨rfl, _⟩ := h
    exact answers_int hm _
  | objectGetClass =>
    refine (refArgument_ends hm hargs 0).bind fun object m₁ h => ?_
    obtain ⟨rfl, _⟩ := h
    refine (classOf_steady object pins m₁ hm).bind fun id m₂ ⟨h₂, _⟩ => ?_
    exact (mirror_tended h₂ id).bind fun r m₃ ⟨h₃, hr⟩ => answers_ref h₃ hr
  | threadSleep =>
    refine (numberArgument_ends hm 0).bind fun millis m₁ h => ?_
    subst h
    exact hsteady (threadSleep_steady millis) hm
  | threadYield => exact hsteady requestYield_steady hm
  | threadCurrentThread =>
    exact (threadObject_tended hm).bind fun r m₁ ⟨h₁, hr⟩ => answers_ref h₁ hr
  | threadStart =>
    refine (refArgument_ends hm hargs 0).bind fun object m₁ h => ?_
    obtain ⟨rfl, ho⟩ := h
    exact htended (threadStart_tended hk hm ho)
  | threadInterrupt =>
    show Ends ((get >>= fun m => refArgument args 0 >>= _) m) _ _
    rw [bind_get]
    refine (refArgument_ends hm hargs 0).bind fun object m₁ h => ?_
    obtain ⟨rfl, _⟩ := h
    cases m₁.threadOf? object with
    | none => exact answers_none hm
    | some target => exact hsteady (.onScheduler fun s => (s.interrupt_wakes target).alike) hm
  | threadIsAlive =>
    refine (refArgument_ends hm hargs 0).bind fun object m₁ h => ?_
    obtain ⟨rfl, _⟩ := h
    exact answers_int hm _
  | threadJoin =>
    refine (refArgument_ends hm hargs 0).bind fun object m₁ h => ?_
    obtain ⟨rfl, _⟩ := h
    exact hsteady (threadJoin_steady object) hm
  | systemGc => exact htended (collectGarbage_tended hm)
  | systemArraycopy =>
    refine (refArgument_ends hm hargs 0).bind fun source m₁ h => ?_
    obtain ⟨rfl, _⟩ := h
    refine (numberArgument_ends hm 1).bind fun sourcePos m₂ h => ?_
    subst h
    refine (refArgument_ends hm hargs 2).bind fun target m₃ h => ?_
    obtain ⟨rfl, _⟩ := h
    refine (numberArgument_ends hm 3).bind fun targetPos m₄ h => ?_
    subst h
    refine (numberArgument_ends hm 4).bind fun length m₅ h => ?_
    subst h
    exact htended (arrayCopy_tended hm source sourcePos target targetPos length)
  | systemCurrentTimeMillis => exact ⟨hm, fun v hv => by cases hv; trivial⟩

end Builtins

section Calls

variable {α : Type} {t : ThreadId} {pins : Pins} {m : Machine} {k : Nested} {args : List Value}

theorem Tended.of_active (hm : Tended t pins m) {active : FrameStack}
    (ha : ∀ f ∈ active, Frame.Within m.heap.Names f) : Tended t pins { m with active := active } := by
  have hc := hm.tidy.closed
  exact ⟨⟨⟨hc.heap, hc.threads, ha, hc.statics⟩, hm.tidy.noHost, hm.tidy.numbered, hm.tidy.pinned,
    hm.tidy.spare⟩, hm.running⟩

/-- A computation on a frame that lies in `S` leaves it there, and so lies what it takes from it. -/
def Draws (S : Ref → Prop) (x : FrameM α) (Q : α → Prop) : Prop :=
  ∀ f, Frame.Within S f → Ends (x f) (fun a g => Frame.Within S g ∧ Q a) fun _ g => Frame.Within S g

theorem onTop_tended (hm : Tended t pins m) {x : FrameM α} {Q : α → Prop}
    (hx : Draws m.heap.Names x Q) :
    Ends (onTop x m) (fun a m' => Tended t pins m' ∧ m'.heap = m.heap ∧ Q a)
      (Trapped (Tended t pins)) := by
  unfold onTop
  cases ha : m.active with
  | nil => exact hm
  | cons f rest =>
    dsimp only
    have hactive := hm.tidy.closed.active
    rw [ha] at hactive
    have hend := hx f (hactive f List.mem_cons_self)
    have hfront : ∀ g, Frame.Within m.heap.Names g → Tended t pins { m with active := g :: rest } := by
      intro g hg
      refine hm.of_active fun f' hf' => ?_
      rcases List.mem_cons.1 hf' with rfl | hf'
      · exact hg
      · exact hactive f' (List.mem_cons_of_mem f hf')
    cases hr : x f with
    | ok a g =>
      obtain ⟨hg, hq⟩ := hend.of_ok hr
      exact ⟨hfront g hg, rfl, hq⟩
    | error e g => exact hfront g (hend.of_error hr)

theorem draws_push {S : Ref → Prop} {v : Value} (hv : v.Within S) :
    Draws S (Frame.push v) fun _ => True := by
  intro f hf
  refine ⟨⟨hf.locals, fun w hw => ?_, hf.monitor⟩, trivial⟩
  rcases List.mem_cons.1 hw with rfl | hw
  · exact hv
  · exact hf.stack w hw

theorem push_tended (hm : Tended t pins m) {v : Value} (hv : v.Within m.heap.Names) :
    Ends (push v m) (fun _ m' => Tended t pins m') (Trapped (Tended t pins)) :=
  (onTop_tended hm (draws_push hv)).mono (fun _ _ h => h.1) fun _ _ h => h

theorem deliver_tended {result : Option Value} (hm : Answers t pins result m) :
    Ends (deliver result m) (fun _ m' => Tended t pins m') (Trapped (Tended t pins)) := by
  unfold deliver
  rw [bind_get]
  cases m.active with
  | nil => exact hm.1
  | cons f rest =>
    cases result with
    | none => exact hm.1
    | some v => exact (push_tended hm.1 (hm.2 v rfl)).bind fun _ m₁ h₁ => h₁

theorem runNative_answers (hk : Settled k) (hm : Tended t pins m)
    (hargs : ∀ v ∈ args, v.Within m.heap.Names) (method : Method) (binding : NativeBinding) :
    Ends (runNative k t method args binding m) (Answers t pins) (Trapped (Tended t pins)) := by
  cases binding with
  | builtin b => exact callBuiltin_answers hk hm hargs b
  | host id =>
    unfold runNative
    dsimp only
    rw [bind_get, hm.tidy.noHost id]
    exact hm
  | unbound => exact raise_tended hm _ _

theorem callNative_tended (hk : Settled k) (hm : Tended t pins m)
    (hargs : ∀ v ∈ args, v.Within m.heap.Names) (method : Method) :
    Ends (callNative k t method args m) (fun _ m' => Tended t pins m') (Trapped (Tended t pins)) := by
  unfold callNative
  rw [bind_get]
  refine (onLinker_tended hm _).bind fun binding m₁ ⟨h₁, hheap⟩ => ?_
  have hargs₁ : ∀ v ∈ args, v.Within m₁.heap.Names := by
    rw [hheap]
    exact hargs
  refine (runNative_answers hk h₁ hargs₁ _ _).bind fun result m₂ h₂ => ?_
  have hpause : Answers t pins result { m₂ with yieldRequested := false } :=
    ⟨h₂.1.refit m₂.linker false m₂.uncaught, h₂.2⟩
  show Ends ((deliver result >>= _) { m₂ with yieldRequested := false }) _ _
  refine (deliver_tended hpause).bind fun flow m₃ h₃ => ?_
  cases flow <;> exact h₃

theorem popFrame_tended (hm : Tended t pins m) : Tended t pins { m with active := m.active.tail } :=
  hm.of_active fun f hf => hm.tidy.closed.active f (List.mem_of_mem_tail hf)

theorem enterMonitor_tended (hm : Tended t pins m) {object : Ref} (ho : m.heap.Names object) :
    Ends (enterMonitor t object m) (fun _ m' => Tended t pins m') (Trapped (Tended t pins)) := by
  unfold enterMonitor
  refine (onSync_tended hm (Sync.enter_gentle t ho)).bind fun result m₁ ⟨h₁, hn₁⟩ => ?_
  cases result with
  | ok outcome =>
    have hset : Draws m₁.heap.Names (modify fun f => { f with monitor := some object })
        fun _ => True := by
      intro f hf
      refine ⟨⟨hf.locals, hf.stack, fun r hr => ?_⟩, trivial⟩
      cases hr
      exact hn₁ object ho
    exact (onTop_tended h₁ hset).bind fun _ m₂ h₂ => h₂.1
  | error e => exact raiseSync_tended (popFrame_tended h₁) e

theorem orPopFrame_tended {x : MachineM α} {Q : α → Machine → Prop}
    (hx : Ends (x m) Q (Trapped (Tended t pins))) :
    Ends (orPopFrame x m) Q (Trapped (Tended t pins)) := by
  unfold orPopFrame
  cases hr : x m with
  | ok a m' => exact hx.of_ok hr
  | error e m' =>
    have he := hx.of_error hr
    cases e with
    | exception exception => exact ⟨popFrame_tended he.1, he.2⟩
    | fatal error => exact popFrame_tended he
    | outOfFuel => exact popFrame_tended he

/-- The frame of a call holds the arguments. -/
theorem within_ofCall {S : Ref → Prop} (hargs : ∀ v ∈ args, v.Within S) (method : MethodId)
    (code : LinkedCode) : Frame.Within S (Frame.ofCall method code args) := by
  refine ⟨fun v hv => ?_, (fun v hv => by cases hv), fun r hr => by cases hr⟩
  simp only [Frame.ofCall, Frame.spread, List.mem_toArray, List.mem_append, List.mem_flatMap,
    List.mem_cons, List.mem_replicate] at hv
  rcases hv with ⟨w, hw, rfl | ⟨_, rfl⟩⟩ | ⟨_, rfl⟩
  · exact hargs v hw
  · trivial
  · trivial

theorem callBytecode_tended (hm : Tended t pins m) (hargs : ∀ v ∈ args, v.Within m.heap.Names)
    (method : Method) :
    Ends (callBytecode t method args m) (fun _ m' => Tended t pins m') (Trapped (Tended t pins)) := by
  unfold callBytecode
  refine (onLinker_tended hm _).bind fun linked m₁ ⟨h₁, hheap⟩ => ?_
  have hargs₁ : ∀ v ∈ args, v.Within m₁.heap.Names := by
    rw [hheap]
    exact hargs
  cases linked with
  | error e => exact h₁
  | ok code =>
    dsimp only
    rw [bind_get]
    split
    · exact raise_tended h₁ _ _
    · let callee := Frame.ofCall method.id code args
      let entered : Machine := { m₁ with active := callee :: m₁.active }
      have h₂ : Tended t pins entered := by
        refine h₁.of_active fun f hf => ?_
        rcases List.mem_cons.1 hf with rfl | hf
        · exact within_ofCall hargs₁ method.id code
        · exact h₁.tidy.closed.active f hf
      rw [bind_of_ok (show pushFrame callee m₁ = .ok () entered from rfl)]
      split
      · split
        · exact (orPopFrame_tended (mirror_tended h₂ _)).bind fun object m₃ ⟨h₃, ho⟩ =>
            enterMonitor_tended h₃ ho
        · have ho : entered.heap.Names ((args.head?.map Value.refOrNull).getD .null) := by
            cases args with
            | nil => exact Heap.names_null _
            | cons v rest => exact names_refOrNull (hargs₁ v List.mem_cons_self)
          exact enterMonitor_tended h₂ ho
      · exact h₂

theorem invokeMethod_tended (hk : Settled k) (hm : Tended t pins m)
    (hargs : ∀ v ∈ args, v.Within m.heap.Names) (method : MethodId) :
    Ends (invokeMethod k t method args m) (fun _ m' => Tended t pins m')
      (Trapped (Tended t pins)) := by
  unfold invokeMethod
  rw [bind_get]
  cases m.classes.method? method with
  | none => exact hm
  | some found =>
    dsimp only
    cases found.body with
    | abstract => exact raise_tended hm _ _
    | native binding => exact callNative_tended hk hm hargs found
    | bytecode raw linked => exact callBytecode_tended hm hargs found

theorem returnFrom_tended {result : Option Value} (hm : Answers t pins result m) :
    Ends (returnFrom t result m) (fun _ m' => Tended t pins m') (Trapped (Tended t pins)) := by
  obtain ⟨hm, hv⟩ := hm
  unfold returnFrom
  rw [bind_get]
  cases m.active with
  | nil => exact hm
  | cons f rest =>
    dsimp only
    rw [bind_of_ok (show popFrame m = .ok () { m with active := m.active.tail } from rfl)]
    have h₁ := popFrame_tended hm
    cases f.monitor with
    | none => exact deliver_tended ⟨h₁, hv⟩
    | some object =>
      refine (synchronize_tended h₁ (Sync.exit_gentle t object)).bind fun _ m₂ ⟨h₂, hn₂⟩ => ?_
      exact deliver_tended ⟨h₂, fun v hv' => (hv v hv').mono hn₂⟩

end Calls

end ClassMachine.Machine
