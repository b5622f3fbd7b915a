import ClassMachine.Proofs.Machine.BalanceMonitors

/-!
Calls in a balanced machine. An instruction may run code of its own on other threads before it ends;
as long as those runs keep the balance, so does the instruction. Two ways to run such code that come to
the same on balanced machines give instructions that come to the same.
-/
namespace ClassMachine

namespace Machine
open Stateful

/-- Two computations come to the same from a machine, and it is as `Q` and `E` say. -/
structure Same {ε α : Type} (x y : EStateM ε Machine α) (m : Machine) (Q : α → Machine → Prop)
    (E : ε → Machine → Prop) : Prop where
  eq : y m = x m
  ends : Ends (x m) Q E

namespace Same

section Sequencing

variable {ε α β : Type} {x y : EStateM ε Machine α} {m : Machine} {Q : α → Machine → Prop}
  {E : ε → Machine → Prop}

theorem of_ends (h : Ends (x m) Q E) : Same x x m Q E := ⟨rfl, h⟩

theorem mono {Q' : α → Machine → Prop} {E' : ε → Machine → Prop} (h : Same x y m Q E)
    (hQ : ∀ a m', Q a m' → Q' a m') (hE : ∀ e m', E e m' → E' e m') : Same x y m Q' E' :=
  ⟨h.eq, h.ends.mono hQ hE⟩

theorem bind {f g : α → EStateM ε Machine β} {R : β → Machine → Prop} (hx : Same x y m Q E)
    (hf : ∀ a m', Q a m' → Same (f a) (g a) m' R E) : Same (x >>= f) (y >>= g) m R E := by
  have hends := hx.ends
  cases hr : x m with
  | ok a m' =>
    have hnext := hf a m' (hends.of_ok hr)
    refine ⟨?_, ?_⟩
    · rw [bind_of_ok hr, bind_of_ok (hx.eq.trans hr), hnext.eq]
    · rw [bind_of_ok hr]
      exact hnext.ends
  | error e m' =>
    refine ⟨?_, ?_⟩
    · rw [bind_of_error hr, bind_of_error (hx.eq.trans hr)]
    · rw [bind_of_error hr]
      exact hends.of_error hr

theorem get {f g : Machine → EStateM ε Machine β} {R : β → Machine → Prop}
    (h : Same (f m) (g m) m R E) : Same (get >>= f) (get >>= g) m R E := ⟨h.eq, h.ends⟩

theorem modify {f : Machine → Machine} {after after' : Unit → EStateM ε Machine β}
    {R : β → Machine → Prop} (h : Same (after ()) (after' ()) (f m) R E) :
    Same (modify f >>= after) (modify f >>= after') m R E := ⟨h.eq, h.ends⟩

end Sequencing

section Trapping

variable {α : Type} {x y : MachineM α} {m : Machine} {Q : α → Machine → Prop}
  {E : Trap → Machine → Prop}

theorem attempt {F : Trap → Machine → Prop} (hx : Same x y m Q E) :
    Same (attempt x) (attempt y) m (Attempted Q E) F := by
  refine ⟨?_, attempt_ends hx.ends⟩
  unfold Machine.attempt
  rw [hx.eq]

theorem ensuring {g : Machine → Machine} {R : α → Machine → Prop} {F : Trap → Machine → Prop}
    (hx : Same x y m Q E) (hQ : ∀ a m', Q a m' → R a (g m')) (hE : ∀ e m', E e m' → F e (g m')) :
    Same (ensuring x g) (ensuring y g) m R F := by
  have hends := hx.ends
  refine ⟨?_, ?_⟩
  · unfold Machine.ensuring
    rw [hx.eq]
  · unfold Machine.ensuring
    cases hr : x m with
    | ok a m' => exact hQ a m' (hends.of_ok hr)
    | error e m' => exact hE e m' (hends.of_error hr)

end Trapping

end Same

/-- Come to the same on every machine that is balanced so, and leave it balanced so. -/
def Agree (running : Option ThreadId) (free : List ThreadId) {α : Type} (x y : MachineM α) : Prop :=
  ∀ m, Poised running free m →
    Same x y m (fun _ m' => Poised running free m') (Trap.Leaves (Poised running free))

section Agree

variable {α β : Type} {running : Option ThreadId} {free : List ThreadId} {x y : MachineM α}

theorem Fair.agree (h : Fair running free x) : Agree running free x x := fun m hm => .of_ends (h m hm)

theorem Agree.bind {f g : α → MachineM β} (hx : Agree running free x y)
    (hf : ∀ a, Agree running free (f a) (g a)) : Agree running free (x >>= f) (y >>= g) :=
  fun m hm => (hx m hm).bind fun a m' h' => hf a m' h'

end Agree

end Machine

/-- Nested calls that come to the same on balanced machines, and leave the threads that wait for them
as free as they were. A thread that could not be started has no frames. -/
structure Nested.Fair (k l : Nested) : Prop where
  call : ∀ free method args m, Machine.Poised none free m →
    Machine.Same (k.call method args) (l.call method args) m (fun _ m' => m'.Poised none free)
      (Trap.Leaves (Machine.Poised none free))
  enter : ∀ free started method args m, Machine.Poised none (started :: free) m → started ∉ free →
    m.framesOf none started = [] →
    Machine.Same (k.enter started method args) (l.enter started method args) m
      (fun _ m' => m'.Poised none free)
      (Trap.Leaves fun m' => m'.Poised none (started :: free) ∧ m'.framesOf none started = [])

namespace Machine
open Stateful

section Initializers

variable {α : Type} {t : ThreadId} {free : List ThreadId} {m : Machine} {k l : Nested}

/-- What is done while the frames of the running thread are in its record. -/
theorem withParked_same {x y : MachineM α} {P Q R S : Machine → Prop} (hm : Poised (some t) free m)
    (hx : Same x y (saveStack t m) (fun _ m' => P m') (Trap.Leaves Q))
    (hP : ∀ m', P m' → R (swapStack t m')) (hQ : ∀ m', Q m' → S (swapStack t m')) :
    Same (withParked t x) (withParked t y) m (fun _ m' => R m') (Trap.Leaves S) := by
  have hsame := hx.ensuring (g := swapStack t) (R := fun _ m' => R m') (F := Trap.Leaves S)
    (fun _ m' h => hP m' h) fun e m' h => by
      cases e with
      | exception r => exact hQ m' h
      | fatal error => trivial
      | outOfFuel => trivial
  rw [← swapStack_of_running hm] at hsame
  exact ⟨hsame.eq, hsame.ends⟩

theorem Poised.swapBack (h : Poised none free m) (ht : t ∈ free) :
    Poised (some t) free (swapStack t m) := by
  obtain ⟨r, hr⟩ := h.free t ht
  rw [swapStack_of_idle h]
  exact h.takeStack hr.record hr.alive

theorem initializeOne_agree (hk : k.Fair l) (ht : t ∈ free) (id : ClassId) :
    Agree (some t) free (initializeOne k t id) (initializeOne l t id) := by
  unfold initializeOne
  refine (Fair.prepare id).agree.bind fun found => ?_
  cases found with
  | none => exact (Fair.pure _).agree
  | some c =>
    have htake : Fair (some t) free (onClasses (ClassTable.takePendingInit id)) :=
      .onLinker fun l hl => ClassTable.Unmonitored.takePendingInit hl id
    refine htake.agree.bind fun taken => ?_
    split
    · have hstatics : Fair (some t) free
          (modify fun m => { m with statics := m.statics.ensure id c.staticKinds } : MachineM Unit) :=
        .modify fun m hm => hm.congr rfl rfl rfl (fun hc => hc) rfl
      refine hstatics.agree.bind fun _ => ?_
      cases c.staticInitializer? with
      | none => exact (Fair.pure _).agree
      | some initializer =>
        refine Agree.bind (fun m hm => ?_) fun _ => (Fair.pure _).agree
        exact withParked_same hm (hk.call free initializer.id [] _ hm.saveStack)
          (fun m' h' => h'.swapBack ht) fun m' h' => h'.swapBack ht
    · exact (Fair.pure _).agree

theorem ensureInitialized_agree (hk : k.Fair l) (ht : t ∈ free) (id : ClassId) :
    Agree (some t) free (ensureInitialized k t id) (ensureInitialized l t id) := by
  have hall : ∀ ids, Agree (some t) free (initializeAll k t ids) (initializeAll l t ids) := by
    intro ids
    induction ids with
    | nil => exact (Fair.pure _).agree
    | cons id rest ih => exact (initializeOne_agree hk ht id).bind fun _ => ih
  unfold ensureInitialized
  refine Fair.get.agree.bind fun m => ?_
  split
  · exact (Fair.onClasses (ClassTable.ancestry_asks id)).agree.bind fun ids => hall _
  · exact (Fair.pure _).agree

end Initializers

section Starting

variable {t : ThreadId} {free : List ThreadId} {m : Machine} {k l : Nested}

theorem threadDied_poised {running : Option ThreadId} {u : ThreadId} (h : Poised running (u :: free) m)
    (hne : running ≠ some u) (hnot : u ∉ free) (hframes : m.framesOf running u = []) (exception : Ref) :
    Ends (threadDied u exception m) (fun _ m' => Poised running free m')
      (Trap.Leaves (Poised running free)) := by
  have hended := h.terminate hne hnot hframes
  unfold threadDied
  rw [bind_get]
  cases m.config.uncaught with
  | terminateThread => exact hended.congr rfl rfl rfl (fun hc => hc) rfl
  | abort => trivial

theorem Poised.nextId_not_mem {running : Option ThreadId} (h : Poised running free m) :
    m.scheduler.nextId ∉ free := by
  intro hmem
  obtain ⟨r, hr⟩ := h.free _ hmem
  have hnone := h.get?_nextId
  rw [show m.scheduler.get? m.scheduler.nextId = some r from hr.record] at hnone
  cases hnone

/-- The number of a new thread, which is free and has no frames. -/
theorem spawnThread_poised {running : Option ThreadId} (h : Poised running free m) (object : Ref) :
    Ends (spawnThread object m)
      (fun started m' => started = m.scheduler.nextId ∧ Poised running (started :: free) m' ∧
        m'.framesOf running started = [] ∧ m'.active = m.active)
      (Trap.Leaves fun _ => False) := by
  unfold spawnThread
  split
  · trivial
  · next hn =>
    have hspawned := h.spawn hn object
    refine ⟨rfl, hspawned, ?_, rfl⟩
    refine framesOf_record (m := { m with scheduler := (m.scheduler.spawn object []).2 })
      (r := { id := m.scheduler.nextId, object := object, stack := [] }) (h.running_ne h.get?_nextId) ?_
    exact (Scheduler.get?_spawn m.scheduler object [] m.scheduler.nextId).trans (if_pos rfl)

theorem framesOf_saveStack {r : Thread FrameStack} (hr : m.scheduler.get? t = some r) {u : ThreadId}
    (hu : u ≠ t) : (saveStack t m).framesOf none u = m.framesOf (some t) u := by
  unfold framesOf
  rw [if_neg (by simp), if_neg (by simpa using Ne.symm hu)]
  have hget := get?_restack hr m.active [] u
  rw [if_neg (Ne.symm hu)] at hget
  exact congrArg (fun o : Option (Thread FrameStack) => (o.map (·.stack)).getD []) hget

theorem framesOf_swapBack (h : Poised none free m) (ht : t ∈ free) {u : ThreadId} (hu : u ≠ t) :
    (swapStack t m).framesOf (some t) u = m.framesOf none u := by
  obtain ⟨r, hr⟩ := h.free t ht
  rw [swapStack_of_idle h, takeStack_eq hr.record]
  unfold framesOf
  rw [if_neg (by simpa using Ne.symm hu), if_neg (by simp)]
  have hget := get?_restack (m := m) hr.record [] r.stack u
  rw [if_neg (Ne.symm hu)] at hget
  exact congrArg (fun o : Option (Thread FrameStack) => (o.map (·.stack)).getD []) hget

/-- A started thread is entered, or dies before it has a frame. -/
theorem threadStart_agree (hk : k.Fair l) (object : Ref) :
    Agree (some t) (t :: free) (threadStart k t object) (threadStart l t object) := by
  unfold threadStart
  split
  · exact raiseNullPointer_fair.agree
  · refine Fair.get.agree.bind fun m => ?_
    split
    · exact (raise_fair _ _).agree
    · refine Fair.get.agree.bind fun m' => (selectVirtual_fair _ _).agree.bind fun run => ?_
      intro m hm
      have hspawn := (spawnThread_poised hm object).mono (fun _ _ h => h)
        fun e m' (h : e.Leaves (fun _ => False) m') => h.mono (Q := Poised (some t) (t :: free)) fun _ => False.elim
      refine (Same.of_ends hspawn).bind fun started m₁ ⟨hnew, h₁, hframes, _⟩ => ?_
      have hfresh : started ∉ t :: free := hnew ▸ hm.nextId_not_mem
      have hne : started ≠ t := fun he => hfresh (he ▸ List.mem_cons_self)
      obtain ⟨r, hr, _⟩ := h₁.home
      have henter := hk.enter (t :: free) started run [.ref object] (saveStack t m₁) h₁.saveStack hfresh
        ((framesOf_saveStack hr hne).trans hframes)
      have hparked := withParked_same (t := t) h₁ henter (R := Poised (some t) (t :: free))
        (S := fun m' => Poised (some t) (started :: t :: free) m' ∧ m'.framesOf (some t) started = [])
        (fun m' h' => h'.swapBack List.mem_cons_self) fun m' ⟨h', hframes'⟩ => by
          have ht : t ∈ started :: t :: free := List.mem_cons_of_mem _ List.mem_cons_self
          exact ⟨h'.swapBack ht, (framesOf_swapBack h' ht hne).trans hframes'⟩
      refine hparked.attempt.bind fun result m₂ h₂ => ?_
      cases result with
      | ok u => exact .of_ends h₂
      | error trap =>
        cases trap with
        | exception exception =>
          exact .of_ends (threadDied_poised h₂.1 (by simpa using Ne.symm hne) hfresh h₂.2 exception)
        | fatal error => exact .of_ends trivial
        | outOfFuel => exact .of_ends trivial

end Starting

section Natives

variable {t : ThreadId} {free : List ThreadId} {m : Machine} {k l : Nested}

theorem callBuiltin_same (hk : k.Fair l) (hm : Poised (some t) (t :: free) m) (hnot : t ∉ free)
    (args : List Value) (b : Builtin) :
    Same (callBuiltin k t args b) (callBuiltin l t args b) m (fun _ m' => Parks t free m')
      (Trap.Leaves (Poised (some t) (t :: free))) := by
  have hfair : ∀ {x : MachineM (Option Value)}, Fair (some t) (t :: free) x →
      Same x x m (fun _ m' => Parks t free m') (Trap.Leaves (Poised (some t) (t :: free))) :=
    fun hx => .of_ends ((hx m hm).mono (fun _ _ h => .inl h) fun _ _ h => h)
  have ht : t ∈ t :: free := List.mem_cons_self
  cases b with
  | objectWait =>
    refine .of_ends ((refArgument_fair args 0 m hm).bind fun object m₁ h₁ => ?_)
    have hwait : ∀ millis nanos m', Poised (some t) (t :: free) m' →
        Ends ((objectWait t object millis nanos >>= fun _ => pure (none : Option Value)) m')
          (fun _ m' => Parks t free m') (Trap.Leaves (Poised (some t) (t :: free))) :=
      fun millis nanos m' h' => (objectWait_parks h' hnot object millis nanos).bind fun _ _ h => h
    have hnanos : ∀ millis m', Poised (some t) (t :: free) m' →
        Ends ((if 2 < args.length then intArgument args 2 >>= fun nanos =>
            objectWait t object millis nanos >>= fun _ => pure none
          else (pure 0 : MachineM Int32) >>= fun nanos =>
            objectWait t object millis nanos >>= fun _ => pure (none : Option Value)) m')
          (fun _ m' => Parks t free m') (Trap.Leaves (Poised (some t) (t :: free))) := by
      intro millis m' h'
      split
      · exact (intArgument_fair args 2 m' h').bind fun nanos m'' h'' => hwait millis nanos m'' h''
      · exact hwait millis 0 m' h'
    dsimp only
    split
    · exact (longArgument_fair args 1 m₁ h₁).bind fun millis m' h' => hnanos millis m' h'
    · exact hnanos 0 m₁ h₁
  | objectNotify =>
    refine .of_ends ((refArgument_fair args 0 m hm).bind fun object m₁ h₁ => ?_)
    exact (notify_poised h₁ hnot object).bind fun _ _ h => .inl h
  | objectNotifyAll =>
    refine .of_ends ((refArgument_fair args 0 m hm).bind fun object m₁ h₁ => ?_)
    exact (notifyAll_poised h₁ hnot object).bind fun _ _ h => .inl h
  | objectHashCode => exact hfair ((refArgument_fair args 0).bind fun _ => .pure _)
  | systemIdentityHashCode => exact hfair ((refArgument_fair args 0).bind fun _ => .pure _)
  | objectGetClass =>
    exact hfair ((refArgument_fair args 0).bind fun object => (classOf_fair object).bind fun id =>
      (mirror_fair id).bind fun _ => .pure _)
  | threadSleep =>
    exact hfair ((longArgument_fair args 0).bind fun millis => (threadSleep_fair ht millis).bind fun _ => .pure _)
  | threadYield => exact hfair (requestYield_fair.bind fun _ => .pure _)
  | threadCurrentThread => exact hfair ((threadObject_fair t).bind fun _ => .pure _)
  | threadStart =>
    refine (Same.of_ends (refArgument_fair args 0 m hm)).bind fun object m₁ h₁ => ?_
    exact (threadStart_agree hk object m₁ h₁).bind fun _ m₂ h₂ => .of_ends (.inl h₂)
  | threadInterrupt =>
    refine hfair (Fair.get.bind fun m => (refArgument_fair args 0).bind fun object => ?_)
    cases m.threadOf? object with
    | none => exact .pure _
    | some target => exact (interrupt_fair target).bind fun _ => .pure _
  | threadIsAlive =>
    exact hfair ((refArgument_fair args 0).bind fun _ => Fair.get.bind fun _ => .pure _)
  | threadJoin =>
    exact hfair ((refArgument_fair args 0).bind fun object => (threadJoin_fair ht object).bind fun _ => .pure _)
  | systemGc => exact hfair (collectGarbage_fair.bind fun _ => .pure _)
  | systemArraycopy =>
    exact hfair ((refArgument_fair args 0).bind fun source => (intArgument_fair args 1).bind fun _ =>
      (refArgument_fair args 2).bind fun target => (intArgument_fair args 3).bind fun _ =>
        (intArgument_fair args 4).bind fun _ => (arrayCopy_fair _ _ _ _ _).bind fun _ => .pure _)
  | systemCurrentTimeMillis => exact hfair (Fair.get.bind fun _ => .pure _)

theorem runNative_same (hk : k.Fair l) (hm : Poised (some t) (t :: free) m) (hnot : t ∉ free)
    (method : Method) (args : List Value) (binding : NativeBinding) :
    Same (runNative k t method args binding) (runNative l t method args binding) m
      (fun _ m' => Parks t free m') (Trap.Leaves (Poised (some t) (t :: free))) := by
  cases binding with
  | builtin b => exact callBuiltin_same hk hm hnot args b
  | unbound => exact .of_ends (raise_poised hm _ _)
  | host id =>
    refine Same.get (.of_ends ?_)
    rw [hm.noHost id]
    trivial

/-- A thread that has paused gets its result while it has frames to get it. -/
theorem deliver_paused (hm : Poised (some t) free m) (hactive : m.active ≠ []) (result : Option Value) :
    Ends (deliver result m) (fun flow m' => flow = .next ∧ Poised (some t) free m')
      (Trap.Leaves (Poised (some t) (t :: free))) := by
  unfold deliver
  rw [bind_get]
  cases hfront : m.active with
  | nil => exact absurd hfront hactive
  | cons f rest =>
    cases result with
    | none => exact ⟨rfl, hm⟩
    | some v =>
      have hpush : push v m = .ok () { m with active := { f with stack := v :: f.stack } :: rest } := by
        unfold push onTop
        rw [hfront]
        rfl
      have hpushed := (Fair.onTop (Frame.push_bound v) m hm).of_ok hpush
      show Ends ((push v >>= fun _ => pure Flow.next) m) _ _
      rw [bind_of_ok hpush]
      exact ⟨rfl, hpushed⟩

/-- A native that has run hands its result over, or its thread pauses. -/
theorem finishNative_goes (hm : Parks t free m) (result : Option Value) :
    Ends ((takePause t >>= fun paused => do
      match ← deliver result with
      | .next => return if paused then .pause else .next
      | flow => return flow) m)
      (Flow.Goes t free) (Trap.Leaves (Poised (some t) (t :: free))) := by
  let m₁ : Machine := { m with yieldRequested := false }
  let paused := m.yieldRequested || ((m.scheduler.get? t).map Thread.isDetached).getD true
  show Ends ((deliver result >>= fun flow => match flow with
    | .next => return if paused then .pause else .next
    | flow => return flow) m₁) _ _
  have hcongr : ∀ {free'}, Poised (some t) free' m → Poised (some t) free' m₁ := fun h =>
    h.congr rfl rfl rfl (fun hc => hc) rfl
  rcases hm with hm | ⟨hm, hactive, r, hr, hdetached⟩
  · refine (deliver_goes (hcongr hm) result).bind fun flow m₂ h₂ => ?_
    cases flow with
    | next =>
      show Flow.Goes t free (if paused then .pause else .next) m₂
      split
      · exact Poised.forget h₂
      · exact h₂
    | pause => exact h₂
    | finished v => exact h₂
  · have hpaused : paused = true := by
      show (m.yieldRequested || ((m.scheduler.get? t).map Thread.isDetached).getD true) = true
      rw [hr]
      simp [hdetached]
    refine (deliver_paused (hcongr hm) hactive result).bind fun flow m₂ ⟨hflow, h₂⟩ => ?_
    subst hflow
    show Flow.Goes t free (if paused then .pause else .next) m₂
    rw [hpaused]
    exact h₂

theorem callNative_same (hk : k.Fair l) (hm : Poised (some t) (t :: free) m) (hnot : t ∉ free)
    (method : Method) (args : List Value) :
    Same (callNative k t method args) (callNative l t method args) m (Flow.Goes t free)
      (Trap.Leaves (Poised (some t) (t :: free))) := by
  unfold callNative
  refine Same.get ?_
  have hbind : Fair (some t) (t :: free) (onLinker (Linker.bindNative m.natives.find? method.id)) :=
    .onLinker fun l hl => Linker.bindNative_unmonitored hl _ _
  refine (Same.of_ends (hbind m hm)).bind fun binding m₁ h₁ => ?_
  refine (runNative_same hk h₁ hnot method args _).bind fun result m₂ h₂ => ?_
  exact .of_ends (finishNative_goes h₂ result)

end Natives

section Invocation

variable {t : ThreadId} {free : List ThreadId} {m : Machine} {k l : Nested}

theorem Poised.known (hm : Poised (some t) free m) : t < m.scheduler.nextId := by
  obtain ⟨r, hr, _⟩ := hm.home
  exact hm.orderly.numbered t r hr

/-- The frame of a call that has no monitor yet. -/
theorem Poised.call (hm : Poised (some t) free m) {f : Frame} (hf : f.monitor = none)
    (hcode : f.code.isUnmonitored = true) : Poised (some t) free { m with active := f :: m.active } := by
  refine hm.frames (fun o => ?_) (fun hold g hg => ?_) fun hnone => by cases hnone
  · rw [levels_cons, hf]
    simp
  · rcases List.mem_cons.1 hg with rfl | hg
    · exact hcode
    · exact hold g hg

/-- The object that stands for a class is found or made, or the frame in front is taken back. -/
theorem orPopFrame_mirror_poised (hm : Poised (some t) free m) {f : Frame} {rest : FrameStack}
    (hactive : m.active = f :: rest) (hf : f.monitor = none) (id : ClassId) :
    Ends (orPopFrame (mirror id) m) (fun _ m' => Poised (some t) free m' ∧ m'.active = f :: rest)
      (Trap.Leaves (Poised (some t) free)) := by
  have hfair := mirror_fair id m hm
  have hquiet := mirror_quiet id m hm.known
  unfold orPopFrame
  cases hrun : mirror id m with
  | ok r m' => exact ⟨hfair.of_ok hrun, (hquiet.of_ok hrun).active.trans hactive⟩
  | error e m' =>
    cases e with
    | fatal error => trivial
    | outOfFuel => trivial
    | exception r =>
      have hactive' : m'.active = f :: rest := (hquiet.of_error hrun).1.active.trans hactive
      have hleft : Poised (some t) free m' := hfair.of_error hrun
      have hdropped := hleft.drop hactive' hf
      show Poised (some t) free { m' with active := m'.active.tail }
      rw [hactive']
      exact hdropped

theorem callBytecode_goes (hm : Poised (some t) (t :: free) m) (hnot : t ∉ free) (method : Method)
    (args : List Value) :
    Ends (callBytecode t method args m) (Flow.Goes t free) (Trap.Leaves (Poised (some t) (t :: free))) := by
  unfold callBytecode
  rw [bind_of_ok (show onLinker (Linker.link method.id) m = .ok (Linker.link method.id m.linker).1
    { m with linker := (Linker.link method.id m.linker).2 } from rfl)]
  have hlinked : Poised (some t) (t :: free) { m with linker := (Linker.link method.id m.linker).2 } :=
    hm.congr rfl rfl rfl (Linker.link_grows method.id m.linker).classes.unmonitored rfl
  cases hlink : (Linker.link method.id m.linker).1 with
  | error e => trivial
  | ok code =>
    have hcode : code.isUnmonitored = true := Linker.link_isUnmonitored hm.classes hlink
    dsimp only
    rw [bind_get]
    split
    · exact raise_poised hlinked _ _
    · unfold pushFrame
      rw [bind_modify]
      have hcalled := hlinked.call (f := Frame.ofCall method.id code args) rfl hcode
      split
      · split
        · refine (orPopFrame_mirror_poised hcalled rfl rfl method.id.owner).bind
            fun object m₂ ⟨h₂, hactive⟩ => ?_
          exact enterMonitor_goes h₂ hnot hactive rfl object
        · exact enterMonitor_goes hcalled hnot rfl rfl _
      · exact hcalled

theorem invokeMethod_same (hk : k.Fair l) (hm : Poised (some t) (t :: free) m) (hnot : t ∉ free)
    (method : MethodId) (args : List Value) :
    Same (invokeMethod k t method args) (invokeMethod l t method args) m (Flow.Goes t free)
      (Trap.Leaves (Poised (some t) (t :: free))) := by
  unfold invokeMethod
  refine Same.get ?_
  cases m.classes.method? method with
  | none => exact .of_ends trivial
  | some found =>
    dsimp only
    cases found.body with
    | abstract => exact .of_ends (raise_poised hm _ _)
    | native binding => exact callNative_same hk hm hnot found args
    | bytecode raw linked => exact .of_ends (callBytecode_goes hm hnot found args)

end Invocation

end Machine

end ClassMachine
