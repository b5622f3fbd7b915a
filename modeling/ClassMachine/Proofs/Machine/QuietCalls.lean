import ClassMachine.Proofs.Machine.Quiet

/-!
Field and array access, initializers and native methods leave frames alone, as long as the calls
nested in them do.
-/
namespace ClassMachine

/-- Nested calls that give the running thread its frames back and spare all other threads. A thread
that is started gets frames of its own. -/
structure Nested.Quiet (k : Nested) : Prop where
  call : ∀ method args m, Stateful.Ends (k.call method args m) (fun _ m' => m.Keeps m')
    fun e m' => m.Keeps m' ∧ e.isFlow = false
  enter : ∀ thread method args m, thread < m.scheduler.nextId →
    Stateful.Ends (k.enter thread method args m)
      (fun _ m' => m'.active = m.active ∧ m.scheduler.Spares (· ≠ thread) m'.scheduler)
      fun e m' => (m'.active = m.active ∧ m.scheduler.Spares (· ≠ thread) m'.scheduler) ∧
        e.isFlow = false

namespace Machine
open Stateful

variable {α : Type} {t : ThreadId} {k : Nested}

theorem classOf_quiet (object : Ref) : Quiet t (classOf object) := by
  unfold classOf
  split
  · exact raiseNullPointer_quiet
  · refine Quiet.get.bind fun m => ?_
    split
    · exact .pure _
    · exact .inconsistent rfl

theorem fieldSlot_quiet (object : Ref) (name descriptor : String) :
    Quiet t (fieldSlot object name descriptor) := by
  unfold fieldSlot
  refine (classOf_quiet object).bind fun id => (Quiet.onLinker _).bind fun _ =>
    (Quiet.onClasses _).bind fun found => Quiet.get.bind fun m => ?_
  dsimp only
  split
  · exact .pure _
  · exact raise_quiet _ _

theorem readField_quiet (object : Ref) (slot : Nat) : Quiet t (readField object slot) := by
  unfold readField
  refine Quiet.get.bind fun m => ?_
  split
  · exact .pure _
  · exact .inconsistent rfl

theorem writeField_quiet (object : Ref) (slot : Nat) (v : Value) :
    Quiet t (writeField object slot v) := by
  unfold writeField
  refine Quiet.get.bind fun m => ?_
  split
  · exact .updateHeap _
  · exact .inconsistent rfl

theorem elementsOf_quiet (array : Ref) : Quiet t (elementsOf array) := by
  unfold elementsOf
  split
  · exact raiseNullPointer_quiet
  · refine Quiet.get.bind fun m => ?_
    split
    · exact .pure _
    · exact .inconsistent rfl

theorem arrayLength_quiet (array : Ref) : Quiet t (arrayLength array) :=
  (elementsOf_quiet array).bind fun _ => .pure _

theorem loadElement_quiet (array : Ref) (index : Int32) : Quiet t (loadElement array index) := by
  unfold loadElement
  refine (elementsOf_quiet array).bind fun elements => ?_
  split
  · exact .pure _
  · exact raise_quiet _ _

theorem accepts_quiet (element : Option ElementType) (v : Value) : Quiet t (accepts element v) := by
  unfold accepts
  split
  · refine Quiet.get.bind fun m => ?_
    split
    · exact .onClasses _
    · exact .pure _
  · exact .pure _

theorem storeElement_quiet (array : Ref) (index : Int32) (v : Value) :
    Quiet t (storeElement array index v) := by
  unfold storeElement
  refine (elementsOf_quiet array).bind fun elements => ?_
  split
  · exact raise_quiet _ _
  · refine Quiet.get.bind fun m => (accepts_quiet _ v).bind fun accepted => ?_
    split
    · exact .updateHeap _
    · exact Quiet.get.bind fun _ => raise_quiet _ _

/-- The frames of a thread come back from its record as they went there. -/
theorem swapStack_spares {P : ThreadId → Prop} {m m' : Machine} (hm : t < m.scheduler.nextId)
    (hP : P t) (ha : m'.active = (swapStack t m).active)
    (hs : (swapStack t m).scheduler.Spares P m'.scheduler) :
    (swapStack t m').active = m.active ∧ m.scheduler.Spares P (swapStack t m').scheduler := by
  have hself := hs.record t
  cases hr : m.scheduler.get? t with
  | none =>
    have hswap : swapStack t m = m := by simp [swapStack, hr]
    rw [hswap] at ha hs hself
    have hnone : m'.scheduler.get? t = none := by
      have h := hself hm hP
      rw [hr] at h
      generalize m'.scheduler.get? t = after at *
      cases h
      rfl
    have hswap' : swapStack t m' = m' := by simp [swapStack, hnone]
    rw [hswap']
    exact ⟨ha, hs⟩
  | some r =>
    have hswap : swapStack t m =
        { m with
          scheduler := m.scheduler.update t fun t => { t with stack := m.active }
          active := r.stack } := by
      simp [swapStack, hr]
    rw [hswap] at ha hs hself
    have hlt : t < (m.scheduler.update t fun t => { t with stack := m.active }).nextId := hm
    have hrec : ∃ r', m'.scheduler.get? t = some r' ∧
        Thread.Intact { r with stack := m.active } r' := by
      have h := hself hlt hP
      rw [Scheduler.get?_update, if_pos rfl, hr] at h
      generalize m'.scheduler.get? t = after at *
      cases h with
      | some hint => exact ⟨_, rfl, hint⟩
    obtain ⟨r', hr', hint⟩ := hrec
    have hswap' : swapStack t m' =
        { m' with
          scheduler := m'.scheduler.update t fun t => { t with stack := m'.active }
          active := r'.stack } := by
      simp [swapStack, hr']
    rw [hswap']
    refine ⟨hint.stack, hs.nextId, fun id hid hPid => ?_⟩
    have h := hs.record id hid hPid
    rw [Scheduler.get?_update] at h
    show Option.Rel _ _ ((m'.scheduler.update t fun t => { t with stack := m'.active }).get? id)
    rw [Scheduler.get?_update]
    split
    · next heq =>
      subst heq
      rw [hr, hr']
      exact .some ⟨ha, fun hobj => hint.object hobj⟩
    · next hne =>
      rw [if_neg hne] at h
      exact h

/-- What leaves the frames alone while they are parked gives them back. -/
theorem withParked_ends {x : MachineM α} {P : ThreadId → Prop} {E : Trap → Prop} {m : Machine}
    (hm : t < m.scheduler.nextId) (hP : P t)
    (hx : Ends (x (swapStack t m))
      (fun _ m' => m'.active = (swapStack t m).active ∧
        (swapStack t m).scheduler.Spares P m'.scheduler)
      fun e m' => (m'.active = (swapStack t m).active ∧
        (swapStack t m).scheduler.Spares P m'.scheduler) ∧ E e) :
    Ends (withParked t x m) (fun _ m' => m'.active = m.active ∧ m.scheduler.Spares P m'.scheduler)
      fun e m' => (m'.active = m.active ∧ m.scheduler.Spares P m'.scheduler) ∧ E e := by
  unfold withParked
  rw [bind_modify]
  unfold ensuring
  cases hr : x (swapStack t m) with
  | ok a m' =>
    obtain ⟨ha, hs⟩ := hx.of_ok hr
    exact swapStack_spares hm hP ha hs
  | error e m' =>
    obtain ⟨⟨ha, hs⟩, he⟩ := hx.of_error hr
    exact ⟨swapStack_spares hm hP ha hs, he⟩

theorem withParked_quiet {x : MachineM α}
    (hx : ∀ m, Ends (x m) (fun _ m' => m.Keeps m') fun e m' => m.Keeps m' ∧ e.isFlow = false) :
    Quiet t (withParked t x) := by
  intro m hm
  refine (withParked_ends (P := fun _ => True) (E := fun e => e.isFlow = false) hm trivial
    ((hx (swapStack t m)).mono ?_ ?_)).mono ?_ ?_
  · exact fun _ _ h => ⟨h.active, h.threads⟩
  · exact fun _ _ h => ⟨⟨h.1.active, h.1.threads⟩, h.2⟩
  · exact fun _ _ h => ⟨h.1, h.2⟩
  · exact fun _ _ h => ⟨⟨h.1.1, h.1.2⟩, h.2⟩

theorem initializeOne_quiet (hk : k.Quiet) (id : ClassId) : Quiet t (initializeOne k t id) := by
  unfold initializeOne
  refine (Quiet.onLinker _).bind fun found => ?_
  cases found with
  | none => exact .pure _
  | some c =>
    refine (Quiet.onClasses _).bind fun taken => ?_
    split
    · refine Quiet.bind (.modify fun _ => .of_eq rfl rfl) fun _ => ?_
      split
      · exact .pure _
      · exact (withParked_quiet (hk.call _ _)).bind fun _ => .pure _
    · exact .pure _

theorem initializeAll_quiet (hk : k.Quiet) (ids : List ClassId) :
    Quiet t (initializeAll k t ids) := by
  induction ids with
  | nil => exact .pure _
  | cons id rest ih => exact (initializeOne_quiet hk id).bind fun _ => ih

theorem ensureInitialized_quiet (hk : k.Quiet) (id : ClassId) :
    Quiet t (ensureInitialized k t id) := by
  unfold ensureInitialized
  refine Quiet.get.bind fun m => ?_
  split
  · exact (Quiet.onClasses _).bind fun _ => initializeAll_quiet hk _
  · exact .pure _

theorem argument_quiet (args : List Value) (index : Nat) : Quiet t (argument args index) := by
  unfold argument
  split
  · exact .pure _
  · exact .inconsistent rfl

theorem refArgument_quiet (args : List Value) (index : Nat) : Quiet t (refArgument args index) :=
  (argument_quiet args index).bind fun _ => .pure _

theorem intArgument_quiet (args : List Value) (index : Nat) : Quiet t (intArgument args index) :=
  (argument_quiet args index).bind fun _ => .pure _

theorem longArgument_quiet (args : List Value) (index : Nat) : Quiet t (longArgument args index) :=
  (argument_quiet args index).bind fun _ => .pure _

theorem setInterruptible_quiet (thread : ThreadId) : Quiet t (setInterruptible thread) :=
  .updateThread fun _ => ⟨rfl, fun _ => rfl⟩

theorem checkInterrupt_quiet (thread : ThreadId) : Quiet t (checkInterrupt thread) := by
  unfold checkInterrupt
  refine (Quiet.onScheduler fun s => (s.takeInterrupt_wakes thread).alike).bind fun interrupted => ?_
  split
  · exact raise_quiet _ _
  · exact .pure _

theorem requestYield_quiet : Quiet t requestYield := .modify fun _ => .of_eq rfl rfl

theorem objectWait_quiet (thread : ThreadId) (object : Ref) (millis : Int64) (nanos : Int32) :
    Quiet t (objectWait thread object millis nanos) := by
  unfold objectWait
  split
  · exact raise_quiet _ _
  · split
    · exact raise_quiet _ _
    · refine Quiet.get.bind fun m => ?_
      split
      · exact raise_quiet _ _
      · exact (checkInterrupt_quiet thread).bind fun _ =>
          (synchronize_quiet (Sync.wait_tame _ _ _)).bind fun _ => setInterruptible_quiet thread

theorem threadSleep_quiet (thread : ThreadId) (millis : Int64) :
    Quiet t (threadSleep thread millis) := by
  unfold threadSleep
  split
  · exact raise_quiet _ _
  · refine (checkInterrupt_quiet thread).bind fun _ => ?_
    split
    · exact requestYield_quiet
    · exact (Quiet.onScheduler fun s => s.detach_alike thread _).bind fun _ =>
        setInterruptible_quiet thread

theorem threadJoin_quiet (thread : ThreadId) (object : Ref) : Quiet t (threadJoin thread object) := by
  unfold threadJoin
  refine Quiet.get.bind fun m => (checkInterrupt_quiet thread).bind fun _ => ?_
  split
  · exact .pure _
  · next target _ =>
    refine (Quiet.onScheduler fun s => s.join_alike thread target).bind fun joined => ?_
    split
    · exact setInterruptible_quiet thread
    · exact .pure _

theorem selectVirtual_quiet (object : Ref) (signature : SignatureId) :
    Quiet t (selectVirtual object signature) := by
  unfold selectVirtual
  refine (classOf_quiet object).bind fun id => (Quiet.onLinker _).bind fun found => ?_
  cases found with
  | none => exact .inconsistent rfl
  | some c =>
    dsimp only
    split
    · exact .pure _
    · exact Quiet.get.bind fun m => raise_quiet _ _

theorem threadDied_keeps (thread : ThreadId) (exception : Ref) (m : Machine) :
    Ends (threadDied thread exception m) (fun _ m' => m.Keeps m')
      fun e m' => m.Keeps m' ∧ e.isFlow = false := by
  have hkeeps : ∀ m' : Machine, m'.active = m.active →
      m'.scheduler = (m.scheduler.terminate thread).2 → m.Keeps m' := by
    intro m' ha hs
    refine ⟨ha, ?_⟩
    rw [hs]
    exact (m.scheduler.terminate_alike thread).spares _
  unfold threadDied
  rw [bind_get]
  cases hu : m.config.uncaught with
  | terminateThread => exact hkeeps _ rfl rfl
  | abort => exact ⟨hkeeps _ rfl rfl, rfl⟩

/-- A number that was not given out yet goes to the new thread. -/
theorem spawnThread_ends (object : Ref) (m : Machine) :
    Ends (spawnThread object m)
      (fun started m' => started = m.scheduler.nextId ∧ m.scheduler.nextId < m'.scheduler.nextId ∧
        m'.scheduler = (m.scheduler.spawn object []).2 ∧ m.Keeps m')
      fun e m' => m' = m ∧ e = .outOfFuel := by
  unfold spawnThread
  split
  · exact ⟨rfl, rfl⟩
  · next hn =>
    have hlt := Scheduler.lt_nextId_spawn hn object []
    refine ⟨rfl, hlt, rfl, rfl, UInt32.le_of_lt hlt, fun id hid _ => ?_⟩
    show Option.Rel _ _ ((m.scheduler.spawn object []).2.get? id)
    rw [Scheduler.get?_spawn, if_neg (fun he => by rw [he] at hid; exact UInt32.lt_irrefl id hid)]
    exact (Scheduler.Spares.refl (fun _ => True) m.scheduler).record id hid trivial

theorem threadStart_quiet (hk : k.Quiet) (object : Ref) : Quiet t (threadStart k t object) := by
  unfold threadStart
  split
  · exact raiseNullPointer_quiet
  · refine Quiet.get.bind fun m => ?_
    split
    · exact raise_quiet _ _
    · refine Quiet.get.bind fun m' => (selectVirtual_quiet _ _).bind fun run => ?_
      intro m hm
      cases hspawn : spawnThread object m with
      | error e m₁ =>
        rw [bind_of_error hspawn]
        obtain ⟨rfl, rfl⟩ := (spawnThread_ends object m).of_error hspawn
        exact ⟨.refl _, rfl⟩
      | ok started m₁ =>
        rw [bind_of_ok hspawn]
        obtain ⟨rfl, hlt, _, hkeep⟩ := (spawnThread_ends object m).of_ok hspawn
        have hne : t ≠ m.scheduler.nextId := fun he => by
          rw [← he] at hm
          exact UInt32.lt_irrefl t hm
        have hswap : (swapStack t m₁).scheduler.nextId = m₁.scheduler.nextId := by
          unfold swapStack
          split <;> rfl
        have hpark := withParked_ends (UInt32.lt_trans hm hlt) hne
          (hk.enter m.scheduler.nextId run [.ref object] (swapStack t m₁) (by rw [hswap]; exact hlt))
        -- the new thread is none of those that were there
        have hall : ∀ m₂ : Machine, m₂.active = m₁.active ∧
            m₁.scheduler.Spares (· ≠ m.scheduler.nextId) m₂.scheduler → m.Keeps m₂ := by
          intro m₂ ⟨ha, hs⟩
          refine ⟨ha.trans hkeep.active, UInt32.le_trans hkeep.threads.nextId hs.nextId, ?_⟩
          intro id hid _
          have hidne : id ≠ m.scheduler.nextId := fun he => by
            rw [he] at hid
            exact UInt32.lt_irrefl _ hid
          have hmono : m.scheduler.Spares (· ≠ m.scheduler.nextId) m₁.scheduler :=
            hkeep.threads.mono fun _ _ _ => trivial
          exact (hmono.trans hs).record id hid hidne
        refine (attempt_ends hpark).bind fun result m₂ h₂ => ?_
        cases result with
        | ok u => exact hall m₂ h₂
        | error e =>
          obtain ⟨hs, he⟩ := h₂
          have hkeep₂ := hall m₂ hs
          cases e with
          | exception exception =>
            exact (threadDied_keeps m.scheduler.nextId exception m₂).mono
              (fun _ _ h => hkeep₂.trans h) fun _ _ h => ⟨hkeep₂.trans h.1, h.2⟩
          | fatal error => exact ⟨hkeep₂, he⟩
          | outOfFuel => exact ⟨hkeep₂, rfl⟩

theorem acceptedPart_quiet (element : ElementType) (values : List Value) :
    Quiet t (acceptedPart element values) := by
  induction values with
  | nil => exact .pure _
  | cons v rest ih =>
    unfold acceptedPart
    refine (accepts_quiet _ _).bind fun accepted => ?_
    split
    · exact ih.bind fun _ => .pure _
    · exact .pure _

theorem writeElements_quiet (array : Ref) (index : Nat) (values : List Value) :
    Quiet t (writeElements array index values) := by
  induction values generalizing index with
  | nil => exact .pure _
  | cons v rest ih => exact (Quiet.updateHeap _).bind fun _ => ih (index + 1)

theorem arrayCopy_quiet (source : Ref) (sourcePos : Int32) (target : Ref) (targetPos length : Int32) :
    Quiet t (arrayCopy source sourcePos target targetPos length) := by
  unfold arrayCopy
  split
  · exact raiseNullPointer_quiet
  · refine Quiet.get.bind fun m => ?_
    split
    · split
      · exact raise_quiet _ _
      · split
        · exact raise_quiet _ _
        · refine (acceptedPart_quiet _ _).bind fun accepted =>
            (writeElements_quiet _ _ _).bind fun _ => ?_
          split
          · exact raise_quiet _ _
          · exact .pure _
    · exact raise_quiet _ _

theorem collectGarbage_quiet : Quiet t collectGarbage := fun _ _ => Keeps.of_eq rfl rfl

theorem callBuiltin_quiet (hk : k.Quiet) (args : List Value) (b : Builtin) :
    Quiet t (callBuiltin k t args b) := by
  have hpure : ∀ {β : Type} (x : MachineM β), Quiet t x → ∀ v : Option Value,
      Quiet t (x >>= fun _ => (Pure.pure v : MachineM (Option Value))) := fun x hx v =>
    hx.bind fun _ => .pure v
  cases b with
  | objectWait =>
    refine (refArgument_quiet _ _).bind fun object => ?_
    have hnanos : ∀ millis, Quiet t (if 2 < args.length then
        intArgument args 2 >>= fun nanos => objectWait t object millis nanos >>= fun _ => Pure.pure none
        else (Pure.pure 0 : MachineM Int32) >>= fun nanos =>
          objectWait t object millis nanos >>= fun _ => Pure.pure (none : Option Value)) := by
      intro millis
      split
      · exact (intArgument_quiet _ _).bind fun _ => hpure _ (objectWait_quiet _ _ _ _) _
      · exact (Quiet.pure _).bind fun _ => hpure _ (objectWait_quiet _ _ _ _) _
    dsimp only
    split
    · exact (longArgument_quiet _ _).bind hnanos
    · exact (Quiet.pure _).bind hnanos
  | objectNotify =>
    exact (refArgument_quiet _ _).bind fun _ => hpure _ (synchronize_quiet (Sync.notify_tame _ _)) _
  | objectNotifyAll =>
    exact (refArgument_quiet _ _).bind fun _ => hpure _ (synchronize_quiet (Sync.notifyAll_tame _ _)) _
  | objectHashCode => exact (refArgument_quiet _ _).bind fun _ => .pure _
  | systemIdentityHashCode => exact (refArgument_quiet _ _).bind fun _ => .pure _
  | objectGetClass =>
    exact (refArgument_quiet _ _).bind fun _ => (classOf_quiet _).bind fun _ =>
      (mirror_quiet _).bind fun _ => .pure _
  | threadSleep => exact (longArgument_quiet _ _).bind fun _ => hpure _ (threadSleep_quiet _ _) _
  | threadYield => exact hpure _ requestYield_quiet _
  | threadCurrentThread => exact (threadObject_quiet _).bind fun _ => .pure _
  | threadStart => exact (refArgument_quiet _ _).bind fun _ => hpure _ (threadStart_quiet hk _) _
  | threadInterrupt =>
    refine Quiet.get.bind fun m => (refArgument_quiet _ _).bind fun object => ?_
    split
    · exact .pure _
    · next target _ => exact hpure _ (.onScheduler fun s => (s.interrupt_wakes target).alike) _
  | threadIsAlive => exact (refArgument_quiet _ _).bind fun _ => Quiet.get.bind fun _ => .pure _
  | threadJoin => exact (refArgument_quiet _ _).bind fun _ => hpure _ (threadJoin_quiet _ _) _
  | systemGc => exact hpure _ collectGarbage_quiet _
  | systemArraycopy =>
    exact (refArgument_quiet _ _).bind fun _ => (intArgument_quiet _ _).bind fun _ =>
      (refArgument_quiet _ _).bind fun _ => (intArgument_quiet _ _).bind fun _ =>
      (intArgument_quiet _ _).bind fun _ => hpure _ (arrayCopy_quiet _ _ _ _ _) _
  | systemCurrentTimeMillis => exact Quiet.get.bind fun _ => .pure _

theorem attachCompanion_quiet (object : Ref) (c : Companion) :
    Quiet t (attachCompanion object c) := by
  unfold attachCompanion
  refine Quiet.get.bind fun m => ?_
  split
  · split
    · exact (Quiet.updateHeap _).bind fun _ => .pure _
    · exact .pure _
  · exact .pure _

theorem callHost_quiet (thread : ThreadId) (args : List Value) (native : HostNative) :
    Quiet t (callHost thread args native) := by
  cases native with
  | void => exact .pure _
  | const v => exact .pure _
  | echo index => exact .pure _
  | sum => exact .pure _
  | trace => exact Quiet.bind (.modify fun _ => .of_eq rfl rfl) fun _ => .pure _
  | throw className message => exact raise_quiet _ _
  | fatal detail => exact .fatal rfl
  | string text => exact (stringObject_quiet text).bind fun _ => .pure _
  | strlen =>
    refine Quiet.get.bind fun m => ?_
    split
    · exact .pure _
    · exact .pure _
  | new className =>
    refine Quiet.get.bind fun m => ?_
    split
    · exact (newInstance_quiet _).bind fun _ => .pure _
    · exact raise_quiet _ _
  | attach companion => exact (attachCompanion_quiet _ _).bind fun _ => .pure _
  | hold vetoes => exact (attachCompanion_quiet _ _).bind fun _ => .pure _
  | bump =>
    refine Quiet.get.bind fun m => ?_
    split
    · exact (Quiet.updateHeap _).bind fun _ => .pure _
    · exact .pure _
  | peek => exact Quiet.get.bind fun _ => .pure _
  | detach timeout =>
    exact (Quiet.onScheduler fun s => s.detach_alike thread timeout).bind fun _ => .pure _
  | yield => exact Quiet.bind (.modify fun _ => .of_eq rfl rfl) fun _ => .pure _
  | request r =>
    have hsend : Quiet t (onScheduler fun s => ((), s.send r)) :=
      .onScheduler fun s => Scheduler.pointwise_of_threads_eq Thread.Alike.refl rfl rfl
    exact Quiet.bind (fun m hm => hsend m hm) fun _ => .pure _
  | now => exact Quiet.get.bind fun _ => .pure _
  | thread => exact .pure _
  | live => exact Quiet.get.bind fun _ => .pure _
  | pin => exact (Quiet.updateHeap _).bind fun _ => .pure _

theorem runNative_quiet (hk : k.Quiet) (m : Method) (args : List Value) (binding : NativeBinding) :
    Quiet t (runNative k t m args binding) := by
  cases binding with
  | builtin b => exact callBuiltin_quiet hk args b
  | host id =>
    refine Quiet.get.bind fun machine => ?_
    split
    · exact .inconsistent rfl
    · exact (callHost_quiet _ _ _).pinning _
  | unbound => exact raise_quiet _ _

end Machine

end ClassMachine
