import ClassMachine.Proofs.Machine.Acts
import ClassMachine.Proofs.Machine.ClosedSteps
import ClassMachine.Proofs.Machine.Creation

/-!
Whole slices in closed machines. The frames of a thread are in its record between slices and with
the running thread during one, so a collection finds them either way; calls that nest are settled by
induction on how deeply they may.
-/
namespace ClassMachine

/-- An exception that ended a slice lies in `S`. -/
def SliceEnd.Within (S : Ref → Prop) : SliceEnd → Prop
  | .uncaught exception => S exception
  | _ => True

namespace Machine
open Stateful

section Slices

variable {t : ThreadId} {pins : Pins} {m : Machine} {k : Nested}

theorem catches_steady (thrown : ClassId) (type : CatchType) : Steady t (catches thrown type) := by
  cases type with
  | any => exact .pure _
  | type id => exact .onClasses _
  | unresolved symbol => exact .pure _

theorem findHandler_steady (thrown : ClassId) (index : Nat) (handlers : List Handler) :
    Steady t (findHandler thrown index handlers) := by
  induction handlers with
  | nil => exact .pure _
  | cons h rest ih =>
    unfold findHandler
    split
    · refine (catches_steady thrown h.catches).bind fun caught => ?_
      cases caught with
      | true => exact .pure _
      | false => exact ih
    · exact ih

theorem handlerOf_steady (thrown : ClassId) (f : Frame) : Steady t (handlerOf thrown f) := by
  unfold handlerOf
  split
  · exact .pure _
  · exact findHandler_steady thrown _ _

theorem releaseMonitor_steady (f : Frame) : Steady t (releaseMonitor t f) := by
  intro pins m hm
  unfold releaseMonitor
  cases f.monitor with
  | none => exact ⟨hm, fun _ hr => hr⟩
  | some object =>
    refine (onSync_tended hm (Sync.exit_gentle t object)).bind fun result m₁ h₁ => ?_
    cases result with
    | ok u => exact h₁
    | error e =>
      cases e with
      | monitor e => exact h₁
      | fatal e => exact h₁.1

theorem unwindFrames_tended {exception : Ref} (thrown : ClassId) (frames : FrameStack)
    (hm : Tended t pins m) (hx : m.heap.Names exception)
    (hframes : ∀ f ∈ frames, Frame.Within m.heap.Names f) :
    Ends (unwindFrames t exception thrown frames m)
      (fun _ m' => Tended t pins m' ∧ m'.heap.Names exception) (Trapped (Tended t pins)) := by
  induction frames generalizing m with
  | nil => exact ⟨hm, hx⟩
  | cons f rest ih =>
    unfold unwindFrames
    refine (handlerOf_steady thrown f pins m hm).bind fun found m₁ ⟨h₁, hn₁⟩ => ?_
    have hf := (hframes f List.mem_cons_self).mono hn₁
    have hrest : ∀ g ∈ rest, Frame.Within m₁.heap.Names g := fun g hg =>
      (hframes g (List.mem_cons_of_mem f hg)).mono hn₁
    cases found with
    | some h =>
      refine ⟨h₁.of_active fun g hg => ?_, hn₁ exception hx⟩
      rcases List.mem_cons.1 hg with rfl | hg
      · refine ⟨hf.locals, fun v hv => ?_, hf.monitor⟩
        rw [List.mem_singleton.1 hv]
        exact hn₁ exception hx
      · exact hrest g hg
    | none =>
      dsimp only
      rw [bind_modify]
      refine (releaseMonitor_steady f pins _ (h₁.of_active hrest)).bind fun _ m₂ ⟨h₂, hn₂⟩ => ?_
      exact ih h₂ (hn₂ exception (hn₁ exception hx)) fun g hg => (hrest g hg).mono hn₂

theorem unwind_tended {exception : Ref} (hm : Tended t pins m) (hx : m.heap.Names exception) :
    Ends (unwind t exception m) (fun _ m' => Tended t pins m' ∧ m'.heap.Names exception)
      (Trapped (Tended t pins)) := by
  unfold unwind
  rw [bind_get]
  cases m.heap.get? exception with
  | none => exact hm
  | some o => exact unwindFrames_tended o.type m.active hm hx hm.tidy.closed.active

theorem handleTrap_tended {trap : Trap} (hm : Trapped (Tended t pins) trap m) :
    Ends (handleTrap t trap m)
      (fun ended m' => Tended t pins m' ∧ ∀ e, ended = some e → e.Within m'.heap.Names)
      (Trapped (Tended t pins)) := by
  cases trap with
  | exception exception =>
    refine (unwind_tended hm.1 hm.2).bind fun caught m₁ ⟨h₁, hx⟩ => ?_
    cases caught with
    | true => exact ⟨h₁, fun e he => by cases he⟩
    | false =>
      refine ⟨h₁, fun e he => ?_⟩
      cases he
      exact hx
  | fatal error => exact hm
  | outOfFuel => exact hm

theorem within_pausedEnd (m : Machine) (t : ThreadId) (S : Ref → Prop) : (m.pausedEnd t).Within S := by
  unfold pausedEnd
  split <;> trivial

theorem execute_tended (hk : Settled k) (budget : Nat) (hm : Tended t pins m) :
    Ends (execute k t budget m)
      (fun ended m' => Tended t pins m' ∧ ended.Within m'.heap.Names) (Trapped (Tended t pins)) := by
  induction budget generalizing m with
  | zero => exact ⟨hm, trivial⟩
  | succ budget ih =>
    unfold execute
    refine (attempt_ends (executeOne_tended hk hm)).bind fun result m₁ h₁ => ?_
    cases result with
    | ok flow =>
      cases flow with
      | next => exact ih h₁
      | pause => exact ⟨h₁, within_pausedEnd m₁ t _⟩
      | finished v => exact ⟨h₁, trivial⟩
    | error trap =>
      refine (handleTrap_tended h₁).bind fun ended m₂ h₂ => ?_
      cases ended with
      | some ended => exact ⟨h₂.1, h₂.2 ended rfl⟩
      | none => exact ih h₂.1

theorem takeParkedInterrupt_steady (thread : ThreadId) : Steady t (takeParkedInterrupt thread) := by
  unfold takeParkedInterrupt
  refine Steady.get.bind fun m => ?_
  split
  · split
    · refine Steady.bind (Steady.updateThread fun r => ?_) fun _ => .pure _
      exact ⟨rfl, rfl, .inl rfl⟩
    · exact .pure _
  · exact .pure _

theorem resume_tended (hk : Settled k) (budget : Nat) (hm : Tended t pins m) :
    Ends (resume k t budget m)
      (fun ended m' => Tended t pins m' ∧ ended.Within m'.heap.Names) (Trapped (Tended t pins)) := by
  unfold resume
  refine (onSync_tended hm (Sync.resume_gentle t)).bind fun result m₁ hresumed => ?_
  have h₁ := hresumed.1
  cases result with
  | error e =>
    cases e with
    | fatal e => exact h₁
    | monitor e => exact raiseSync_tended h₁ _
  | ok outcome =>
    cases outcome with
    | blocked => exact ⟨h₁, trivial⟩
    | _ =>
      refine (takeParkedInterrupt_steady t pins m₁ h₁).bind fun interrupted m₂ htaken => ?_
      have h₂ := htaken.1
      cases interrupted with
      | false => exact execute_tended hk budget h₂
      | true =>
        refine (attempt_ends (raise_tended (Q := fun _ _ => False) h₂ _ _)).bind
          fun result m₃ h₃ => ?_
        cases result with
        | ok u => exact h₃.elim
        | error trap =>
          refine (handleTrap_tended h₃).bind fun ended m₄ h₄ => ?_
          cases ended with
          | some ended => exact ⟨h₄.1, h₄.2 ended rfl⟩
          | none => exact execute_tended hk budget h₄.1

/-- The frames of a thread come out of its record. -/
theorem Tidy.takeStack (hm : Tidy pins m) {r : Thread FrameStack}
    (hr : m.scheduler.get? t = some r) : Tended t pins (takeStack t m) := by
  unfold Machine.takeStack
  rw [hr]
  constructor
  · refine hm.of_update t (fun r' hr' => ?_) (hm.closed.threads t r hr).stack
    have hw := hm.closed.threads t r' hr'
    exact ⟨hw.object, hw.pending, fun f hf => by cases hf⟩
  · refine ⟨{ r with stack := [] }, ?_, rfl⟩
    show (m.scheduler.update t _).get? t = _
    rw [Scheduler.get?_update, if_pos rfl, hr]
    rfl

/-- The frames of the running thread go into its record. -/
theorem Tidy.saveStack (hm : Tidy pins m) : Tidy pins (saveStack t m) := by
  refine hm.of_update t (fun r hr => ?_) fun f hf => by cases hf
  have hw := hm.closed.threads t r hr
  exact ⟨hw.object, hw.pending, hm.closed.active⟩

theorem runSlice_tidy (hk : Settled k) (hm : Tidy pins m) :
    Ends (runSlice k t m) (fun ended m' => Tidy pins m' ∧ ended.Within m'.heap.Names)
      (Trapped (Tidy pins)) := by
  have h₁ : Tidy pins { m with yieldRequested := false } := hm.refit m.linker false m.uncaught
  unfold runSlice
  rw [bind_modify, bind_get]
  cases hr : m.scheduler.get? t with
  | none => exact ⟨h₁, trivial⟩
  | some r =>
    dsimp only
    rw [bind_modify]
    refine ensuring_ends (Q := fun (ended : SliceEnd) S => ended.Within S)
      (resume_tended hk _ (h₁.takeStack hr)) fun m' h' => ?_
    exact ⟨h'.tidy.saveStack, rfl⟩

end Slices

section Nested

variable {t : ThreadId} {pins : Pins} {m : Machine} {k : Nested}

theorem awaitDeadline_tidy (hm : Tidy pins m) (method : MethodId) :
    Ends (awaitDeadline t method m) (fun _ m' => Tidy pins m') (Trapped (Tidy pins)) := by
  unfold awaitDeadline
  rw [bind_get]
  cases (m.scheduler.get? t).map (·.state) with
  | none => exact hm
  | some state =>
    cases state with
    | ready => exact hm
    | detached => exact hm
    | detachedUntil deadline =>
      have hidle : m.scheduler.Alike (m.scheduler.idleUntil deadline) :=
        Scheduler.pointwise_of_threads_eq Thread.Alike.refl rfl rfl
      exact hm.of_alike (hidle.trans (Scheduler.wakeExpired_wakes _).alike)
    | terminated => exact hm

theorem driveSlices_tidy (hk : Settled k) (method : MethodId) (fuel : Nat) (hm : Tidy pins m) :
    Ends (driveSlices k t method fuel m) (fun _ m' => Tidy pins m') (Trapped (Tidy pins)) := by
  induction fuel generalizing m with
  | zero => exact hm
  | succ fuel ih =>
    unfold driveSlices
    refine (runSlice_tidy hk hm).bind fun ended m₁ hended => ?_
    have h₁ := hended.1
    cases ended with
    | finished v => exact h₁
    | uncaught exception => exact ⟨h₁, hended.2⟩
    | yielded => exact ih h₁
    | blocked => exact (awaitDeadline_tidy h₁ method).bind fun _ m₂ h₂ => ih h₂

/-- What starts with no frames leaves none. -/
theorem onFreshStack_tidy {α : Type} {x : MachineM α} (hactive : m.active = [])
    (hx : Ends (x m) (fun _ m' => Tidy pins m') (Trapped (Tidy pins))) :
    Ends (onFreshStack x m) (fun _ m' => Tidy pins m') (Trapped (Tidy pins)) := by
  have hsame : ({ m with active := [] } : Machine) = m := by
    rw [← hactive]
  have hx' : Ends (x { m with active := [] }) (fun _ m' => Tidy pins m') (Trapped (Tidy pins)) := by
    rw [hsame]
    exact hx
  have hback : ∀ m', Tidy pins m' → Tidy pins { m' with active := m.active } ∧
      ({ m' with active := m.active } : Machine).heap.Names = m'.heap.Names := by
    intro m' h'
    rw [hactive]
    exact ⟨⟨⟨h'.closed.heap, h'.closed.threads, (fun f hf => by cases hf), h'.closed.statics⟩,
      h'.noHost, h'.numbered, h'.pinned, h'.spare⟩, rfl⟩
  exact ensuring_trapped hx' hback

/-- An exception of the running thread leaves the machine tidy. -/
theorem Trapped.tidy {e : Trap} (h : Trapped (Tended t pins) e m) : Trapped (Tidy pins) e m := by
  cases e with
  | exception r => exact ⟨h.1.tidy, h.2⟩
  | fatal error => exact Tended.tidy h
  | outOfFuel => exact Tended.tidy h

/-- The arguments of a call are null or live when its method is entered, once its class is initialized. -/
def Handed (k : Nested) (t : ThreadId) (method : MethodId) (args : List Value) (m : Machine) : Prop :=
  ∀ m', ensureInitialized k t method.owner m = .ok () m' → ∀ v ∈ args, v.Within m'.heap.Names

theorem handed_nil (k : Nested) (t : ThreadId) (method : MethodId) (m : Machine) : Handed k t method [] m :=
  fun _ _ => List.forall_mem_nil _

theorem Handed.initialized {args : List Value} {method : MethodId} (hargs : Handed k t method args m)
    (hk : Settled k) (hm : Tended t pins m) :
    Ends (ensureInitialized k t method.owner m)
      (fun _ m' => Tended t pins m' ∧ ∀ v ∈ args, v.Within m'.heap.Names) (Trapped (Tidy pins)) := by
  have htended := ensureInitialized_tended hk hm method.owner
  cases hx : ensureInitialized k t method.owner m with
  | ok u m' => exact ⟨htended.of_ok hx, hargs m' hx⟩
  | error e m' => exact (htended.of_error hx).tidy

theorem drive_tidy (hk : Settled k) (fuel : Nat) (method : MethodId) {args : List Value} (hactive : m.active = [])
    (hm : Tended t pins m) (hargs : Handed k t method args m) :
    Ends (drive k fuel t method args m) (fun _ m' => Tidy pins m') (Trapped (Tidy pins)) := by
  unfold drive
  apply onFreshStack_tidy hactive
  refine (hargs.initialized hk hm).bind fun _ m₁ ⟨h₁, hargs₁⟩ => ?_
  refine ((invokeMethod_tended hk h₁ hargs₁ method).mono (fun _ _ h => h)
    fun _ _ h => h.tidy).bind fun flow m₂ h₂ => ?_
  have hgoOn : Ends ((modify (saveStack t) >>= fun _ => driveSlices k t method fuel) m₂)
      (fun _ m' => Tidy pins m') (Trapped (Tidy pins)) := by
    rw [bind_modify]
    exact driveSlices_tidy hk method fuel h₂.tidy.saveStack
  cases flow with
  | finished v => exact h₂.tidy
  | next => exact hgoOn
  | pause => exact hgoOn

theorem Tidy.remove (hm : Tidy pins m) (t : ThreadId) :
    Tidy pins { m with scheduler := (m.scheduler.remove t).2 } := by
  have hkept : ∀ id r, (m.scheduler.remove t).2.get? id = some r → m.scheduler.get? id = some r := by
    intro id r hr
    rw [Scheduler.get?_remove] at hr
    split at hr
    · cases hr
    · exact hr
  exact ⟨⟨hm.closed.heap, fun id r hr => hm.closed.threads id r (hkept id r hr), hm.closed.active,
    hm.closed.statics⟩, hm.noHost, fun id r hr => hm.numbered id r (hkept id r hr), hm.pinned,
    hm.spare⟩

/-- A call borrows a thread, if there is one left. -/
theorem runSynthetic_eq (k : Nested) (fuel : Nat) (method : MethodId) (args : List Value) (m : Machine) :
    runSynthetic k fuel method args m =
      if m.scheduler.nextId = 0xffffffff then .error .outOfFuel m
      else ensuring (drive k fuel m.scheduler.nextId method args) (fun n => { n with
          scheduler := retiring n.scheduler m.scheduler.nextId
          yieldRequested := m.yieldRequested }) { m with scheduler := borrowing m.scheduler } := by
  unfold runSynthetic
  rw [bind_get]
  by_cases hid : m.scheduler.nextId = 0xffffffff
  · have hspawn : spawnThread .null m = .error .outOfFuel m := if_pos hid
    rw [if_pos hid, bind_of_error hspawn]
  · have hspawn : spawnThread .null m =
        .ok m.scheduler.nextId { m with scheduler := (m.scheduler.spawn .null []).2 } := if_neg hid
    rw [if_neg hid, bind_of_ok hspawn]
    rfl

/-- A borrowed thread runs. -/
theorem Tidy.borrowing (hm : Tidy pins m) (hid : m.scheduler.nextId ≠ 0xffffffff) :
    Tended m.scheduler.nextId pins { m with scheduler := borrowing m.scheduler } := by
  have hspawned := hm.spawn hid m.heap.names_null (List.forall_mem_nil _)
  refine ⟨hspawned.of_threads ((m.scheduler.spawn .null []).2.update_pointwise
    (Thread.Repending.refl _) _ fun _ => ⟨rfl, rfl, fun _ hp => .inl hp⟩), ?_⟩
  exact ⟨_, (get?_borrowing _ _).trans (if_pos rfl), rfl⟩

/-- A thread made for one call leaves the machine tidy. -/
theorem runSynthetic_tidy (hk : Settled k) (fuel : Nat) (method : MethodId) {args : List Value} (hm : Tidy pins m)
    (hactive : m.active = [])
    (hargs : Handed k m.scheduler.nextId method args { m with scheduler := borrowing m.scheduler }) :
    Ends (runSynthetic k fuel method args m) (fun _ m' => Tidy pins m') (Trapped (Tidy pins)) := by
  rw [runSynthetic_eq]
  split
  · exact hm
  · next hid =>
    refine ensuring_trapped (drive_tidy hk fuel method hactive (hm.borrowing hid) hargs) fun m' h' => ⟨?_, rfl⟩
    have hended := h'.of_alike (m'.scheduler.terminate_alike m.scheduler.nextId)
    exact (hended.remove m.scheduler.nextId).refit m'.linker m.yieldRequested m'.uncaught

/-- What a record of a thread shows of it before and after its class is initialized. -/
theorem ensureInitialized_intact (hk : Settled k) {r : Thread FrameStack} (hm : Tended t pins m)
    (hr : m.scheduler.get? t = some r) (id : ClassId) :
    Ends (ensureInitialized k t id m)
      (fun _ m' => ∃ r', m'.scheduler.get? t = some r' ∧ r.Intact r') fun _ _ => True := by
  obtain ⟨l, hl, htracks⟩ := hk.tracked
  have hkeeps := (ensureInitialized_tracks htracks id).ends
    (ensureInitialized_quiet hl id m hm.known)
  refine hkeeps.mono (fun _ m' h => ?_) fun _ _ _ => trivial
  have hrel := h.threads.record t hm.known trivial
  rw [hr] at hrel
  generalize m'.scheduler.get? t = after at *
  cases hrel with
  | some hintact => exact ⟨_, rfl, hintact⟩

/-- A thread that starts has its object in its record while its class is initialized. -/
theorem handed_object (hk : Settled k) (method : MethodId) {object : Ref} {r : Thread FrameStack}
    (hm : Tended t pins m) (hr : m.scheduler.get? t = some r) (hobject : r.object = object)
    (hnull : object.isNull = false) : Handed k t method [.ref object] m := by
  intro m' hrun v hv
  rw [List.mem_singleton.1 hv]
  obtain ⟨r', hr', hkept⟩ := (ensureInitialized_intact hk hm hr method.owner).of_ok hrun
  have hobject' : r'.object = object := (hkept.object (by rw [hobject]; exact hnull)).trans hobject
  have h' := (ensureInitialized_tended hk hm method.owner).of_ok hrun
  rw [← hobject']
  exact (h'.tidy.closed.threads t r' hr').object

theorem enterThread_tidy (hk : Settled k) (method : MethodId) {args : List Value} (hm : Tended t pins m)
    (hactive : m.active = []) (hargs : Handed k t method args m) :
    Ends (enterThread k t method args m) (fun _ m' => Tidy pins m') (Trapped (Tidy pins)) := by
  unfold enterThread
  apply onFreshStack_tidy hactive
  refine (hargs.initialized hk hm).bind fun _ m₁ ⟨h₁, hargs₁⟩ => ?_
  refine (ensuring_trapped (invokeMethod_tended hk h₁ hargs₁ method)
    fun m' h' => ⟨h'.tidy.saveStack, rfl⟩).bind fun flow m₂ h₂ => ?_
  cases flow with
  | finished v => exact h₂.of_alike (m₂.scheduler.terminate_alike t)
  | next => exact h₂
  | pause => exact h₂

theorem nested_settled (fuel : Nat) : Settled (nested fuel) := by
  have htracked : ∀ fuel, ∃ l : Nested, l.Quiet ∧ Nested.Tracks (nested fuel) l := fun fuel =>
    ⟨sheltered fuel, sheltered_spec fuel⟩
  induction fuel with
  | zero => exact ⟨htracked 0, fun _ _ _ hm _ => hm, fun _ _ _ _ _ _ hm _ _ _ _ _ => hm⟩
  | succ fuel ih =>
    refine ⟨htracked (fuel + 1), ?_, ?_⟩
    · intro pins method m hm hactive
      exact runSynthetic_tidy ih fuel method hm hactive (handed_nil _ _ _ _)
    · intro pins thread method object r m hm hactive hr hstack hobject hnull
      have hrun : Tended thread pins m := ⟨hm, r, hr, hstack⟩
      exact enterThread_tidy ih method hrun hactive (handed_object ih method hrun hr hobject hnull)

end Nested

section Steps

variable {pins : Pins} {m : Machine}

theorem step_tidy (fuel : Nat) (hm : Tidy pins m) :
    Ends (step fuel m) (fun _ m' => Tidy pins m') (Trapped (Tidy pins)) := by
  have h₁ : Tidy pins { m with scheduler := m.scheduler.next.2 } :=
    hm.of_alike m.scheduler.next_wakes.alike
  unfold step
  rw [bind_of_ok (show onScheduler Scheduler.next m =
    .ok m.scheduler.next.1 { m with scheduler := m.scheduler.next.2 } from rfl)]
  cases m.scheduler.next.1 with
  | none => exact h₁
  | some thread =>
    have hslice := runSlice_tidy (t := thread) (nested_settled fuel) h₁
    have hafter : ∀ m', Tidy pins m' → Tidy pins { m' with scheduler := m'.scheduler.endSlice } :=
      fun m' h' => h'.of_alike (Scheduler.pointwise_of_threads_eq Thread.Alike.refl rfl rfl)
    refine (ensuring_ends (Q := fun (ended : SliceEnd) S => ended.Within S) hslice
      fun m' h' => ⟨hafter m' h', rfl⟩).bind fun ended m₂ ⟨h₂, _⟩ => ?_
    cases ended with
    | yielded => exact h₂
    | blocked => exact h₂
    | finished v => exact h₂.of_alike (m₂.scheduler.terminate_alike thread)
    | uncaught exception =>
      have hended := h₂.of_alike (m₂.scheduler.terminate_alike thread)
      exact (threadDied_ends thread exception fun reports =>
        hended.refit m₂.linker m₂.yieldRequested reports).bind fun _ _ h₃ => h₃

theorem runSlices_tidy (fuel slices : Nat) (hm : Tidy pins m) :
    Ends (runSlices fuel slices m) (fun _ m' => Tidy pins m') (Trapped (Tidy pins)) := by
  induction slices generalizing m with
  | zero => exact hm
  | succ slices ih =>
    have h₁ : Tidy pins { m with scheduler := m.scheduler.drain.2 } :=
      hm.of_alike m.scheduler.drain_wakes.alike
    unfold runSlices
    rw [bind_of_ok (show onScheduler Scheduler.drain m =
      .ok m.scheduler.drain.1 { m with scheduler := m.scheduler.drain.2 } from rfl)]
    split
    · exact h₁
    · rw [bind_get]
      split
      · exact h₁
      · refine (step_tidy fuel h₁).bind fun ran m₂ h₂ => ?_
        cases ran with
        | some thread => exact ih h₂
        | none =>
          dsimp only
          rw [bind_get]
          cases m₂.scheduler.nextDeadline? with
          | none => exact h₂
          | some deadline =>
            dsimp only
            rw [bind_modify]
            exact ih (h₂.of_alike (Scheduler.pointwise_of_threads_eq Thread.Alike.refl rfl rfl))

end Steps

/-- What holds of a machine from the moment it is made: threads are numbered in turn, and the
exception for a full heap is pinned. -/
structure Made (m : Machine) : Prop where
  numbered : m.scheduler.Numbered
  pinned : m.outOfMemory ∈ m.heap.pinned
  nonNull : m.outOfMemory.isNull = false

/-- The pins of a machine. -/
def Made.pins {m : Machine} (hm : m.Made) : Pins where
  held := m.heap.pinned.filter (!·.isNull)
  spare := m.outOfMemory
  mem := by
    rw [List.mem_filter, hm.nonNull]
    exact ⟨hm.pinned, rfl⟩

section Made

variable {pins : Pins} {m : Machine}

theorem Made.tidy (hm : m.Made) (hc : m.Closed) (hhost : ∀ id, m.natives.get? id = none) :
    Tidy hm.pins m := ⟨hc, hhost, hm.numbered, rfl, rfl⟩

theorem Tidy.made (hm : Tidy pins m) : m.Made := by
  have hspare := pins.mem
  rw [← hm.spare, ← hm.pinned, List.mem_filter, Bool.not_eq_true'] at hspare
  exact ⟨hm.numbered, hspare.1, hspare.2⟩

/-- The exception for a full heap is live. -/
theorem Tidy.spare_live (hm : Tidy pins m) : ∃ o, m.heap.get? m.outOfMemory = some o := by
  have hmem := hm.names_spare hm.made.nonNull
  exact ⟨_, Std.ExtTreeMap.getElem?_eq_some_getElem hmem⟩

/-- A heap with nothing but the pinned exception in it. -/
theorem tidy_fresh (config : Config) (linker : Linker) (core : CoreClasses) (now : UInt64)
    {object : Object} (ho : Blank object) :
    Tidy ⟨[⟨1⟩], ⟨1⟩, .head _⟩
      { config := config, linker := linker, core := core, scheduler := { now := now }
        heap := ((Heap.ofConfig config).insert object).2.pin ⟨1⟩, outOfMemory := ⟨1⟩ } := by
  have hempty := Heap.closed_ofConfig config
  obtain ⟨hgrown, hnames⟩ := Heap.insert_grown hempty (ho.mono fun _ hr => Heap.names_of_isNull _ hr)
  refine ⟨⟨Heap.pin_closed hgrown.closed hnames, fun id t ht => ?_, (fun f hf => by cases hf),
    fun id values hv => ?_⟩, fun id => rfl, fun id t ht => ?_, rfl, rfl⟩
  · simp [Scheduler.get?] at ht
  · simp [Statics.slots?] at hv
  · simp [Scheduler.get?] at ht

/-- A machine is closed when it is made, and nothing of the host runs in it. -/
theorem create_closed {classes : ClassTable} {config : Config} {now : UInt64}
    (h : create classes config now = .ok m) :
    m.Closed ∧ m.Made ∧ ∀ id, m.natives.get? id = none := by
  obtain ⟨core, linker, id, object, -, hobject, rfl⟩ := create_eq h
  have htidy := tidy_fresh config linker core now (hobject ▸ blank_instanceOf id _)
  exact ⟨htidy.closed, htidy.made, htidy.noHost⟩

end Made

section Runs

variable {α : Type} {fuel : Nat} {m m' : Machine}

/-- Runs of `x` end with `m'`, though perhaps with an exception. -/
def Yields (x : MachineM α) (m m' : Machine) : Prop :=
  (∃ a, x m = .ok a m') ∨ ∃ r, x m = .error (.exception r) m'

theorem Tidy.of_yields {pins : Pins} {x : MachineM α}
    (hx : Ends (x m) (fun _ m' => Tidy pins m') (Trapped (Tidy pins))) (h : Yields x m m') :
    Tidy pins m' := by
  rcases h with ⟨a, ha⟩ | ⟨r, hr⟩
  · exact hx.of_ok ha
  · exact (hx.of_error hr).1

/-- Nothing dangles. A slice of any thread that ends, with an exception or without, takes a closed
machine without natives of the host to a closed one, and the exception for a full heap stays live. -/
theorem step_closed (hclosed : m.Closed) (hmade : m.Made) (hhost : ∀ id, m.natives.get? id = none)
    (hstep : Yields (step fuel) m m') :
    m'.Closed ∧ m'.Made ∧ (∀ id, m'.natives.get? id = none) ∧ m'.outOfMemory = m.outOfMemory ∧
      ∃ o, m'.heap.get? m.outOfMemory = some o := by
  have htidy := Tidy.of_yields (step_tidy fuel (hmade.tidy hclosed hhost)) hstep
  have hlive := htidy.spare_live
  rw [htidy.spare] at hlive
  exact ⟨htidy.closed, htidy.made, htidy.noHost, htidy.spare, hlive⟩

/-- A machine with one thread, which is about to make a string. -/
def texting : Machine where
  config := {}
  linker := default
  core := default
  heap := ((Heap.ofConfig {}).insert (Object.instanceOf default [])).2.pin ⟨1⟩
  outOfMemory := ⟨1⟩
  scheduler := (Scheduler.spawn {} .null
    [{ method := default, code := { instructions := #[.pushString "text", .returnVoid] } }]).2

theorem texting_tidy : Tidy ⟨[⟨1⟩], ⟨1⟩, .head _⟩ texting := by
  have hfresh := tidy_fresh {} default default 0 (blank_instanceOf default [])
  refine hfresh.spawn (by decide) (Heap.names_null _) fun f hf => ?_
  rw [List.mem_singleton.1 hf]
  exact ⟨fun v hv => by simp at hv, (fun v hv => by cases hv), fun r hr => by cases hr⟩

theorem step_closed_texting :
    texting.Closed ∧ texting.Made ∧ (∀ id, texting.natives.get? id = none) ∧
      ∃ m', step 1 texting = .ok (some 1) m' ∧ m'.heap.size = 2 ∧ m'.Closed ∧
        ∃ o, m'.heap.get? texting.outOfMemory = some o := by
  refine ⟨texting_tidy.closed, texting_tidy.made, texting_tidy.noHost, ?_⟩
  have hrun : (match step 1 texting with
      | .ok r m' => decide (r = some 1 ∧ m'.heap.size = 2)
      | .error _ _ => false) = true := by decide +kernel
  cases hs : step 1 texting with
  | ok r m' =>
    rw [hs] at hrun
    obtain ⟨rfl, hsize⟩ := of_decide_eq_true hrun
    obtain ⟨hclosed, _, _, _, hlive⟩ := step_closed texting_tidy.closed texting_tidy.made
      texting_tidy.noHost (.inl ⟨_, hs⟩)
    exact ⟨m', rfl, hsize, hclosed, hlive⟩
  | error e m' =>
    rw [hs] at hrun
    cases hrun

/-- Whole runs leave a closed machine closed. -/
theorem run_closed (hclosed : m.Closed) (hmade : m.Made) (hhost : ∀ id, m.natives.get? id = none)
    (hrun : Yields (run fuel) m m') : m'.Closed :=
  (Tidy.of_yields (runSlices_tidy fuel fuel (hmade.tidy hclosed hhost)) hrun).closed

end Runs

end Machine

end ClassMachine
