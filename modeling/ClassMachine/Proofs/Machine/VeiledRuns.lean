import ClassMachine.Proofs.Machine.Watching
import ClassMachine.Proofs.Machine.Veils

/-!
Whole runs under a veil. Announcers that do the same as far as the trace is hidden make no difference to
a run but for the trace. So what an announcer writes down there is no part of the run it is told of.
-/
namespace ClassMachine

/-- Announcers that differ in what they leave in the trace alone. -/
structure Announcer.Alike (a b : Announcer) : Prop where
  between : ∀ running, Machine.Alike id (a.between running) (b.between running)
  start : ∀ method, Machine.Alike id (a.start method) (b.start method)

namespace Machine
open Stateful

structure Nested.Alike (g : UInt32 → UInt32) (k l : Nested) : Prop where
  call : ∀ method args, Machine.Alike g (k.call method args) (l.call method args)
  enter : ∀ thread method args, Machine.Alike g (k.enter thread method args) (l.enter thread method args)

section Instructions

variable {α : Type} {g : UInt32 → UInt32} {t : ThreadId} {k l : Nested}

theorem veil_swapStack (m : Machine) : veil g (swapStack t m) = swapStack t (veil g m) :=
  (retouched_swapStack g _ m).symm

theorem Alike.withParked {x y : MachineM α} (hx : Alike g x y) :
    Alike g (withParked t x) (withParked t y) :=
  Alike.bind (.modify fun _ _ => veil_eq veil_swapStack) fun _ =>
    Alike.ensuring hx fun _ _ => veil_eq veil_swapStack

theorem initializeOne_alike (hk : Nested.Alike g k l) (id : ClassId) :
    Alike g (initializeOne k t id) (initializeOne l t id) := by
  refine Alike.bind (.of_oblivious fun _ _ _ => rfl) fun prepared => ?_
  cases prepared with
  | none => exact .pure _
  | some c =>
    refine Alike.bind (.of_oblivious fun _ _ _ => rfl) fun pending => ?_
    split
    · refine Alike.bind (.of_oblivious fun _ _ _ => rfl) fun _ => ?_
      cases c.staticInitializer? with
      | none => exact .pure _
      | some initializer => exact (hk.call _ _).withParked.bind fun _ => .pure _
    · exact .pure _

theorem initializeAll_alike (hk : Nested.Alike g k l) (ids : List ClassId) :
    Alike g (initializeAll k t ids) (initializeAll l t ids) := by
  induction ids with
  | nil => exact .pure _
  | cons id rest ih => exact (initializeOne_alike hk id).bind fun _ => ih

theorem ensureInitialized_alike (hk : Nested.Alike g k l) (id : ClassId) :
    Alike g (ensureInitialized k t id) (ensureInitialized l t id) := by
  refine sequel_alike.read (fun m => ?_) fun _ _ _ => rfl
  split
  · exact Alike.bind (.of_oblivious fun _ _ _ => rfl) fun chain => initializeAll_alike hk _
  · exact .pure _

theorem spawnThread_alike (object : Ref) : Alike g (spawnThread object) (spawnThread object) :=
  .of_oblivious (oblivious_spawnThread object)

theorem threadDied_alike (exception : Ref) : Alike g (threadDied t exception) (threadDied t exception) :=
  .of_oblivious (oblivious_threadDied exception)

theorem threadStart_alike (hk : Nested.Alike g k l) (object : Ref) :
    Alike g (threadStart k t object) (threadStart l t object) := by
  have hr : Course t (Likeness g) (Likeness g) (@Likeness g Flow) := course_alike
  unfold threadStart
  split
  · exact hr.raise hr.seq _ _
  · refine hr.seq.read (fun m => ?_) fun _ _ _ => rfl
    split
    · exact hr.raise hr.seq _ _
    · refine hr.seq.read (fun m => ?_) fun _ _ _ => rfl
      refine Alike.bind (hr.selectVirtual object _) fun run => (spawnThread_alike object).bind fun started => ?_
      refine (hk.enter started run _).withParked.attempt.bind fun result => ?_
      cases result with
      | ok u => exact .pure _
      | error trap =>
        cases trap with
        | exception exception => exact threadDied_alike exception
        | fatal e => exact .throw _
        | outOfFuel => exact .throw _

theorem invokeMethod_alike (hk : Nested.Alike g k l) (method : MethodId) (args : List Value) :
    Alike g (invokeMethod k t method args) (invokeMethod l t method args) :=
  course_alike.invokeMethod method args (threadStart_alike hk)

theorem executeOne_alike (hk : Nested.Alike g k l) : Alike g (executeOne k t) (executeOne l t) := by
  have hr : Course t (Likeness g) (Likeness g) (@Likeness g Flow) := course_alike
  exact Alike.bind (Alike.onTop _) fun i => hr.executeWriting writes_alike i
    (hr.accessStatic free_alike (ensureInitialized_alike hk) i) (ensureInitialized_alike hk)
    (threadStart_alike hk)

theorem handleTrap_alike (trap : Trap) : Alike g (handleTrap t trap) (handleTrap t trap) := by
  cases trap with
  | exception exception =>
    refine Alike.bind (rules_alike.unwind free_alike exception) fun found => ?_
    cases found <;> exact .pure _
  | fatal e => exact .throw _
  | outOfFuel => exact .throw _

theorem takeParkedInterrupt_alike : Alike g (takeParkedInterrupt t) (takeParkedInterrupt t) := by
  refine sequel_alike.read (fun m => ?_) fun _ _ _ => rfl
  split
  · split
    · exact (Alike.updateThread _).bind fun _ => .pure _
    · exact .pure _
  · exact .pure _

end Instructions

section Slices

variable {α : Type} {t : ThreadId} {k l : Nested} {look look' : Observer}

theorem execute_alike (hl : ∀ running, Alike id (look running) (look' running))
    (hk : Nested.Alike id k l) (budget : Nat) :
    Alike id (Watched.execute look k t budget) (Watched.execute look' l t budget) := by
  induction budget with
  | zero => exact .pure _
  | succ budget ih =>
    unfold Watched.execute
    refine (hl _).bind fun _ => (executeOne_alike hk).attempt.bind fun result => ?_
    cases result with
    | ok flow =>
      cases flow with
      | next => exact ih
      | pause => exact sequel_alike.read (fun _ => .pure _) fun _ _ _ => rfl
      | finished v => exact .pure _
    | error trap =>
      refine (handleTrap_alike trap).bind fun ended => ?_
      cases ended with
      | none => exact ih
      | some e => exact .pure _

theorem resume_alike (hl : ∀ running, Alike id (look running) (look' running))
    (hk : Nested.Alike id k l) (budget : Nat) :
    Alike id (Watched.resume look k t budget) (Watched.resume look' l t budget) := by
  have hr : Rules t (Likeness id) := rules_alike
  have hrun := execute_alike (t := t) hl hk budget
  unfold Watched.resume
  refine (Alike.onSync _).bind fun result => ?_
  cases result with
  | error e =>
    cases e with
    | fatal e => exact .throw _
    | monitor e => exact hr.raiseSync hr.seq rfl
  | ok outcome =>
    cases outcome with
    | blocked => exact .pure _
    | _ =>
      refine takeParkedInterrupt_alike.bind fun interrupted => ?_
      split
      · have hraise : Alike id (raise CoreName.interrupted none : MachineM Unit)
            (raise CoreName.interrupted none) := hr.raise hr.seq _ _
        refine hraise.attempt.bind fun raised => ?_
        cases raised with
        | ok u => exact hrun
        | error trap =>
          refine (handleTrap_alike trap).bind fun ended => ?_
          cases ended with
          | none => exact hrun
          | some e => exact .pure _
      · exact hrun

theorem veil_takeStack (m : Machine) : veil id (takeStack t m) = takeStack t (veil id m) :=
  (retouched_takeStack id _ m).symm

theorem veil_saveStack {g : UInt32 → UInt32} (m : Machine) :
    veil g (saveStack t m) = saveStack t (veil g m) := rfl

theorem runSlice_alike (hl : ∀ running, Alike id (look running) (look' running))
    (hk : Nested.Alike id k l) :
    Alike id (Watched.runSlice look k t) (Watched.runSlice look' l t) := by
  unfold Watched.runSlice
  refine Alike.bind (.of_oblivious fun _ _ _ => rfl) fun _ => Alike.read (fun m => ?_) fun _ => rfl
  cases m.scheduler.get? t with
  | none => exact .pure _
  | some r =>
    exact Alike.bind (.modify fun _ _ => veil_eq veil_takeStack) fun _ =>
      (resume_alike hl hk _).ensuring fun _ _ => veil_eq veil_saveStack

theorem awaitDeadline_alike (method : MethodId) :
    Alike id (awaitDeadline t method) (awaitDeadline t method) := by
  refine sequel_alike.read (fun m => ?_) fun _ _ _ => rfl
  cases (m.scheduler.get? t).map (·.state) with
  | none => exact .throw _
  | some state =>
    cases state with
    | ready => exact .pure _
    | detached => exact .throw _
    | terminated => exact .throw _
    | detachedUntil deadline => exact .of_oblivious fun _ _ _ => rfl

theorem driveSlices_alike (hl : ∀ running, Alike id (look running) (look' running))
    (hk : Nested.Alike id k l) (method : MethodId) (fuel : Nat) :
    Alike id (Watched.driveSlices look k t method fuel) (Watched.driveSlices look' l t method fuel) := by
  induction fuel with
  | zero => exact .throw _
  | succ fuel ih =>
    unfold Watched.driveSlices
    refine (runSlice_alike hl hk).bind fun ended => (hl _).bind fun _ => ?_
    cases ended with
    | finished v => exact .pure _
    | uncaught exception => exact .throw _
    | yielded => exact ih
    | blocked => exact (awaitDeadline_alike method).bind fun _ => ih

theorem Alike.onFreshStack {g : UInt32 → UInt32} {x y : MachineM α} (hx : Alike g x y) :
    Alike g (onFreshStack x) (onFreshStack y) := by
  intro m n hmn
  have hactive : (veil g m).active = (veil g n).active := by rw [hmn]
  have hactive : m.active = n.active := hactive
  unfold Machine.onFreshStack
  rw [hactive]
  exact hx.ensuring (fun _ _ => veil_eq (u := fun n' => { n' with active := n.active }) fun _ => rfl) _ _
    (veil_eq (u := fun n' => { n' with active := [] }) (fun _ => rfl) hmn)

theorem drive_alike (hl : ∀ running, Alike id (look running) (look' running))
    (hk : Nested.Alike id k l) (fuel : Nat) (method : MethodId) (args : List Value) :
    Alike id (Watched.drive look k fuel t method args) (Watched.drive look' l fuel t method args) := by
  refine Alike.onFreshStack ((ensureInitialized_alike hk _).bind fun _ =>
    (invokeMethod_alike hk method args).bind fun flow => ?_)
  have hrest : Alike id (modify (saveStack t) >>= fun _ => Watched.driveSlices look k t method fuel)
      (modify (saveStack t) >>= fun _ => Watched.driveSlices look' l t method fuel) :=
    Alike.bind (.modify fun _ _ => veil_eq veil_saveStack) fun _ => driveSlices_alike hl hk method fuel
  cases flow with
  | finished v => exact .pure _
  | next => exact hrest
  | pause => exact hrest

theorem runSynthetic_alike (hl : ∀ running, Alike id (look running) (look' running))
    (hk : Nested.Alike id k l) (fuel : Nat) (method : MethodId) (args : List Value) :
    Alike id (Watched.runSynthetic look k fuel method args)
      (Watched.runSynthetic look' l fuel method args) := by
  refine Alike.read (fun m => ?_) fun _ => rfl
  refine (spawnThread_alike _).bind fun thread => (Alike.updateThread _).bind fun _ => ?_
  exact (drive_alike hl hk fuel method args).ensuring fun _ _ => veil_eq (u := fun n =>
    { n with
      scheduler := ((n.scheduler.terminate thread).2.remove thread).2
      yieldRequested := m.yieldRequested }) fun _ => rfl

theorem enterThread_alike {g : UInt32 → UInt32} (hk : Nested.Alike g k l) (method : MethodId)
    (args : List Value) : Alike g (enterThread k t method args) (enterThread l t method args) := by
  refine Alike.onFreshStack ((ensureInitialized_alike hk _).bind fun _ => ?_)
  have hcall := (invokeMethod_alike (t := t) hk method args).ensuring fun _ _ =>
    veil_eq (u := saveStack t) veil_saveStack
  refine hcall.bind fun flow => ?_
  cases flow with
  | finished v => exact (Alike.onScheduler _).bind fun _ => .pure _
  | next => exact .pure _
  | pause => exact .pure _

end Slices

namespace Announced

variable {a b : Announcer}

theorem announcing_alike (h : a.Alike b) {k l : Nested} (hk : Nested.Alike id k l) :
    Nested.Alike id (announcing a k) (announcing b l) :=
  ⟨fun method args => (h.start method).bind fun _ => hk.call method args, hk.enter⟩

theorem nested_alike (h : a.Alike b) (fuel : Nat) : Nested.Alike id (nested a fuel) (nested b fuel) := by
  induction fuel with
  | zero => exact ⟨fun _ _ => .throw _, fun _ _ _ => .throw _⟩
  | succ fuel ih =>
    exact ⟨fun method args => runSynthetic_alike h.between (announcing_alike h ih) fuel method args,
      fun thread method args => enterThread_alike (announcing_alike h ih) method args⟩

theorem step_alike (h : a.Alike b) (fuel : Nat) : Machine.Alike id (step a fuel) (step b fuel) := by
  unfold step
  refine (h.between none).bind fun _ => (Alike.onScheduler _).bind fun next => ?_
  cases next with
  | none => exact .pure _
  | some thread =>
    have hslice := runSlice_alike (t := thread) h.between (announcing_alike h (nested_alike h fuel))
    refine (hslice.ensuring fun _ _ => veil_eq (u := fun m =>
      { m with scheduler := m.scheduler.endSlice }) fun _ => rfl).bind fun ended => ?_
    refine (h.between none).bind fun _ => ?_
    cases ended with
    | finished v => exact (Alike.onScheduler _).bind fun _ => .pure _
    | uncaught exception => exact (threadDied_alike exception).bind fun _ => .pure _
    | yielded => exact .pure _
    | blocked => exact .pure _

theorem runSlices_alike (h : a.Alike b) (fuel slices : Nat) :
    Machine.Alike id (runSlices a fuel slices) (runSlices b fuel slices) := by
  induction slices with
  | zero => exact .throw _
  | succ slices ih =>
    unfold runSlices
    refine (Alike.onScheduler _).bind fun stop => ?_
    split
    · exact .pure _
    · refine Alike.read (fun m => ?_) fun _ => rfl
      split
      · exact .pure _
      · refine (step_alike h fuel).bind fun picked => ?_
        cases picked with
        | some thread => exact ih
        | none =>
          refine Alike.read (fun m => ?_) fun _ => rfl
          cases m.scheduler.nextDeadline? with
          | none => exact .pure _
          | some deadline => exact Alike.bind (.of_oblivious fun _ _ _ => rfl) fun _ => ih

end Announced

section Hosts

variable {α : Type} {g : UInt32 → UInt32}

theorem Alike.forHost {x y : MachineM α} (hx : Alike g x y) : Alike g (forHost x) (forHost y) := by
  intro m n hmn
  have hxy := hx m n hmn
  have herror : ∀ (e : Trap) (m n : Machine), veil g m = veil g n → m.hostError e = n.hostError e :=
    fun e m n h => by
      rw [show m.hostError e = (veil g m).hostError e by cases e <;> rfl, h]
      cases e <;> rfl
  unfold Machine.forHost
  generalize x m = r, y n = s at hxy ⊢
  cases hxy with
  | ok a hafter => exact .ok a hafter
  | error e hafter =>
    dsimp only
    rw [herror e _ _ hafter]
    exact .error _ hafter

theorem findMethod_alike (className name descriptor : String) :
    Alike g (findMethod className name descriptor) (findMethod className name descriptor) := by
  refine Alike.read (fun m => ?_) fun _ => rfl
  cases m.classes.lookup? className with
  | none => exact .throw _
  | some id =>
    refine (Alike.forHost (.of_oblivious fun _ _ _ => rfl)).bind fun found => ?_
    cases found with
    | ok method => exact .pure _
    | error e => exact .throw _

theorem load_alike (d : ClassDefinition) : Alike g (load d) (load d) := by
  refine (Alike.forHost (.of_oblivious fun _ _ _ => rfl)).bind fun result => ?_
  cases result with
  | ok id => exact (Alike.forHost (.of_oblivious fun _ _ _ => rfl)).bind fun _ => .pure _
  | error e => exact .throw _

theorem invokeWith_alike {k l : Nested} (hk : Nested.Alike g k l) (className name descriptor : String)
    (args : List Value) : Alike g (invokeWith k className name descriptor args)
      (invokeWith l className name descriptor args) :=
  (findMethod_alike _ _ _).bind fun method => (hk.call method args).forHost

theorem spawnWith_alike {k l : Nested} (hk : Nested.Alike g k l) (className name descriptor : String)
    (args : List Value) : Alike g (spawnWith k className name descriptor args)
      (spawnWith l className name descriptor args) := by
  refine (findMethod_alike _ _ _).bind fun method => Alike.forHost ?_
  refine (spawnThread_alike _).bind fun thread => (hk.enter thread method args).attempt.bind fun result => ?_
  cases result with
  | ok u => exact .pure _
  | error trap => exact (Alike.onScheduler _).bind fun _ => .throw _

end Hosts

end Machine

namespace HostAct
open Machine

variable {a b : Announcer}

theorem announced_alike (h : a.Alike b) (act : HostAct) :
    Machine.Alike id (act.announced a) (act.announced b) := by
  have hdone : ∀ {α : Type} {x y : HostM α}, Machine.Alike id x y →
      Machine.Alike id (do let _ ← x : HostM Unit) (do let _ ← y : HostM Unit) := fun hx =>
    hx.bind fun _ => .pure _
  have hr : Rules 0 (Likeness id) := rules_alike
  cases act with
  | offer owner name descriptor native => exact hdone (.of_oblivious fun _ _ _ => rfl)
  | call c =>
    cases c with
    | load d => exact hdone (load_alike d)
    | invoke fuel className name descriptor args =>
      exact hdone (invokeWith_alike (Announced.nested_alike h fuel) className name descriptor args)
    | spawn fuel className name descriptor args =>
      exact hdone (spawnWith_alike (Announced.nested_alike h fuel) className name descriptor args)
    | step fuel => exact hdone (Announced.step_alike h fuel).forHost
    | run fuel => exact hdone (Announced.runSlices_alike h fuel fuel).forHost
    | send r => exact .of_oblivious fun _ _ _ => rfl
    | attach t => exact .of_oblivious fun _ _ _ => rfl
    | interrupt t => exact .of_oblivious fun _ _ _ => rfl
    | advance millis => exact .of_oblivious fun _ _ _ => rfl
    | newString text => exact hdone (Alike.forHost (hr.stringObject text))
    | collect => exact hdone (Alike.forHost hr.collectGarbage)

/-- What is announced leaves all as it is but the trace. -/
theorem performed_alike (h : a.Alike b) (acts : List HostAct) {m n : Machine}
    (hmn : veil id m = veil id n) : veil id (performed a acts m) = veil id (performed b acts n) := by
  induction acts generalizing m n with
  | nil => exact hmn
  | cons act rest ih =>
    refine ih ?_
    have hact := announced_alike h act m n hmn
    show veil id (leaving (act.announced a) m) = veil id (leaving (act.announced b) n)
    unfold leaving
    generalize act.announced a m = r, act.announced b n = s at hact ⊢
    cases hact with
    | ok u hafter => exact hafter
    | error e hafter => exact hafter

end HostAct

end ClassMachine
