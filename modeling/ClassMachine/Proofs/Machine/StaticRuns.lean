import ClassMachine.Proofs.Machine.Creation
import ClassMachine.Proofs.Machine.MethodMonitors
import ClassMachine.Proofs.Machine.StaticStorage

/-!
Static fields in whole runs. A class is initialized by the time one of its fields is accessed, whatever
initializers that run before the access do, so no instruction asks for a slot that is not there.
-/
namespace ClassMachine.Machine
open Stateful ClassTable

variable {α : Type} {t : ThreadId} {k : Nested}

/-- Calls that keep static fields stored. -/
structure Nested.Upholds (k : Nested) : Prop where
  call : ∀ method args, Machine.Upholds Trap.isSlotless (k.call method args)
  enter : ∀ thread method args, Machine.Upholds Trap.isSlotless (k.enter thread method args)

section Stacks

variable {m : Machine} {s : Scheduler FrameStack}

/-- A thread is given frames that some thread had. -/
theorem stands_update {stack : FrameStack} (hstack : ∀ f ∈ stack, f ∈ m.active ∨
      ∃ u r', m.scheduler.get? u = some r' ∧ f ∈ r'.stack) :
    ∀ u r, (m.scheduler.update t fun r => { r with stack := stack }).get? u = some r →
      ∀ f ∈ r.stack, f ∈ m.active ∨ ∃ u r', m.scheduler.get? u = some r' ∧ f ∈ r'.stack := by
  intro u r hr f hf
  rw [Scheduler.get?_update] at hr
  split at hr
  · obtain ⟨r', _, rfl⟩ := Option.map_eq_some_iff.1 hr
    exact hstack f hf
  · exact .inr ⟨u, r, hr, hf⟩

theorem swapStack_aside (t : ThreadId) (m : Machine) : m.Aside (swapStack t m) := by
  unfold swapStack
  cases hr : m.scheduler.get? t with
  | none => exact .of_eq rfl rfl rfl rfl
  | some r =>
    exact .of_threads (stands_update fun _ hf => .inl hf) (fun _ hf => .inr ⟨t, r, hr, hf⟩) rfl rfl rfl rfl

theorem saveStack_aside (t : ThreadId) (m : Machine) : m.Aside (saveStack t m) :=
  .of_threads (stands_update fun _ hf => .inl hf) (List.forall_mem_nil _) rfl rfl rfl rfl

theorem takeStack_aside (t : ThreadId) (m : Machine) : m.Aside (takeStack t m) := by
  unfold takeStack
  cases hr : m.scheduler.get? t with
  | none => exact .of_eq rfl rfl rfl rfl
  | some r =>
    exact .of_threads (stands_update (List.forall_mem_nil _)) (fun _ hf => .inr ⟨t, r, hr, hf⟩) rfl rfl rfl rfl

theorem Upholds.withParked (t : ThreadId) {x : MachineM α} (hx : Upholds Trap.isSlotless x) :
    Upholds Trap.isSlotless (withParked t x) :=
  (Upholds.modify (swapStack_aside t)).bind fun _ => hx.ensuring (swapStack_aside t)

/-- The frames that come back were there before. -/
theorem Upholds.onFreshStack {x : MachineM α} (hx : Upholds Trap.isSlotless x) :
    Upholds Trap.isSlotless (onFreshStack x) := by
  intro m hm
  let m₀ : Machine := { m with active := [] }
  have h₀ : Lasts m m₀ := Aside.lasts (.of_threads (fun t r hr _ hf => .inr ⟨t, r, hr, hf⟩)
    (List.forall_mem_nil _) rfl rfl rfl rfl) hm
  have hback : ∀ n : Machine, Lasts m n → Lasts m { n with active := m.active } := by
    intro n hn
    refine ⟨⟨hn.stored.regular, hn.stored.sited, fun code hcode => ?_, hn.stored.statics⟩, hn.precedes⟩
    cases hcode with
    | running hf hcode => exact (hm.bodies code (.running hf hcode)).precedes hn.precedes
    | parked hr hf hcode => exact hn.stored.bodies code (.parked hr hf hcode)
  have hends := hx m₀ h₀.stored
  show Ends (Machine.ensuring x (fun n => { n with active := m.active }) m₀) _ _
  unfold Machine.ensuring
  cases hr : x m₀ with
  | ok a n => exact hback n (h₀.trans (hends.of_ok hr))
  | error e n =>
    obtain ⟨h, he⟩ := hends.of_error hr
    exact ⟨hback n (h₀.trans h), he⟩

/-- A thread that is made has no frames. -/
theorem spawned_aside (object : Ref) (m : Machine) :
    m.Aside { m with scheduler := (m.scheduler.spawn object []).2 } := by
  refine .of_threads (s := (m.scheduler.spawn object []).2) (fun t r hr f hf => ?_)
    (fun _ hf => .inl hf) rfl rfl rfl rfl
  rw [Scheduler.get?_spawn] at hr
  split at hr
  · cases hr
    simp at hf
  · exact .inr ⟨t, r, hr, hf⟩

theorem spawnThread_upholds (object : Ref) : Upholds Trap.isSlotless (spawnThread object) := by
  refine .of_aside fun m => ?_
  unfold spawnThread
  split
  · exact ⟨.of_eq rfl rfl rfl rfl, rfl⟩
  · exact spawned_aside object m

end Stacks

section Initialization

variable {m : Machine} {id : ClassId}

/-- A class that is there is cleared, and has its slots, before its initializer starts. -/
theorem initializeOne_lasts (hk : Nested.Upholds k) (hm : Stored m) :
    Ends (initializeOne k t id m)
      (fun _ m' => Lasts m m' ∧ ((∃ c, m.classes.get? id = some c) → m'.classes.Cleared id))
      fun e m' => Lasts m m' ∧ e.isSlotless = false := by
  let m₁ : Machine := { m with linker := (Linker.prepare id m.linker).2 }
  have h₁ : Lasts m m₁ := .of_turns hm ((Linker.consulting_prepare id).turning m.linker)
    (hm.regular.grows (Linker.prepare_grows id m.linker).classes) ((Linker.Move.prepare id).sited hm.sited)
  have hfound : (Linker.prepare id m.linker).1 = m₁.classes.get? id := prepare_fst id m.linker
  unfold initializeOne
  rw [bind_of_ok (show Machine.onLinker (Linker.prepare id) m = .ok (m₁.classes.get? id) m₁ by
    rw [← hfound]; rfl)]
  cases hc : m₁.classes.get? id with
  | none =>
    refine ⟨h₁, fun ⟨c, hknown⟩ => ?_⟩
    obtain ⟨c', hc', _⟩ := h₁.precedes id c hknown
    cases hc.symm.trans hc'
  | some c =>
    dsimp only
    let m₂ : Machine := { m₁ with linker := { m₁.linker with classes := (takePendingInit id m₁.classes).2 } }
    rw [bind_of_ok (show Machine.onClasses (takePendingInit id) m₁ = .ok (some c.pendingInit) m₂ by
      show EStateM.Result.ok ((m₁.classes.get? id).map (·.pendingInit)) m₂ = _
      rw [hc]
      rfl)]
    have hprecedes : m₁.classes.Precedes m₂.classes := takePendingInit_precedes id m₁.classes
    have hcleared : m₂.classes.Cleared id :=
      ⟨_, by rw [show m₂.classes.get? id = _ from get?_takePendingInit .., if_pos rfl, hc]; rfl, rfl⟩
    have hbodies : ∀ code, m₁.Stands code → code.Sited m₂.classes := fun code hcode =>
      (h₁.stored.bodies code hcode).precedes hprecedes
    split
    · next hpending =>
      rw [bind_modify]
      let m₃ : Machine := { m₂ with statics := m₂.statics.ensure id c.staticKinds }
      have hstored : Stored m₃ := by
        refine ⟨h₁.stored.regular.takePendingInit id, h₁.stored.sited.takePendingInit id,
          fun code hcode => hbodies code ?_, h₁.stored.statics.takePendingInit hc (Option.some.inj hpending)⟩
        cases hcode with
        | running hf hcode => exact .running hf hcode
        | parked hr hf hcode => exact .parked hr hf hcode
      have h₃ : Lasts m m₃ := h₁.trans ⟨hstored, hprecedes⟩
      cases c.staticInitializer? with
      | none => exact ⟨h₃, fun _ => hcleared⟩
      | some initializer =>
        refine (((hk.call initializer.id []).withParked t m₃ hstored).mono (fun _ _ h => h)
          fun _ _ h => ⟨h₃.trans h.1, h.2⟩).bind fun _ m' h => ?_
        exact ⟨h₃.trans h, fun _ => h.precedes.cleared hcleared⟩
    · next hdone =>
      have hp : c.pendingInit = false := by simpa using hdone
      have hstored : Stored m₂ := by
        refine ⟨h₁.stored.regular.takePendingInit id, h₁.stored.sited.takePendingInit id,
          fun code hcode => hbodies code ?_, h₁.stored.statics.of_get? (get?_takePendingInit_cleared hc hp)⟩
        cases hcode with
        | running hf hcode => exact .running hf hcode
        | parked hr hf hcode => exact .parked hr hf hcode
      exact ⟨h₁.trans ⟨hstored, hprecedes⟩, fun _ => hcleared⟩

theorem initializeAll_lasts (hk : Nested.Upholds k) (ids : List ClassId) (hm : Stored m) :
    Ends (initializeAll k t ids m)
      (fun _ m' => Lasts m m' ∧ ∀ x ∈ ids, (∃ c, m.classes.get? x = some c) → m'.classes.Cleared x)
      fun e m' => Lasts m m' ∧ e.isSlotless = false := by
  induction ids generalizing m with
  | nil => exact ⟨.refl hm, fun x hx => by cases hx⟩
  | cons id ids ih =>
    unfold initializeAll
    refine (initializeOne_lasts hk hm).bind fun _ m₁ ⟨h₁, hcleared⟩ => ?_
    refine (ih h₁.stored).mono (fun _ m₂ ⟨h₂, hrest⟩ => ⟨h₁.trans h₂, fun x hx hknown => ?_⟩)
      fun _ _ h => ⟨h₁.trans h.1, h.2⟩
    rcases List.mem_cons.1 hx with rfl | hx
    · exact h₂.precedes.cleared (hcleared hknown)
    · obtain ⟨c, hc⟩ := hknown
      obtain ⟨c₁, hc₁, _⟩ := h₁.precedes x c hc
      exact hrest x hx ⟨c₁, hc₁⟩

/-- A class that is there is cleared once it is initialized. -/
theorem ensureInitialized_lasts (hk : Nested.Upholds k) (hm : Stored m) :
    Ends (ensureInitialized k t id m)
      (fun _ m' => Lasts m m' ∧ ((∃ c, m.classes.get? id = some c) → m'.classes.Cleared id))
      fun e m' => Lasts m m' ∧ e.isSlotless = false := by
  unfold ensureInitialized
  rw [bind_get]
  split
  · let m₁ : Machine := { m with linker := { m.linker with classes := (ancestry id m.classes).2 } }
    have h₁ : Lasts m m₁ := Lasts.of_turns (l := { m.linker with classes := (ancestry id m.classes).2 }) hm
      ((Linker.consulting_asks (ancestry_asks id)).turning m.linker)
      (Linker.Consults.regular (Linker.consulting_asks (ancestry_asks id) m.linker) hm.regular)
      (Linker.Consults.sited (Linker.consulting_asks (ancestry_asks id) m.linker) hm.sited)
    rw [bind_of_ok (show onClasses (ancestry id) m = .ok (ancestry id m.classes).1 m₁ from rfl)]
    refine (initializeAll_lasts hk _ h₁.stored).mono (fun _ m' ⟨h, hcleared⟩ => ⟨h₁.trans h, fun hknown => ?_⟩)
      fun _ _ h => ⟨h₁.trans h.1, h.2⟩
    obtain ⟨c, hc⟩ := hknown
    obtain ⟨c₁, hc₁, _⟩ := h₁.precedes id c hc
    exact hcleared id (List.mem_reverse.2 (self_mem_ancestry id m.classes)) ⟨c₁, hc₁⟩
  · next hdone =>
    refine ⟨.refl hm, fun ⟨c, hc⟩ => ⟨c, hc, ?_⟩⟩
    simpa [isPendingInit, hc] using hdone

theorem ensureInitialized_upholds (hk : Nested.Upholds k) (id : ClassId) :
    Upholds Trap.isSlotless (ensureInitialized k t id) := fun _ hm =>
  (ensureInitialized_lasts hk hm).mono (fun _ _ h => h.1) fun _ _ h => h

/-- An access of a static field that was linked finds the field. -/
theorem accessStatic_lasts (hk : Nested.Upholds k) {i : Instruction} (hi : i.isStaticAccess = true)
    (hm : Stored m) (hsited : i.Sited m.classes) :
    Ends (executeInstruction k t i m) (fun _ m' => Lasts m m') fun e m' => Lasts m m' ∧ e.isSlotless = false := by
  have hr : Course t Upholding Upholding (@Upholding Flow) := course_upholds
  have hlast : ∀ {m₁ m₂ : Machine} {owner : ClassId} {slot : Nat}, m.classes.HasStatic owner slot → Lasts m m₁ →
      m₁.classes.Cleared owner → Lasts m₁ m₂ → ∃ v, m₂.statics.get? owner slot = some v :=
    fun hstatic h₁ hcleared h₂ => h₂.stored.statics.get? (hstatic.precedes (h₁.trans h₂).precedes)
      (h₂.precedes.cleared hcleared)
  cases i with
  | getStatic owner slot kind =>
    have hstatic : m.classes.HasStatic owner slot := hsited
    obtain ⟨c, hc, _⟩ := hsited
    refine Ends.bind (Q := fun _ m' => Lasts m m') (E := fun (e : Trap) m' => Lasts m m' ∧ e.isSlotless = false)
      ?_ fun v m' h => ?_
    · refine (ensureInitialized_lasts hk hm).bind fun _ m₁ ⟨h₁, hcleared⟩ => ?_
      obtain ⟨v, hv⟩ := hlast hstatic h₁ (hcleared ⟨c, hc⟩) (.refl h₁.stored)
      rw [bind_get, hv]
      exact h₁
    · exact ((hr.push v).bind (fun _ => .pure _) m' h.stored).mono (fun _ _ h' => h.trans h')
        fun _ _ h' => ⟨h.trans h'.1, h'.2⟩
  | putStatic owner slot kind =>
    have hstatic : m.classes.HasStatic owner slot := hsited
    obtain ⟨c, hc, _⟩ := hsited
    refine Ends.bind (Q := fun _ m' => Lasts m m') (E := fun (e : Trap) m' => Lasts m m' ∧ e.isSlotless = false)
      ?_ fun v m' h => h
    refine (ensureInitialized_lasts hk hm).bind fun _ m₁ ⟨h₁, hcleared⟩ => ?_
    have hpop : Ends (onTop Frame.pop m₁) (fun _ m₂ => Lasts m₁ m₂)
        fun (e : Trap) m₂ => Lasts m m₂ ∧ e.isSlotless = false :=
      (Upholds.onTop Frame.plain_pop m₁ h₁.stored).mono (fun _ _ h => h) fun _ _ h => ⟨h₁.trans h.1, h.2⟩
    refine hpop.bind fun v m₂ h₂ => ?_
    obtain ⟨w, hw⟩ := hlast hstatic h₁ (hcleared ⟨c, hc⟩) h₂
    rw [bind_get]
    cases hset : m₂.statics.set? owner slot (v.narrowTo kind) with
    | none => simp [Statics.set?, hw] at hset
    | some s =>
      refine (h₁.trans h₂).trans ⟨⟨h₂.stored.regular, h₂.stored.sited, fun code hcode => h₂.stored.bodies code ?_,
        h₂.stored.statics.set? hset⟩, .refl _⟩
      cases hcode with
      | running hf hcode => exact .running hf hcode
      | parked hr hf hcode => exact .parked hr hf hcode
  | _ => cases hi

end Initialization

section Slices

theorem ended_aside (thread : ThreadId) (reports : List UncaughtException) (m : Machine) :
    m.Aside { m with scheduler := (m.scheduler.terminate thread).2, uncaught := reports } :=
  .of_pointwise (fun _ _ h => h.stack) (m.scheduler.terminate_alike thread) rfl rfl rfl rfl

theorem threadDied_upholds (thread : ThreadId) (exception : Ref) :
    Upholds Trap.isSlotless (threadDied thread exception) := by
  refine .of_aside fun m => ?_
  unfold threadDied
  rw [bind_get]
  cases m.config.uncaught with
  | terminateThread => exact ended_aside thread _ m
  | abort => exact ⟨ended_aside thread _ m, rfl⟩

theorem threadStart_upholds (hk : Nested.Upholds k) (object : Ref) :
    Upholds Trap.isSlotless (threadStart k t object) := by
  have hr : Course t Upholding Upholding (@Upholding Flow) := course_upholds
  have hraise : ∀ {β : Type} (className : String) (message : Option String),
      Upholds Trap.isSlotless (raise className message : MachineM β) := fun className message =>
    hr.raise hr.seq className message
  unfold threadStart
  split
  · exact hraise _ _
  · refine .read fun m => ?_
    split
    · exact hraise _ _
    · refine .read fun m => Upholds.bind (hr.selectVirtual object _) fun run =>
        (spawnThread_upholds object).bind fun started => ?_
      refine ((hk.enter started run [.ref object]).withParked t).attempt (fun _ => .pure _) fun trap htrap => ?_
      cases trap with
      | exception exception => exact threadDied_upholds started exception
      | fatal e => exact .throw htrap
      | outOfFuel => exact .throw htrap

theorem invokeMethod_upholds (hk : Nested.Upholds k) (method : MethodId) (args : List Value) :
    Upholds Trap.isSlotless (invokeMethod k t method args) :=
  course_upholds.invokeMethod (l := k) method args (threadStart_upholds hk)

theorem executeInstruction_upholds (hk : Nested.Upholds k) {i : Instruction} (hi : i.isStaticAccess = false) :
    Upholds Trap.isSlotless (executeInstruction k t i) := by
  have hr : Course t Upholding Upholding (@Upholding Flow) := course_upholds
  refine hr.executeWriting (l := k) writes_upholds i (fun h => ?_) (ensureInitialized_upholds hk)
    (threadStart_upholds hk)
  rw [hi] at h
  cases h

/-- An instruction that is fetched is one of the body it is fetched from. -/
theorem fetch_mem {f g : Frame} {i : Instruction} (h : fetch f = .ok i g) : i ∈ f.code.instructions := by
  unfold fetch at h
  split at h
  · next hi =>
    cases h
    exact Array.mem_of_getElem? hi
  · cases h

theorem executeOne_upholds (hk : Nested.Upholds k) : Upholds Trap.isSlotless (executeOne k t) := by
  intro m hm
  have hfetch : Ends (onTop fetch m) (fun i m₁ => Lasts m m₁ ∧ i.Sited m₁.classes)
      fun (e : Trap) m₁ => Lasts m m₁ ∧ e.isSlotless = false := by
    have hends := Upholds.onTop plain_fetch m hm
    cases hrun : onTop fetch m with
    | error e m₁ => exact hends.of_error hrun
    | ok i m₁ =>
      have h := hends.of_ok hrun
      refine ⟨h, ?_⟩
      unfold onTop at hrun
      split at hrun
      · cases hrun
      · next f rest hactive =>
        split at hrun
        · next i' g hf =>
          cases hrun
          exact hm.bodies f.code (.running (hactive ▸ List.mem_cons_self) rfl) i (fetch_mem hf)
        · cases hrun
  refine hfetch.bind fun i m₁ ⟨h₁, hsited⟩ => ?_
  have hrun : Ends (executeInstruction k t i m₁) (fun _ m' => Lasts m₁ m')
      fun e m' => Lasts m₁ m' ∧ e.isSlotless = false := by
    cases hi : i.isStaticAccess with
    | true => exact accessStatic_lasts hk hi h₁.stored hsited
    | false => exact executeInstruction_upholds hk hi m₁ h₁.stored
  exact hrun.mono (fun _ _ h => h₁.trans h) fun _ _ h => ⟨h₁.trans h.1, h.2⟩

theorem handleTrap_upholds {trap : Trap} (htrap : trap.isSlotless = false) :
    Upholds Trap.isSlotless (handleTrap t trap) := by
  cases trap with
  | exception exception =>
    refine (unwind_upholds exception).bind fun found => ?_
    cases found <;> exact .pure _
  | fatal e => exact .throw htrap
  | outOfFuel => exact .throw htrap

theorem execute_upholds (hk : Nested.Upholds k) (budget : Nat) : Upholds Trap.isSlotless (execute k t budget) := by
  induction budget with
  | zero => exact .pure _
  | succ budget ih =>
    unfold execute
    refine (executeOne_upholds hk).attempt (fun flow => ?_) fun trap htrap => ?_
    · cases flow with
      | next => exact ih
      | pause => exact .read fun _ => .pure _
      | finished v => exact .pure _
    · refine (handleTrap_upholds htrap).bind fun ended => ?_
      cases ended with
      | none => exact ih
      | some e => exact .pure _

theorem takeParkedInterrupt_upholds : Upholds Trap.isSlotless (takeParkedInterrupt t) := by
  unfold takeParkedInterrupt
  refine .read fun m => ?_
  split
  · split
    · exact (Upholds.updateThread t (f := fun u => { u with interruptible := false, interrupted := false })
        fun _ => rfl).bind fun _ => .pure _
    · exact .pure _
  · exact .pure _

theorem resume_upholds (hk : Nested.Upholds k) (budget : Nat) : Upholds Trap.isSlotless (resume k t budget) := by
  have hr : Rules t Upholding := rules_upholds
  have hrun := execute_upholds (t := t) hk budget
  unfold resume
  refine (Upholds.onSync (Sync.resume_gentle t)).along fun result hreaches => ?_
  cases result with
  | error e =>
    cases e with
    | fatal e => exact .throw ((Sync.plain_resume t).error hreaches)
    | monitor e => exact hr.raiseSync hr.seq rfl
  | ok outcome =>
    cases outcome with
    | blocked => exact .pure _
    | _ =>
      refine takeParkedInterrupt_upholds.bind fun interrupted => ?_
      split
      · have hraise : Upholds Trap.isSlotless (raise (α := Unit) CoreName.interrupted none) := hr.raise hr.seq _ _
        refine hraise.attempt (fun _ => hrun) fun trap htrap => (handleTrap_upholds htrap).bind fun ended => ?_
        cases ended with
        | none => exact hrun
        | some e => exact .pure _
      · exact hrun

theorem runSlice_upholds (hk : Nested.Upholds k) : Upholds Trap.isSlotless (runSlice k t) := by
  unfold runSlice
  refine Upholds.bind (.modify fun _ => .of_eq rfl rfl rfl rfl) fun _ => .read fun m => ?_
  cases m.scheduler.get? t with
  | none => exact .pure _
  | some r =>
    exact (Upholds.modify (takeStack_aside t)).bind fun _ => (resume_upholds hk _).ensuring (saveStack_aside t)

theorem alike_of_threads_eq {s s' : Scheduler FrameStack} (ht : s'.threads = s.threads)
    (hn : s'.nextId = s.nextId) : s.Alike s' := Scheduler.pointwise_of_threads_eq Thread.Alike.refl ht hn

theorem idled_aside (deadline : UInt64) (m : Machine) :
    m.Aside { m with scheduler := (m.scheduler.idleUntil deadline).wakeExpired.2 } := by
  have hidle : m.scheduler.Alike (m.scheduler.idleUntil deadline) := alike_of_threads_eq rfl rfl
  exact .of_alike (hidle.trans (m.scheduler.idleUntil deadline).wakeExpired_wakes.alike)

theorem awaitDeadline_upholds (method : MethodId) : Upholds Trap.isSlotless (awaitDeadline t method) := by
  refine .read fun m => ?_
  cases (m.scheduler.get? t).map (·.state) with
  | none => exact .throw rfl
  | some state =>
    cases state with
    | ready => exact .pure _
    | detached => exact .throw rfl
    | terminated => exact .throw rfl
    | detachedUntil deadline => exact .modify (idled_aside deadline)

theorem driveSlices_upholds (hk : Nested.Upholds k) (method : MethodId) (fuel : Nat) :
    Upholds Trap.isSlotless (driveSlices k t method fuel) := by
  induction fuel with
  | zero => exact .throw rfl
  | succ fuel ih =>
    unfold driveSlices
    refine (runSlice_upholds hk).bind fun ended => ?_
    cases ended with
    | finished v => exact .pure _
    | uncaught exception => exact .throw rfl
    | yielded => exact ih
    | blocked => exact (awaitDeadline_upholds method).bind fun _ => ih

theorem drive_upholds (hk : Nested.Upholds k) (fuel : Nat) (method : MethodId) (args : List Value) :
    Upholds Trap.isSlotless (drive k fuel t method args) := by
  refine ((ensureInitialized_upholds hk method.owner).bind fun _ =>
    (invokeMethod_upholds hk method args).bind fun flow => ?_).onFreshStack
  have hrest : Upholds Trap.isSlotless (modify (saveStack t) >>= fun _ => driveSlices k t method fuel) :=
    (Upholds.modify (saveStack_aside t)).bind fun _ => driveSlices_upholds hk method fuel
  cases flow with
  | finished v => exact .pure _
  | next => exact hrest
  | pause => exact hrest

/-- A thread that is taken away leaves the frames of the others. -/
theorem removed_aside (thread : ThreadId) (yielded : Bool) (m : Machine) :
    m.Aside { m with
      scheduler := ((m.scheduler.terminate thread).2.remove thread).2
      yieldRequested := yielded } := by
  refine .of_threads (fun u r hr f hf => .inr ?_) (fun _ hf => .inl hf) rfl rfl rfl rfl
  rw [Scheduler.get?_remove] at hr
  split at hr
  · cases hr
  · obtain ⟨r', hr', halike⟩ := (m.scheduler.terminate_alike thread).exists_of_some' hr
    exact ⟨u, r', hr', halike.stack ▸ hf⟩

theorem runSynthetic_upholds (hk : Nested.Upholds k) (fuel : Nat) (method : MethodId) (args : List Value) :
    Upholds Trap.isSlotless (runSynthetic k fuel method args) :=
  .read fun m₀ => (spawnThread_upholds .null).bind fun thread =>
    (Upholds.updateThread thread (f := fun u => { u with synthetic := true }) fun _ => rfl).bind fun _ =>
      (drive_upholds hk fuel method args).ensuring (removed_aside thread m₀.yieldRequested)

theorem enterThread_upholds (hk : Nested.Upholds k) (method : MethodId) (args : List Value) :
    Upholds Trap.isSlotless (enterThread k t method args) := by
  refine ((ensureInitialized_upholds hk method.owner).bind fun _ =>
    ((invokeMethod_upholds hk method args).ensuring (saveStack_aside t)).bind fun flow => ?_).onFreshStack
  cases flow with
  | finished v => exact (Upholds.onScheduler fun s => s.terminate_alike t).bind fun _ => .pure _
  | next => exact .pure _
  | pause => exact .pure _

theorem nested_upholds (fuel : Nat) : Nested.Upholds (nested fuel) := by
  induction fuel with
  | zero => exact ⟨fun _ _ => .throw rfl, fun _ _ _ => .throw rfl⟩
  | succ fuel ih =>
    exact ⟨fun method args => runSynthetic_upholds ih fuel method args,
      fun thread method args => enterThread_upholds ih method args⟩

theorem step_upholds (fuel : Nat) : Upholds Trap.isSlotless (step fuel) := by
  unfold step
  refine (Upholds.onScheduler fun s => s.next_wakes.alike).bind fun next => ?_
  cases next with
  | none => exact .pure _
  | some thread =>
    refine ((runSlice_upholds (nested_upholds fuel)).ensuring fun m => .of_alike
      (@alike_of_threads_eq m.scheduler m.scheduler.endSlice rfl rfl)).bind fun ended => ?_
    cases ended with
    | finished v => exact (Upholds.onScheduler fun s => s.terminate_alike thread).bind fun _ => .pure _
    | uncaught exception => exact (threadDied_upholds thread exception).bind fun _ => .pure _
    | yielded => exact .pure _
    | blocked => exact .pure _

theorem runSlices_upholds (fuel slices : Nat) : Upholds Trap.isSlotless (runSlices fuel slices) := by
  induction slices with
  | zero => exact .throw rfl
  | succ slices ih =>
    unfold runSlices
    refine (Upholds.onScheduler fun s => s.drain_wakes.alike).bind fun stop => ?_
    split
    · exact .pure _
    · refine .read fun m => ?_
      split
      · exact .pure _
      · refine (step_upholds fuel).bind fun picked => ?_
        cases picked with
        | some thread => exact ih
        | none =>
          refine .read fun m => ?_
          cases m.scheduler.nextDeadline? with
          | none => exact .pure _
          | some deadline =>
            exact Upholds.bind (.modify fun m => .of_alike (alike_of_threads_eq rfl rfl)) fun _ => ih

end Slices

end ClassMachine.Machine

/-!
Static fields, whatever a host does with a machine. A new machine stores none, and none of its classes is
initialized. What a host asks for then keeps the two in step, whether or not it comes to a result.
-/
namespace ClassMachine

namespace Linker
open Stateful

variable {l l' : Linker}

theorem Request.sited (r : Request) (h : l.classes.Sited) : (r.run l).classes.Sited := by
  have hasks : ∀ {α : Type} {x : StateM ClassTable α}, ClassTable.Asking x →
      (onClasses x l).2.classes.Sited := fun hx => Moves.sited (moves_of_asks (hx l.classes)) h
  cases r with
  | register d => exact register_sited d l h
  | arrayClass name => exact hasks (ClassTable.arrayClass_asks name)
  | arrayOf element => exact hasks (ClassTable.arrayOf_asks element)
  | prepare id => exact Move.sited (.prepare id) h
  | link id => exact (link_sited id h).1
  | intern name descriptor => exact Move.sited (.intern name descriptor) h
  | superclass id => exact hasks (ClassTable.superclass_asks id)
  | interfaces id => exact hasks (ClassTable.interfaces_asks id)
  | ancestry id => exact hasks (ClassTable.ancestry_asks id)
  | isSubclass sub sup => exact hasks (ClassTable.isSubclass_asks sub sup)
  | resolveMethod id name descriptor => exact hasks (ClassTable.resolveMethod_asks id name descriptor)
  | resolveField id name descriptor => exact hasks (ClassTable.resolveField_asks id name descriptor)

theorem Reachable.sited (h : l.Reachable) : l.classes.Sited := by
  obtain ⟨access, hleads⟩ := h
  induction hleads with
  | refl => exact ClassTable.sited_empty
  | tail _ hr ih =>
    obtain ⟨r, rfl⟩ := hr
    exact r.sited ih

/-- Tables in order, in which bodies access static fields that are there, stay such tables. -/
theorem keeping_sited : Keeping fun l l' => l.classes.Regular ∧ l.classes.Sited →
    l'.classes.Regular ∧ l'.classes.Sited where
  refl _ h := h
  trans h h' hl := h' (h hl)
  register d l hl := ⟨(Request.register d).regular hl.1, register_sited d l hl.2⟩
  move hmove hl := ⟨hl.1.grows hmove.grows.classes, hmove.sited hl.2⟩

end Linker

/-- For want of a static field that was asked for. -/
def HostError.isSlotless : HostError → Bool
  | fatal error => error.isSlotless
  | _ => false

namespace Machine
open Stateful ClassTable

/-- The classes of a new machine were loaded one after the other, and found out about. -/
theorem unfolds_of_create {l : Linker} (hl : l.Reachable) {config : Config} {now : UInt64} {m : Machine}
    (h : create l.classes config now = .ok m) : Unfolds {} m.classes := by
  obtain ⟨access, hleads⟩ := hl
  exact (Linker.Leads.changes hleads).turns.unfolds.trans (kept_by_create keeping_turns h).1.unfolds

theorem stored_of_create {l : Linker} (hl : l.Reachable) {config : Config} {now : UInt64} {m : Machine}
    (h : create l.classes config now = .ok m) : Stored m := by
  obtain ⟨hkept, hstatics, hactive, hscheduler, _⟩ := kept_by_create Linker.keeping_sited h
  obtain ⟨hregular, hsited⟩ := hkept ⟨hl.regular, hl.sited⟩
  refine ⟨hregular, hsited, fun code hcode => ?_, ?_⟩
  · cases hcode with
    | running hf _ =>
      rw [hactive] at hf
      cases hf
    | parked hr _ _ =>
      rw [hscheduler] at hr
      simp [Scheduler.get?] at hr
  · rw [hstatics]
    constructor
    · intro id values hvalues
      simp [Statics.slots?] at hvalues
    · intro id c hc helement hcleared
      rw [((unfolds_of_create hl h).added id c rfl hc).1.2 helement] at hcleared
      cases hcleared

section Serving

variable {α : Type}

theorem Upholds.forHost {x : MachineM α} (hx : Upholds Trap.isSlotless x) :
    Upholds HostError.isSlotless (forHost x) := by
  intro m hm
  have hends := hx m hm
  unfold Machine.forHost
  cases hr : x m with
  | ok a m' => exact hends.of_ok hr
  | error e m' =>
    obtain ⟨hlasts, he⟩ := hends.of_error hr
    refine ⟨hlasts, ?_⟩
    cases e with
    | exception r => rfl
    | fatal error => exact he
    | outOfFuel => rfl

theorem findMethod_upholds (className name descriptor : String) :
    Upholds HostError.isSlotless (findMethod className name descriptor) := by
  refine .read fun m => ?_
  cases m.classes.lookup? className with
  | none => exact .throw rfl
  | some id =>
    refine Upholds.bind (.forHost (.onLinker (Linker.consulting_asks
      (resolveMethod_asks id name descriptor)))) fun found => ?_
    cases found with
    | ok method => exact .pure _
    | error e => exact .throw rfl

theorem load_upholds (d : ClassDefinition) : Upholds HostError.isSlotless (load d) := by
  have hregister : Upholds Trap.isSlotless (onClasses (ClassTable.register d)) := fun m hm =>
    .of_turns hm (Linker.turning_register d m.linker) ((Linker.Request.register d).regular hm.regular)
      (Linker.register_sited d m.linker hm.sited)
  refine Upholds.bind hregister.forHost fun result => ?_
  cases result with
  | ok id => exact Upholds.bind (.forHost (.onLinker (Linker.consulting_prepare id))) fun _ => .pure _
  | error e => exact .throw rfl

theorem spawn_upholds (fuel : Nat) (className name descriptor : String) (args : List Value) :
    Upholds HostError.isSlotless (spawn fuel className name descriptor args) := by
  refine (findMethod_upholds _ _ _).bind fun method => Upholds.forHost ?_
  refine (spawnThread_upholds .null).bind fun thread => ?_
  refine ((nested_upholds fuel).enter thread method args).attempt (fun _ => .pure _) fun e he => ?_
  exact (Upholds.onScheduler fun s => s.terminate_alike thread).bind fun _ => .throw he

theorem registerNative_upholds (owner name descriptor : String) (native : HostNative) :
    Upholds HostError.isSlotless (registerNative owner name descriptor native) :=
  .of_aside fun _ => .of_eq rfl rfl rfl rfl

theorem serve_upholds (c : HostCall) : Upholds HostError.isSlotless c.serve := by
  have hdone : ∀ {α : Type} {x : HostM α}, Upholds HostError.isSlotless x →
      Upholds HostError.isSlotless (do let _ ← x : HostM Unit) := fun hx => hx.bind fun _ => .pure _
  have hscheduler : ∀ {f : Scheduler FrameStack → Scheduler FrameStack},
      (∀ s : Scheduler FrameStack, s.Alike (f s)) → Upholds HostError.isSlotless
        (modify fun m => { m with scheduler := f m.scheduler } : HostM Unit) := fun hf =>
    .modify fun m => .of_alike (hf m.scheduler)
  have hr : Rules 1 Upholding := rules_upholds
  cases c with
  | load d => exact hdone (load_upholds d)
  | invoke fuel className name descriptor args =>
    exact hdone ((findMethod_upholds _ _ _).bind fun method =>
      .forHost ((nested_upholds fuel).call method args))
  | spawn fuel className name descriptor args => exact hdone (spawn_upholds fuel _ _ _ args)
  | step fuel => exact hdone (step_upholds fuel).forHost
  | run fuel => exact hdone (runSlices_upholds fuel fuel).forHost
  | send r => exact hscheduler (f := (·.send r)) fun s => alike_of_threads_eq rfl rfl
  | attach t => exact hscheduler fun s => (s.attach_wakes t).alike
  | interrupt t => exact hscheduler fun s => (s.interrupt_wakes t).alike
  | advance millis => exact hscheduler (f := (·.advance millis)) fun s => alike_of_threads_eq rfl rfl
  | newString text => exact hdone (Upholds.forHost (hr.stringObject text))
  | collect => exact hdone (Upholds.forHost hr.collectGarbage)

/-- What is left of a machine that was asked for something. -/
theorem Upholds.leaving {x : HostM Unit} (hx : Upholds HostError.isSlotless x) {m : Machine} (hm : Stored m) :
    Lasts m (HostAct.leaving x m) := by
  have hends := hx m hm
  unfold HostAct.leaving
  cases hr : x m with
  | ok u m' => exact hends.of_ok hr
  | error e m' => exact (hends.of_error hr).1

end Serving

end Machine

end ClassMachine
