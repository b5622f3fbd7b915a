import ClassMachine.Proofs.Machine.MethodMonitors
import ClassMachine.Proofs.Machine.Passages

/-!
Whole runs as sequences of acts. Calls nest, and each call of a method on a thread made for it gives that
thread back; so whatever a host asks of a machine, the machine does nothing to its threads but single acts,
and no thread made for a call is left.
-/
namespace ClassMachine.Machine
open Stateful

/-- Calls that do acts only, `l` with the observer let in. -/
structure Nested.Passing (look : Observer) (k l : Nested) : Prop where
  call : ∀ method args, Machine.Passing look none (k.call method args) (l.call method args)
  enter : ∀ thread method args,
    Machine.Passing look (some thread) (k.enter thread method args) (l.enter thread method args)

variable {look : Observer} {r : Option ThreadId} {t : ThreadId} {k l : Nested} {α β : Type}

/-- What is done without the running thread can be done while it runs. -/
theorem Passing.aboard {x y : MachineM α} (h : Passing look none x y) : Passing look r x y := fun m hm _ =>
  (h m hm (by simp)).mono fun _ ht => .inr (ht.resolve_left (by simp))

section Stacks

variable {m : Machine}

theorem Passed.restack (ht : (m.scheduler.get? t).isSome) (stack frames : FrameStack) :
    Passed (Hands (some t) m) m { m with
      scheduler := m.scheduler.update t fun u => { u with stack := stack }
      active := frames } := by
  have hdeed : Passed (Hands (some t) m) m
      { m with scheduler := m.scheduler.update t fun u => { u with stack := stack } } :=
    .deed (r := some t) (fun u hu => by cases hu; exact ht) (fun u hu => .inl hu) (.restack rfl m.scheduler stack)
  exact hdeed.trans (.aside rfl (.of_objects_eq rfl))

theorem Passed.swapStack (ht : (m.scheduler.get? t).isSome) : Passed (Hands (some t) m) m (swapStack t m) := by
  unfold Machine.swapStack
  split
  · exact .restack ht _ _
  · exact .refl m

theorem Passed.saveStack (ht : (m.scheduler.get? t).isSome) : Passed (Hands (some t) m) m (saveStack t m) :=
  .restack ht _ _

theorem Passed.takeStack (ht : (m.scheduler.get? t).isSome) : Passed (Hands (some t) m) m (takeStack t m) := by
  unfold Machine.takeStack
  split
  · exact .restack ht _ _
  · exact .refl m

theorem Passing.modify {f : Machine → Machine} (hf : ∀ m, Rostered m → (∀ t ∈ r, (m.scheduler.get? t).isSome) →
    Passed (Hands r m) m (f m)) : (Passing look r).Same (modify f) := .of_passed hf

/-- The frames of the running thread are in its record while something else is done. -/
theorem Passes.withParked {S : ThreadId → Prop} {x y : MachineM α} (hS : ∀ u, Hands (some t) m u → S u)
    (ht : (m.scheduler.get? t).isSome) (hx : Passes S look x y (swapStack t m)) :
    Passes S look (withParked t x) (withParked t y) m := by
  have hparked : Passed S m (swapStack t m) := (Passed.swapStack ht).mono hS
  have hlater := hparked.trans hx.passed
  refine Passes.changing hparked (hx.ensuring ?_)
  exact (Passed.swapStack (hlater.isSome ht)).mono fun u h => hS u (h.later hlater.acts.nextId_le)

theorem Passing.withParked {x y : MachineM α} (hx : Passing look (some t) x y) :
    Passing look (some t) (withParked t x) (withParked t y) := fun _ hm hr =>
  .withParked (fun _ h => h) (hr t rfl) (hx.next hm hr (.swapStack (hr t rfl)) fun _ h => h)

theorem Passing.saving {x y : MachineM α} (hx : Passing look (some t) x y) :
    Passing look (some t) (Machine.ensuring x (Machine.saveStack t)) (Machine.ensuring y (Machine.saveStack t)) :=
  hx.ensuring fun _ _ hr => .saveStack (hr t rfl)

theorem Passing.onFreshStack {x y : MachineM α} (hx : Passing look r x y) :
    Passing look r (onFreshStack x) (onFreshStack y) := by
  intro m hm hr
  have hemptied : Passed (Hands r m) m { m with active := [] } := .aside rfl (.of_objects_eq rfl)
  have hrestored : ∀ n : Machine, Rostered n → (∀ t ∈ r, (n.scheduler.get? t).isSome) →
      Passed (Hands r n) n { n with active := m.active } := fun n _ _ => .aside rfl (.of_objects_eq rfl)
  have h := (hx.ensuring hrestored).next hm hr hemptied fun _ ht => ht
  exact ⟨hemptied.trans h.passed, fun hidle => h.same fun r n hn hn' => hidle r n (hemptied.acts.trans hn) hn'⟩

/-- A thread ends itself. -/
theorem Passed.terminate {S : ThreadId → Prop} (hS : S t) :
    Passed S m { m with scheduler := (m.scheduler.terminate t).2 } := by
  cases ht : m.scheduler.get? t with
  | none =>
    unfold Scheduler.terminate
    rw [ht]
    exact .refl m
  | some u =>
    exact .deed (r := some t) (fun j hj => by cases hj; simp [ht]) (fun j hj => by cases hj; exact hS)
      (.terminate rfl m.scheduler)

end Stacks

section Initialization

theorem initializeOne_passing (hk : Nested.Passing look k l) (id : ClassId) :
    Passing look (some t) (initializeOne k t id) (initializeOne l t id) := by
  refine (Passing.onLinker _).bind fun prepared => ?_
  cases prepared with
  | none => exact .pure _
  | some c =>
    refine Passing.bind (Passing.onLinker _) fun pending => ?_
    split
    · refine Passing.bind (free_passing.restatic (·.ensure id c.staticKinds)) fun _ => ?_
      cases c.staticInitializer? with
      | none => exact .pure _
      | some initializer => exact (hk.call initializer.id []).aboard.withParked.bind fun _ => .pure _
    · exact .pure _

theorem initializeAll_passing (hk : Nested.Passing look k l) (ids : List ClassId) :
    Passing look (some t) (initializeAll k t ids) (initializeAll l t ids) := by
  induction ids with
  | nil => exact .pure _
  | cons id ids ih => exact (initializeOne_passing hk id).bind fun _ => ih

theorem ensureInitialized_passing (hk : Nested.Passing look k l) (id : ClassId) :
    Passing look (some t) (ensureInitialized k t id) (ensureInitialized l t id) := by
  refine .read fun m => ?_
  split
  · exact (Passing.onLinker _).bind fun ids => initializeAll_passing hk _
  · exact .pure _

end Initialization

section Starting

variable {m m' : Machine}

theorem classOf_ok {object : Ref} {id : ClassId} (h : classOf object m = .ok id m') :
    (m.heap.get? object).isSome ∧ m' = m := by
  unfold classOf at h
  split at h
  · exact absurd h (raise_ne_ok _ _)
  · rw [bind_get] at h
    cases ho : m.heap.get? object with
    | none =>
      rw [ho] at h
      cases h
    | some o =>
      rw [ho] at h
      cases h
      exact ⟨rfl, rfl⟩

/-- A method is selected for an object that is there. -/
theorem selectVirtual_live {object : Ref} {signature : SignatureId} {method : MethodId}
    (h : selectVirtual object signature m = .ok method m') :
    (m'.heap.get? object).isSome ∧ m'.scheduler = m.scheduler := by
  obtain ⟨id, m₁, hclass, hselect⟩ := bind_ok.1 h
  obtain ⟨hlive, heq⟩ := classOf_ok hclass
  obtain ⟨prepared, m₂, hprepare, hdispatch⟩ := bind_ok.1 hselect
  have hsame : m₂.heap = m.heap ∧ m₂.scheduler = m.scheduler := by
    subst heq
    cases hprepare
    exact ⟨rfl, rfl⟩
  cases prepared with
  | none => cases hdispatch
  | some c =>
    dsimp only at hdispatch
    cases hfound : c.dispatch? signature with
    | some found =>
      rw [hfound] at hdispatch
      cases hdispatch
      exact ⟨hsame.1 ▸ hlive, hsame.2⟩
    | none =>
      rw [hfound] at hdispatch
      dsimp only at hdispatch
      rw [bind_get] at hdispatch
      exact absurd hdispatch (raise_ne_ok _ _)

theorem threadDied_passed {S : ThreadId → Prop} (hS : S t) (exception : Ref) (m : Machine) :
    Passed S m (final (threadDied t exception m)) := by
  have hended : ∀ reports : List UncaughtException, Passed S m
      { m with scheduler := (m.scheduler.terminate t).2, uncaught := reports } := fun reports =>
    (Passed.terminate hS).trans (.aside rfl (.of_objects_eq rfl))
  unfold threadDied
  rw [bind_get]
  cases m.config.uncaught with
  | terminateThread => exact hended _
  | abort => exact hended _

/-- A thread is made for an object, or all numbers are given away. -/
theorem spawnThread_cases (object : Ref) (m : Machine) :
    m.scheduler.nextId = 0xffffffff ∧ spawnThread object m = .error .outOfFuel m ∨
    m.scheduler.nextId ≠ 0xffffffff ∧
      spawnThread object m = .ok m.scheduler.nextId { m with scheduler := (m.scheduler.spawn object []).2 } := by
  unfold spawnThread
  split
  · next hlast => exact .inl ⟨hlast, rfl⟩
  · next hid => exact .inr ⟨hid, rfl⟩

theorem spawnThread_passes {S : ThreadId → Prop} {object : Ref} (hm : Rostered m) (hvacant : m.Vacant object) :
    Passes S look (spawnThread object) (spawnThread object) m := by
  refine .of_passed ?_
  rcases spawnThread_cases object m with ⟨-, hr⟩ | ⟨hid, hr⟩
  · exact hr ▸ .refl m
  · exact hr ▸ .start hm hid hvacant

/-- An object that no thread has is vacant when a method was selected for it. -/
theorem vacant_of_selectVirtual {object : Ref} {signature : SignatureId} {method : MethodId}
    (h : ¬(m.threadOf? object).isSome = true) (hselect : selectVirtual object signature m = .ok method m') :
    m'.Vacant object := by
  obtain ⟨hlive, hscheduler⟩ := selectVirtual_live hselect
  refine fun hnull => ⟨hlive, fun t u hu heq => ?_⟩
  rw [hscheduler] at hu
  unfold threadOf? at h
  rw [hnull] at h
  simp only [Bool.false_eq_true, if_false, Option.isSome_map, Option.not_isSome_iff_eq_none] at h
  have hne := List.find?_eq_none.1 h u (Maps.mem_values.2 ⟨t, hu⟩)
  exact hne (decide_eq_true heq)

/-- A thread that was just started enters its method, while the one that started it is parked. -/
theorem enterStarted_passes (hk : Nested.Passing look k l) {object : Ref} (run : MethodId) (hm : Rostered m)
    (ht : (m.scheduler.get? t).isSome) (hid : m.scheduler.nextId ≠ 0xffffffff) (hvacant : m.Vacant object) :
    Passes (Hands (some t) m) look
      (do match ← attempt (withParked t (k.enter m.scheduler.nextId run [.ref object])) with
          | .ok () => return
          | .error (.exception exception) => threadDied m.scheduler.nextId exception
          | .error trap => throw trap)
      (do match ← attempt (withParked t (l.enter m.scheduler.nextId run [.ref object])) with
          | .ok () => return
          | .error (.exception exception) => threadDied m.scheduler.nextId exception
          | .error trap => throw trap)
      { m with scheduler := (m.scheduler.spawn object []).2 } := by
  have hstarted : Passed (Hands (some t) m) m _ := .start hm hid hvacant
  have hn : m.scheduler.nextId ≤ (m.scheduler.spawn object []).2.nextId := hstarted.acts.nextId_le
  have hstarter := hstarted.isSome ht
  have hparked := hstarted.trans ((Passed.swapStack (t := t) hstarter).mono fun _ ht => ht.later hn)
  have hthere : ((m.scheduler.spawn object []).2.get? m.scheduler.nextId).isSome := by
    rw [Scheduler.get?_spawn, if_pos rfl]
    rfl
  have hentered := hk.enter m.scheduler.nextId run [.ref object] _ (hparked.acts.rostered hm) fun u hu => by
    cases hu
    exact (Passed.swapStack (t := t) hstarter).isSome hthere
  refine (Passes.withParked (fun _ ht => ht.later hn) hstarter (hentered.mono ?_)).attempt.bind
    fun result m₁ _ => ?_
  · rintro u (hu | hu)
    · cases hu
      exact .inr (UInt32.le_refl _)
    · exact .inr (UInt32.le_trans hparked.acts.nextId_le hu)
  · cases result with
    | ok _ => exact .of_passed (.refl _)
    | error trap =>
      cases trap with
      | exception exception =>
        exact .of_passed (threadDied_passed (S := Hands (some t) m) (.inr (UInt32.le_refl _)) exception m₁)
      | fatal e => exact .of_passed (.refl _)
      | outOfFuel => exact .of_passed (.refl _)

/-- A thread starts with an object that no other thread has. -/
theorem threadStart_passing (hk : Nested.Passing look k l) (object : Ref) :
    Passing look (some t) (threadStart k t object) (threadStart l t object) := by
  have hc : Course t (Passing look (some t)) (Passing look (some t)) (Passing look (some t) (α := Flow)) :=
    course_passing
  intro m hm hr
  unfold threadStart
  split
  · exact hc.raise hc.seq _ _ m hm hr
  · refine Passes.read ?_
    split
    · exact hc.raise hc.seq _ _ m hm hr
    · next hnone =>
      refine Passes.read ((hc.selectVirtual object _ m hm hr).bind fun run m₁ hselect => ?_)
      have hselected := (hc.selectVirtual object m.core.run m hm hr).passed
      rw [hselect] at hselected
      have hvacant : m₁.Vacant object := vacant_of_selectVirtual hnone hselect
      have hm₁ : Rostered m₁ := hselected.acts.rostered hm
      have hn₁ : m.scheduler.nextId ≤ m₁.scheduler.nextId := hselected.acts.nextId_le
      refine (?_ : Passes (Hands (some t) m₁) look _ _ m₁).mono fun _ ht => ht.later hn₁
      refine (spawnThread_passes hm₁ hvacant).bind fun started m₂ hspawn => ?_
      rcases spawnThread_cases object m₁ with ⟨-, hrun⟩ | ⟨hid, hrun⟩
      · cases hspawn.symm.trans hrun
      · cases hspawn.symm.trans hrun
        exact enterStarted_passes hk run hm₁ (hselected.isSome (hr t rfl)) hid hvacant

end Starting

section Slices

theorem invokeMethod_passing (hk : Nested.Passing look k l) (method : MethodId) (args : List Value) :
    Passing look (some t) (invokeMethod k t method args) (invokeMethod l t method args) :=
  course_passing.invokeMethod method args (threadStart_passing hk)

theorem executeInstruction_passing (hk : Nested.Passing look k l) (i : Instruction) :
    Passing look (some t) (executeInstruction k t i) (executeInstruction l t i) := by
  have hc : Course t (Passing look (some t)) (Passing look (some t)) (Passing look (some t) (α := Flow)) :=
    course_passing
  exact hc.executeWriting writes_passing i (hc.accessStatic free_passing (ensureInitialized_passing hk) i)
    (ensureInitialized_passing hk) (threadStart_passing hk)

theorem executeOne_passing (hk : Nested.Passing look k l) :
    Passing look (some t) (executeOne k t) (executeOne l t) :=
  Passing.bind (rules_passing.onTop plain_fetch) fun i => executeInstruction_passing hk i

theorem handleTrap_passing (trap : Trap) : (Passing look (some t)).Same (handleTrap t trap) := by
  have hr : Rules t (Passing look (some t)) := rules_passing
  cases trap with
  | exception exception =>
    refine Passing.bind (hr.unwind free_passing exception) fun found => ?_
    cases found <;> exact .pure _
  | fatal e => exact .throw _
  | outOfFuel => exact .throw _

/-- The observer is let in before each instruction. -/
theorem execute_passing (hk : Nested.Passing look k l) (budget : Nat) :
    Passing look (some t) (execute k t budget) (Watched.execute look l t budget) := by
  induction budget with
  | zero => exact .pure _
  | succ budget ih =>
    unfold execute Watched.execute
    refine fun m hm hr => Passes.looked ?_ (some t)
    refine (executeOne_passing hk).attempt.bind (fun result => ?_) m hm hr
    cases result with
    | ok flow =>
      cases flow with
      | next => exact ih
      | pause => exact .read fun _ => .pure _
      | finished v => exact .pure _
    | error trap =>
      refine (handleTrap_passing trap).bind fun ended => ?_
      cases ended with
      | none => exact ih
      | some e => exact .pure _

theorem takeParkedInterrupt_passing : (Passing look (some t)).Same (takeParkedInterrupt t) := by
  refine .read fun m => ?_
  split
  · split
    · exact (Passing.mark (fun _ => false) fun _ => false).bind fun _ => .pure _
    · exact .pure _
  · exact .pure _

theorem resume_passing (hk : Nested.Passing look k l) (budget : Nat) :
    Passing look (some t) (resume k t budget) (Watched.resume look l t budget) := by
  have hr : Rules t (Passing look (some t)) := rules_passing
  have hrun := execute_passing (t := t) hk budget
  refine (Passing.onSync (Sync.resume_doing rfl)).bind fun result => ?_
  cases result with
  | error e =>
    cases e with
    | fatal e => exact .throw _
    | monitor e => exact hr.raise hr.seq _ _
  | ok outcome =>
    cases outcome with
    | blocked => exact .pure _
    | _ =>
      refine takeParkedInterrupt_passing.bind fun interrupted => ?_
      split
      · have hraise : (Passing look (some t)).Same (raise (α := Unit) CoreName.interrupted none) :=
          hr.raise hr.seq _ _
        refine hraise.attempt.bind fun result => ?_
        cases result with
        | ok _ => exact hrun
        | error trap =>
          refine (handleTrap_passing trap).bind fun ended => ?_
          cases ended with
          | none => exact hrun
          | some e => exact .pure _
      · exact hrun

/-- A slice of a thread, whether or not the thread is there. -/
theorem runSlice_passes (hk : Nested.Passing look k l) {m : Machine} (hm : Rostered m) :
    Passes (Hands (some t) m) look (runSlice k t) (Watched.runSlice look l t) m := by
  refine Passes.changing (.aside rfl (.of_objects_eq rfl)) (Passes.read ?_)
  cases ht : m.scheduler.get? t with
  | none => exact .of_passed (.refl _)
  | some u =>
    have hrest : Passing look (some t)
        (modify (takeStack t) >>= fun _ => ensuring (resume k t m.config.sliceCycles.toNat) (saveStack t))
        (modify (takeStack t) >>= fun _ =>
          ensuring (Watched.resume look l t m.config.sliceCycles.toNat) (saveStack t)) :=
      Passing.bind (.modify fun _ _ hr => .takeStack (hr t rfl)) fun _ => (resume_passing hk _).saving
    exact hrest { m with yieldRequested := false } ⟨hm.numbered, hm.keyed, hm.objects⟩ fun j hj => by
      cases hj
      simp [ht]

theorem runSlice_passing (hk : Nested.Passing look k l) :
    Passing look (some t) (runSlice k t) (Watched.runSlice look l t) := fun _ hm _ => runSlice_passes hk hm

theorem awaitDeadline_passing (method : MethodId) : (Passing look r).Same (awaitDeadline t method) := by
  refine .read fun m => ?_
  cases (m.scheduler.get? t).map (·.state) with
  | none => exact .throw _
  | some state =>
    cases state with
    | ready => exact .pure _
    | detached => exact .throw _
    | terminated => exact .throw _
    | detachedUntil deadline =>
      refine .modify fun m _ hr => .deeds hr (fun _ ht => .inl ht) ?_
      have hidle : m.scheduler.Deeds r (m.scheduler.idleUntil deadline) := .one (.turn rfl rfl (.refl _))
      exact hidle.trans (Scheduler.Deeds.attachAll _ _)

theorem driveSlices_passing (hk : Nested.Passing look k l) (method : MethodId) (fuel : Nat) :
    Passing look (some t) (driveSlices k t method fuel) (Watched.driveSlices look l t method fuel) := by
  induction fuel with
  | zero => exact .throw _
  | succ fuel ih =>
    refine (runSlice_passing hk).bind fun ended => fun m hm hr => ?_
    refine Passes.looked ?_ none
    cases ended with
    | finished v => exact .of_passed (.refl m)
    | uncaught exception => exact .of_passed (.refl m)
    | yielded => exact ih m hm hr
    | blocked => exact (awaitDeadline_passing method).bind (fun _ => ih) m hm hr

theorem drive_passing (hk : Nested.Passing look k l) (fuel : Nat) (method : MethodId) (args : List Value) :
    Passing look (some t) (drive k fuel t method args) (Watched.drive look l fuel t method args) := by
  refine ((ensureInitialized_passing hk method.owner).bind fun _ =>
    (invokeMethod_passing hk method args).bind fun flow => ?_).onFreshStack
  have hrest : Passing look (some t) (modify (saveStack t) >>= fun _ => driveSlices k t method fuel)
      (modify (saveStack t) >>= fun _ => Watched.driveSlices look l t method fuel) :=
    Passing.bind (.modify fun _ _ hr => .saveStack (hr t rfl)) fun _ => driveSlices_passing hk method fuel
  cases flow with
  | finished v => exact .pure _
  | next => exact hrest
  | pause => exact hrest

/-- The thread made for the call is gone after it, and so is every other that was made for one. -/
theorem runSynthetic_passing (hk : Nested.Passing look k l) (fuel : Nat) (method : MethodId) (args : List Value) :
    Passing look none (runSynthetic k fuel method args) (Watched.runSynthetic look l fuel method args) := by
  intro m hm _
  refine Passes.read ?_
  rcases spawnThread_cases .null m with ⟨-, hr⟩ | ⟨hid, hr⟩
  · refine ⟨?_, fun _ => ?_⟩
    · rw [bind_of_error hr]
      exact .refl m
    · rw [bind_of_error hr, bind_of_error hr]
  · let lent : Machine := { m with scheduler := borrowing m.scheduler }
    have hlent : Rostered lent := (Act.borrow (r := none) hid).rostered hm
    have hthere : (lent.scheduler.get? m.scheduler.nextId).isSome := by
      rw [get?_borrowing, if_pos rfl]
      rfl
    have hlater : ∀ u, Hands (some m.scheduler.nextId) lent u → Hands none m u := by
      have hn : m.scheduler.nextId ≤ lent.scheduler.nextId := (Act.borrow (r := none) hid).nextId_le
      rintro u (hu | hu)
      · cases hu
        exact .inr (UInt32.le_refl _)
      · exact .inr (UInt32.le_trans hn hu)
    have hdriven := (drive_passing hk fuel method args lent hlent fun t ht => by
      cases ht
      exact hthere).mono hlater
    have hS : Hands none m m.scheduler.nextId := .inr (UInt32.le_refl _)
    have hrun : ∀ d : ThreadId → MachineM (Option Value),
        (spawnThread .null >>= fun thread => updateThread thread (fun u => { u with synthetic := true }) >>= fun _ =>
          ensuring (d thread) fun n => { n with
            scheduler := ((n.scheduler.terminate thread).2.remove thread).2
            yieldRequested := m.yieldRequested }) m =
        ensuring (d m.scheduler.nextId) (fun n => { n with
          scheduler := retiring n.scheduler m.scheduler.nextId
          yieldRequested := m.yieldRequested }) lent := fun d => bind_of_ok hr
    refine ⟨?_, fun hidle => ?_⟩
    · rw [hrun (drive k fuel · method args), final_ensuring]
      exact .borrowed hm hid hS m.yieldRequested hdriven.passed
    · rw [hrun (drive k fuel · method args), final_ensuring] at hidle
      rw [hrun (drive k fuel · method args), hrun (Watched.drive look l fuel · method args)]
      unfold ensuring
      rw [hdriven.same fun r n hn hn' => hidle r n ((Acts.borrow hid).trans hn)
        (hn'.trans (Acts.retire hS m.yieldRequested hdriven.passed))]

theorem enterThread_passing (hk : Nested.Passing look k l) (method : MethodId) (args : List Value) :
    Passing look (some t) (enterThread k t method args) (enterThread l t method args) := by
  refine ((ensureInitialized_passing hk method.owner).bind fun _ =>
    (invokeMethod_passing hk method args).saving.bind fun flow => ?_).onFreshStack
  cases flow with
  | finished v =>
    exact (Passing.onScheduler fun s => .one (.terminate rfl s)).bind fun _ => .pure _
  | next => exact .pure _
  | pause => exact .pure _

theorem nested_passing (fuel : Nat) : Nested.Passing look (nested fuel) (Watched.nested look fuel) := by
  induction fuel with
  | zero => exact ⟨fun _ _ => .throw _, fun _ _ _ => .throw _⟩
  | succ fuel ih =>
    exact ⟨fun method args => runSynthetic_passing ih fuel method args,
      fun thread method args => enterThread_passing ih method args⟩

end Slices

section Hosts

variable {m : Machine}

/-- Any thread may act. -/
def Anyone (_ : ThreadId) : Prop := True

theorem Passes.deeds {ε : Type} {x : EStateM ε Machine α} (h : ∃ s, final (x m) = { m with scheduler := s } ∧
    m.scheduler.Deeds none s) : Passes Anyone look x x m := by
  obtain ⟨s, hs, hdeeds⟩ := h
  refine .of_passed ?_
  rw [hs]
  exact .deeds (r := none) (by simp) (by simp) hdeeds

/-- What the next part of a run may do is not told apart by thread. -/
theorem Passes.later {ε : Type} {x : EStateM ε Machine α} {y : EStateM ε Machine α} {f g : α → EStateM ε Machine β}
    (hx : Passes Anyone look x y m) (hm : Rostered m)
    (hf : ∀ a m', Rostered m' → Passes Anyone look (f a) (g a) m') :
    Passes Anyone look (x >>= f) (y >>= g) m := hx.bind fun a m' hr => hf a m' (by
  have hpassed := hx.passed
  rw [hr] at hpassed
  exact hpassed.acts.rostered hm)

theorem step_passes (fuel : Nat) (hm : Rostered m) :
    Passes Anyone look (step fuel) (Watched.step look fuel) m := by
  refine Passes.looked ?_ none
  refine (Passes.deeds ⟨_, rfl, Scheduler.Deeds.next m.scheduler⟩).later hm fun next m₁ hm₁ => ?_
  cases next with
  | none => exact .of_passed (.refl _)
  | some thread =>
    have hslice : Passes Anyone look (runSlice (nested fuel) thread)
        (Watched.runSlice look (Watched.nested look fuel) thread) m₁ :=
      (runSlice_passes (nested_passing fuel) hm₁).mono fun _ _ => trivial
    refine (hslice.ensuring ?_).later hm₁ fun ended m₂ hm₂ => Passes.looked ?_ none
    · exact .deeds (r := none) (by simp) (by simp) (.one (.turn rfl rfl (.refl _)))
    · have hdone : ∀ {x : MachineM Unit}, Passed Anyone m₂ (final (x m₂)) → Passes Anyone look
          (x >>= fun _ => pure (some thread)) (x >>= fun _ => pure (some thread)) m₂ := fun hx =>
        (Passes.of_passed hx).bind fun _ _ _ => .of_passed (.refl _)
      cases ended with
      | finished v =>
        exact (Passes.of_passed (Passed.terminate trivial)).bind fun _ _ _ => .of_passed (.refl _)
      | uncaught exception => exact hdone (threadDied_passed trivial exception m₂)
      | yielded => exact hdone (x := pure ()) (.refl m₂)
      | blocked => exact hdone (x := pure ()) (.refl m₂)

theorem runSlices_passes (fuel slices : Nat) (hm : Rostered m) :
    Passes Anyone look (runSlices fuel slices) (Watched.runSlices look fuel slices) m := by
  induction slices generalizing m with
  | zero => exact .of_passed (.refl m)
  | succ slices ih =>
    refine (Passes.deeds ⟨_, rfl, Scheduler.Deeds.drain m.scheduler⟩).later hm fun stop m₁ hm₁ => ?_
    split
    · exact .of_passed (.refl _)
    · refine Passes.read ?_
      split
      · exact .of_passed (.refl _)
      · refine (step_passes fuel hm₁).later hm₁ fun picked m₂ hm₂ => ?_
        cases picked with
        | some thread => exact ih hm₂
        | none =>
          refine Passes.read ?_
          cases m₂.scheduler.nextDeadline? with
          | none => exact .of_passed (.refl _)
          | some deadline =>
            have hidle : Passed Anyone m₂ { m₂ with scheduler := m₂.scheduler.idleUntil deadline } :=
              .deeds (r := none) (by simp) (by simp) (.one (.turn rfl rfl (.refl _)))
            exact Passes.changing hidle (ih (hidle.acts.rostered hm₂))

theorem Passes.forHost {S : ThreadId → Prop} {x y : MachineM α} (h : Passes S look x y m) :
    Passes S look (forHost x) (forHost y) m := by
  refine h.after ?_ fun heq => ?_
  · have hfinal : final (Machine.forHost x m) = final (x m) := by
      unfold Machine.forHost
      cases x m <;> rfl
    exact hfinal ▸ .refl _
  · unfold Machine.forHost
    rw [heq]

theorem Passing.served {x : MachineM α} (hx : Passing look none x x) (hm : Rostered m) :
    Passes Anyone look (forHost x) (forHost x) m :=
  ((hx m hm (by simp)).mono fun _ _ => trivial).forHost

theorem findMethod_passes (hm : Rostered m) (className name descriptor : String) :
    Passes Anyone look (findMethod className name descriptor) (findMethod className name descriptor) m := by
  refine Passes.read ?_
  cases m.classes.lookup? className with
  | none => exact .of_passed (.refl m)
  | some id =>
    refine ((Passing.onLinker _).served hm).bind fun found m₁ _ => ?_
    cases found <;> exact .of_passed (.refl _)

theorem load_passes (hm : Rostered m) (d : ClassDefinition) : Passes Anyone look (load d) (load d) m := by
  refine ((Passing.onLinker _).served hm).later hm fun result m₁ hm₁ => ?_
  cases result with
  | ok id => exact ((Passing.onLinker _).served hm₁).bind fun _ _ _ => .of_passed (.refl _)
  | error e => exact .of_passed (.refl _)

theorem spawnWith_passes (hk : Nested.Passing look k l) (hm : Rostered m) (className name descriptor : String)
    (args : List Value) : Passes Anyone look (spawnWith k className name descriptor args)
      (spawnWith l className name descriptor args) m := by
  refine (findMethod_passes hm _ _ _).later hm fun method m₁ hm₁ => Passes.forHost ?_
  refine (spawnThread_passes hm₁ fun hnull => by cases hnull).bind fun thread m₂ hspawn => ?_
  rcases spawnThread_cases .null m₁ with ⟨-, hrun⟩ | ⟨hid, hrun⟩
  · cases hspawn.symm.trans hrun
  · cases hspawn.symm.trans hrun
    have hstarted : Passed Anyone m₁ { m₁ with scheduler := (m₁.scheduler.spawn .null []).2 } :=
      .start hm₁ hid fun hnull => by cases hnull
    have hentered := hk.enter m₁.scheduler.nextId method args _ (hstarted.acts.rostered hm₁) fun t ht => by
      cases ht
      rw [Scheduler.get?_spawn, if_pos rfl]
      rfl
    have hanyone : ∀ t, Hands (some m₁.scheduler.nextId)
        { m₁ with scheduler := (m₁.scheduler.spawn .null []).2 } t → Anyone t := fun _ _ => trivial
    refine (hentered.mono hanyone).attempt.bind fun result m₃ _ => ?_
    cases result with
    | ok _ => exact .of_passed (.refl _)
    | error trap =>
      exact (Passes.of_passed (Passed.terminate trivial)).bind fun _ _ _ => .of_passed (.refl _)

/-- Whatever a host asks for is done by single acts. -/
theorem serve_passes (c : HostCall) (hm : Rostered m) : Passes Anyone look c.serve (c.watched look) m := by
  have hdone : ∀ {α : Type} {x y : HostM α}, Passes Anyone look x y m →
      Passes Anyone look (do let _ ← x : HostM Unit) (do let _ ← y : HostM Unit) m := fun hx =>
    hx.bind fun _ _ _ => .of_passed (.refl _)
  have hdeed : ∀ {f : Scheduler FrameStack → Scheduler FrameStack}, m.scheduler.Deeds none (f m.scheduler) →
      Passes Anyone look (modify fun m => { m with scheduler := f m.scheduler } : HostM Unit)
        (modify fun m => { m with scheduler := f m.scheduler }) m := fun h => .deeds ⟨_, rfl, h⟩
  cases c with
  | load d => exact hdone (load_passes hm d)
  | invoke fuel className name descriptor args =>
    refine hdone ((findMethod_passes hm className name descriptor).later hm fun method m₁ hm₁ => Passes.forHost ?_)
    exact ((nested_passing fuel).call method args m₁ hm₁ (by simp)).mono fun _ _ => trivial
  | spawn fuel className name descriptor args =>
    exact hdone (spawnWith_passes (nested_passing fuel) hm className name descriptor args)
  | step fuel => exact hdone (step_passes fuel hm).forHost
  | run fuel => exact hdone (runSlices_passes fuel fuel hm).forHost
  | send r => exact hdeed (f := (·.send r)) (.one (.turn rfl rfl (.refl _)))
  | attach t => exact hdeed (f := fun s => (s.attach t).2) (.one (.attach _ t))
  | interrupt t => exact hdeed (f := fun s => (s.interrupt t).2) (.one (.interrupt _ t))
  | advance millis => exact hdeed (f := (·.advance millis)) (.one (.turn rfl rfl (.refl _)))
  | newString text =>
    have hmake : (Passing look none).Same (stringObject text) := .read fun n =>
      Passing.bind (.reserve _) fun _ => .insertObject rfl
    exact hdone (hmake.served hm)
  | collect => exact hdone (Passes.forHost (.of_passed (.heap (Heap.collect_respects _ _))))

theorem leaving_eq_final (x : HostM Unit) (m : Machine) : HostAct.leaving x m = final (x m) := by
  unfold HostAct.leaving
  cases x m <;> rfl

/-- What is left of a machine that was asked for something. -/
theorem leaving_passed (c : HostCall) (hm : Rostered m) : Passed Anyone m (HostAct.leaving c.serve m) := by
  rw [leaving_eq_final]
  have hserved : Passes Anyone .idle c.serve (c.watched .idle) m := serve_passes c hm
  exact hserved.passed

theorem announced_passed (act : HostAct) (hm : Rostered m) :
    Passed Anyone m (HostAct.leaving (act.announced .silent) m) := by
  cases act with
  | offer owner name descriptor native => exact .aside rfl (.of_objects_eq rfl)
  | call c =>
    rw [HostAct.announced, HostCall.announced_silent]
    exact leaving_passed c hm

/-- Whatever a host does, one thing after the other. -/
theorem performed_acts (acts : List HostAct) (hm : Rostered m) : Acts Anyone m (HostAct.performed .silent acts m) := by
  induction acts generalizing m with
  | nil => exact .refl
  | cons act acts ih =>
    have hfirst := (announced_passed act hm).acts
    exact hfirst.trans (ih (hfirst.rostered hm))

/-- Between any two instructions the machine has come there by acts, and it goes on from there by acts. -/
theorem acts_of_visits {c : HostCall} (hm : Rostered m) {running : Option ThreadId} {n : Machine}
    (hv : c.Visits m running n) : Acts Anyone m n ∧ Acts Anyone n (HostAct.leaving c.serve m) := by
  obtain ⟨look, hidle, hne⟩ := hv
  by_contra hnot
  refine hne ((serve_passes c hm).same fun r n' hn' hlater => hidle r n' ?_)
  rintro ⟨rfl, rfl⟩
  exact hnot ⟨hn', (leaving_eq_final _ _).symm ▸ hlater⟩

end Hosts

end ClassMachine.Machine
