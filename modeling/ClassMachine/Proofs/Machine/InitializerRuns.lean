import ClassMachine.Proofs.Machine.Initializers

/-!
Initialization in whole runs. The classes on a chain are taken up the last one first, so each has its
superclasses before it, whatever initializers that run in between take up themselves. What holds of the
calls nested in an instruction then holds of slices, of threads and of all a host asks for.
-/
namespace ClassMachine.Machine
open Stateful ClassTable

variable {p : MethodId → Machine → Bool} {q : Machine → Bool} {J : Machine → Prop} {t : ThreadId}
  {k : Nested} {α : Type}

section Chains

variable {m : Machine} {id : ClassId} {table : ClassTable}

/-- The rest of a chain is taken up in order after what comes before it. -/
theorem initializeAll_advances (hp : Tally p q J) (hk : Nested.Proceeds J k) (ht : t ≠ 0)
    (horderly : table.Orderly) (hid : ∃ c, table.get? id = some c) {done rest : List ClassId}
    (hchain : (ancestry id table).1.reverse = done ++ rest) (hm : Kept J m)
    (hsettles : (ancestry id table).2.Settles m.classes) (hdone : ∀ x ∈ done, m.classes.Cleared x) :
    Ends (initializeAll (announcing (marking p q) k) t rest m) (fun _ m' => Advances J m m')
      fun _ m' => Advances J m m' := by
  induction rest generalizing done m with
  | nil => exact .refl hm
  | cons x rest ih =>
    have hfollowed := followed_ancestry horderly id
    have hsplit : (ancestry id table).1 = rest.reverse ++ x :: done.reverse := by
      rw [← List.reverse_reverse (ancestry id table).1, hchain]
      simp
    have hx : x ∈ (ancestry id table).1 ∧ ∃ c, (ancestry id table).2.get? x = some c := by
      have hmem : x ∈ (ancestry id table).1 := by
        rw [hsplit]
        simp
      refine ⟨hmem, climb_known horderly id (table.size + 1) hid (fun y hy => ?_) x hmem⟩
      rw [List.mem_singleton.1 hy]
      exact hid
    have habove : m.classes.ClearedAbove x := by
      intro ids kinds hline y hy
      obtain ⟨hbefore, _⟩ := hline.before hsettles hfollowed hx
      rw [line_of_ancestry hsplit hbefore] at hy
      exact hdone y (List.mem_reverse.1 hy)
    refine (initializeOne_advances hp hk ht hm (hfollowed.settles hsettles) hx habove).bind
      fun _ m₁ ⟨h₁, hcleared⟩ => ?_
    have hrest : (ancestry id table).1.reverse = (done ++ [x]) ++ rest := by rw [hchain]; simp
    refine (ih hrest h₁.kept
      (hsettles.trans h₁.precedes.settles) fun y hy => ?_).mono (fun _ _ h => h₁.trans h)
      fun _ _ h => h₁.trans h
    rcases List.mem_append.1 hy with hy | hy
    · exact h₁.precedes.cleared (hdone y hy)
    · rw [List.mem_singleton.1 hy]
      exact hcleared

theorem pending_iff : m.isPendingInit id = true ↔ m.classes.Pending id := by
  unfold isPendingInit Pending
  cases m.classes.get? id <;> simp

theorem ensureInitialized_proceeds (hp : Tally p q J) (hk : Nested.Proceeds J k) (ht : t ≠ 0)
    (id : ClassId) : Proceeds J (ensureInitialized (announcing (marking p q) k) t id) := by
  intro m hm
  unfold ensureInitialized
  rw [bind_get]
  split
  · next hpending =>
    obtain ⟨c, hc, _⟩ := pending_iff.1 hpending
    have hask : Proceeds J (onClasses (ancestry id)) :=
      .onLinker hp (Linker.consulting_asks (ancestry_asks id)).turning
    rw [bind_of_ok (show onClasses (ancestry id) m = .ok (ancestry id m.classes).1
      { m with linker := { m.linker with classes := (ancestry id m.classes).2 } } from rfl)]
    have h₁ : Advances J m { m with linker := { m.linker with classes := (ancestry id m.classes).2 } } :=
      hask m hm
    have hchain : (ancestry id m.classes).1.reverse = [] ++ (ancestry id m.classes).1.reverse := rfl
    refine (initializeAll_advances hp hk ht hm.ordered.orderly ⟨c, hc⟩ hchain h₁.kept
      (.refl _) fun x hx => by cases hx).mono (fun _ _ h => h₁.trans h) fun _ _ h => h₁.trans h
  · exact .refl hm

end Chains

section Instructions

/-- Death of a thread leaves classes and the number zero alone. -/
theorem threadDied_proceeds (hp : Tally p q J) (thread : ThreadId) (exception : Ref) :
    Proceeds J (threadDied thread exception) := by
  refine .of_unrelated hp fun m => ?_
  have hended : ∀ reports, m.Unrelated
      { m with scheduler := (m.scheduler.terminate thread).2, uncaught := reports } := fun reports =>
    ⟨rfl, rfl, fun _ => True, trivial, (m.scheduler.terminate_alike thread).spares _⟩
  unfold threadDied
  rw [bind_get]
  cases hu : m.config.uncaught with
  | terminateThread => exact hended _
  | abort => exact hended _

/-- A thread that is made has a number other than zero. -/
theorem spawnThread_advances (hp : Tally p q J) (object : Ref) {m : Machine} (hm : Kept J m) :
    Ends (spawnThread object m) (fun thread m' => Advances J m m' ∧ thread ≠ 0)
      fun _ m' => Advances J m m' := by
  have hends := spawnThread_ends object m
  unfold spawnThread at hends ⊢
  split
  · exact .refl hm
  · next hn =>
    rw [if_neg hn] at hends
    have hspares := (hends.of_ok rfl).2.2.2.threads
    refine ⟨(Unrelated.of_scheduler (Q := fun _ => True) trivial hspares).advances hp hm, fun hz => ?_⟩
    have hpos := hm.zeroless.1
    rw [show m.scheduler.nextId = 0 from hz] at hpos
    exact UInt32.lt_irrefl 0 hpos

theorem threadStart_proceeds (hp : Tally p q J) (hk : Nested.Proceeds J k) (ht : t ≠ 0) (object : Ref) :
    Proceeds J (threadStart (announcing (marking p q) k) t object) := by
  have hr := course_proceeds hp ht
  have hraise : ∀ {β : Type} (className : String) (message : Option String),
      Proceeds J (raise className message : MachineM β) := fun className message =>
    hr.raise hr.seq className message
  unfold threadStart
  split
  · exact hraise _ _
  · refine .read fun m => ?_
    split
    · exact hraise _ _
    · refine .read fun m => Proceeds.bind (hr.selectVirtual object _) fun run => ?_
      intro m hm
      refine ((spawnThread_advances hp object hm).bind (E := fun _ m' => Advances J m m')
        fun started m₁ hspawned => ?_)
      obtain ⟨h₁, hstarted⟩ := hspawned
      have henter : Proceeds J (attempt (withParked t (k.enter started run [.ref object]))) :=
        ((hk.enter started run _ hstarted).withParked hp ht).attempt
      refine Ends.mono ((henter.bind fun result => ?_) m₁ h₁.kept) (fun _ _ h => h₁.trans h) fun _ _ h => h₁.trans h
      cases result with
      | ok u => exact .pure _
      | error trap =>
        cases trap with
        | exception exception => exact threadDied_proceeds hp started exception
        | fatal e => exact .throw _
        | outOfFuel => exact .throw _

theorem invokeMethod_proceeds (hp : Tally p q J) (hk : Nested.Proceeds J k) (ht : t ≠ 0)
    (method : MethodId) (args : List Value) :
    Proceeds J (invokeMethod (announcing (marking p q) k) t method args) :=
  (course_proceeds hp ht).invokeMethod (l := k) method args (threadStart_proceeds hp hk ht)

theorem executeOne_proceeds (hp : Tally p q J) (hk : Nested.Proceeds J k) (ht : t ≠ 0) :
    Proceeds J (executeOne (announcing (marking p q) k) t) := by
  have hr := course_proceeds hp ht
  have hinit := ensureInitialized_proceeds hp hk ht
  exact Proceeds.bind (.onTop hp _) fun i => hr.executeWriting (l := k) (writes_proceeds hp) i
    (hr.accessStatic (l := k) (free_proceeds hp) hinit i) hinit (threadStart_proceeds hp hk ht)

end Instructions

section Slices

theorem handleTrap_proceeds (hp : Tally p q J) (ht : t ≠ 0) (trap : Trap) :
    Proceeds J (handleTrap t trap) := by
  cases trap with
  | exception exception =>
    refine Proceeds.bind ((course_proceeds hp ht).unwind (free_proceeds hp) exception) fun found => ?_
    cases found <;> exact .pure _
  | fatal e => exact .throw _
  | outOfFuel => exact .throw _

/-- What is counted between two instructions is counted as `J` says. -/
theorem between_proceeds (hp : Tally p q J) (running : Option ThreadId) :
    Proceeds J ((marking p q).between running) := by
  intro m hm
  have hclasses : (marked (q m) m).classes = m.classes := congrArg Linker.classes (linker_marked _ m)
  refine ⟨⟨by rw [hclasses]; exact hm.ordered, by rw [scheduler_marked]; exact hm.zeroless,
    hp.between hm.tally hm.ordered⟩, ?_⟩
  rw [hclasses]
  exact .refl _

theorem execute_proceeds (hp : Tally p q J) (hk : Nested.Proceeds J k) (ht : t ≠ 0) (budget : Nat) :
    Proceeds J (Watched.execute (marking p q).between (announcing (marking p q) k) t budget) := by
  induction budget with
  | zero => exact .pure _
  | succ budget ih =>
    unfold Watched.execute
    refine (between_proceeds hp _).bind fun _ => (executeOne_proceeds hp hk ht).attempt.bind fun result => ?_
    cases result with
    | ok flow =>
      cases flow with
      | next => exact ih
      | pause => exact .read fun _ => .pure _
      | finished v => exact .pure _
    | error trap =>
      refine (handleTrap_proceeds hp ht trap).bind fun ended => ?_
      cases ended with
      | none => exact ih
      | some e => exact .pure _

theorem takeParkedInterrupt_proceeds (hp : Tally p q J) (ht : t ≠ 0) :
    Proceeds J (takeParkedInterrupt t) := by
  unfold takeParkedInterrupt
  refine .read fun m => ?_
  split
  · split
    · exact (Proceeds.updateThread hp ht _).bind fun _ => .pure _
    · exact .pure _
  · exact .pure _

theorem resume_proceeds (hp : Tally p q J) (hk : Nested.Proceeds J k) (ht : t ≠ 0) (budget : Nat) :
    Proceeds J (Watched.resume (marking p q).between (announcing (marking p q) k) t budget) := by
  have hr := course_proceeds hp ht
  have hrun := execute_proceeds hp hk ht budget
  unfold Watched.resume
  refine (Proceeds.onSync hp (Sync.resume_tame t)).bind fun result => ?_
  cases result with
  | error e =>
    cases e with
    | fatal e => exact .throw _
    | monitor e => exact hr.raiseSync hr.seq rfl
  | ok outcome =>
    cases outcome with
    | blocked => exact .pure _
    | _ =>
      refine (takeParkedInterrupt_proceeds hp ht).bind fun interrupted => ?_
      split
      · have hraise : Proceeds J (raise (α := Unit) CoreName.interrupted none) := hr.raise hr.seq _ _
        refine hraise.attempt.bind fun raised => ?_
        cases raised with
        | ok u => exact hrun
        | error trap =>
          refine (handleTrap_proceeds hp ht trap).bind fun ended => ?_
          cases ended with
          | none => exact hrun
          | some e => exact .pure _
      · exact hrun

theorem takeStack_unrelated (ht : t ≠ 0) (m : Machine) : m.Unrelated (takeStack t m) := by
  unfold takeStack
  cases m.scheduler.get? t with
  | none => exact .of_eq rfl rfl rfl
  | some r => exact ⟨rfl, rfl, (· ≠ t), Ne.symm ht, update_spares _ t _⟩

theorem saveStack_unrelated (ht : t ≠ 0) (m : Machine) : m.Unrelated (saveStack t m) :=
  ⟨rfl, rfl, (· ≠ t), Ne.symm ht, update_spares _ t _⟩

/-- A slice of whatever thread: there is none with the number zero to run. -/
theorem runSlice_proceeds (hp : Tally p q J) (hk : Nested.Proceeds J k) :
    Proceeds J (Watched.runSlice (marking p q).between (announcing (marking p q) k) t) := by
  unfold Watched.runSlice
  refine Proceeds.bind (.modify hp fun _ => .of_eq rfl rfl rfl) fun _ m hm => ?_
  rw [bind_get]
  cases hr : m.scheduler.get? t with
  | none => exact .refl hm
  | some r =>
    have ht : t ≠ 0 := by
      rintro rfl
      rw [hm.zeroless.2] at hr
      cases hr
    have hresume := resume_proceeds hp hk ht m.config.sliceCycles.toNat
    exact (Proceeds.modify hp (takeStack_unrelated ht)).bind
      (fun _ => hresume.ensuring hp (saveStack_unrelated ht)) m hm

theorem idleUntil_spares (s : Scheduler FrameStack) (deadline : UInt64) :
    s.Spares (fun _ => True) (s.idleUntil deadline) := by
  have halike : s.Alike (s.idleUntil deadline) :=
    Scheduler.pointwise_of_threads_eq Thread.Alike.refl rfl rfl
  exact halike.spares _

theorem awaitDeadline_proceeds (hp : Tally p q J) (method : MethodId) :
    Proceeds J (awaitDeadline t method) := by
  refine .read fun m => ?_
  cases (m.scheduler.get? t).map (·.state) with
  | none => exact .throw _
  | some state =>
    cases state with
    | ready => exact .pure _
    | detached => exact .throw _
    | terminated => exact .throw _
    | detachedUntil deadline =>
      refine .modify hp fun m => .of_scheduler (Q := fun _ => True) trivial ?_
      exact (idleUntil_spares m.scheduler deadline).trans
        ((m.scheduler.idleUntil deadline).wakeExpired_wakes.alike.spares _)

theorem driveSlices_proceeds (hp : Tally p q J) (hk : Nested.Proceeds J k) (method : MethodId) (fuel : Nat) :
    Proceeds J (Watched.driveSlices (marking p q).between (announcing (marking p q) k) t method fuel) := by
  induction fuel with
  | zero => exact .throw _
  | succ fuel ih =>
    unfold Watched.driveSlices
    refine (runSlice_proceeds hp hk).bind fun ended => (between_proceeds hp _).bind fun _ => ?_
    cases ended with
    | finished v => exact .pure _
    | uncaught exception => exact .throw _
    | yielded => exact ih
    | blocked => exact (awaitDeadline_proceeds hp method).bind fun _ => ih

theorem Proceeds.onFreshStack (hp : Tally p q J) {x : MachineM α} (hx : Proceeds J x) :
    Proceeds J (onFreshStack x) := by
  intro m hm
  have hempty : m.Unrelated { m with active := [] } := .of_eq rfl rfl rfl
  have hback : ∀ n : Machine, n.Unrelated { n with active := m.active } := fun _ => .of_eq rfl rfl rfl
  have h₁ := hempty.advances hp hm
  exact (hx.ensuring hp hback _ h₁.kept).mono (fun _ _ h => h₁.trans h) fun _ _ h => h₁.trans h

theorem drive_proceeds (hp : Tally p q J) (hk : Nested.Proceeds J k) (ht : t ≠ 0) (fuel : Nat)
    (method : MethodId) (args : List Value) :
    Proceeds J (Watched.drive (marking p q).between (announcing (marking p q) k) fuel t method args) := by
  refine Proceeds.onFreshStack hp ((ensureInitialized_proceeds hp hk ht method.owner).bind fun _ =>
    (invokeMethod_proceeds hp hk ht method args).bind fun flow => ?_)
  have hrest : Proceeds J (modify (saveStack t) >>= fun _ =>
      Watched.driveSlices (marking p q).between (announcing (marking p q) k) t method fuel) :=
    (Proceeds.modify hp (saveStack_unrelated ht)).bind fun _ => driveSlices_proceeds hp hk method fuel
  cases flow with
  | finished v => exact .pure _
  | next => exact hrest
  | pause => exact hrest

theorem runSynthetic_proceeds (hp : Tally p q J) (hk : Nested.Proceeds J k) (fuel : Nat)
    (method : MethodId) (args : List Value) :
    Proceeds J (Watched.runSynthetic (marking p q).between (announcing (marking p q) k) fuel method args) := by
  refine .read fun m₀ => fun m hm => ?_
  refine ((spawnThread_advances hp .null hm).bind (E := fun _ m' => Advances J m m')
    fun thread m₁ ⟨h₁, ht⟩ => ?_)
  have hgone : ∀ n : Machine, n.Unrelated { n with
      scheduler := ((n.scheduler.terminate thread).2.remove thread).2
      yieldRequested := m₀.yieldRequested } := fun n =>
    ⟨rfl, rfl, (· ≠ thread), Ne.symm ht,
      ((n.scheduler.terminate_alike thread).spares _).trans (remove_spares _ _)⟩
  have hrest := (Proceeds.updateThread hp ht fun u => { u with synthetic := true }).bind fun _ =>
    (drive_proceeds hp hk ht fuel method args).ensuring hp hgone
  exact (hrest m₁ h₁.kept).mono (fun _ _ h => h₁.trans h) fun _ _ h => h₁.trans h

theorem enterThread_proceeds (hp : Tally p q J) (hk : Nested.Proceeds J k) (ht : t ≠ 0)
    (method : MethodId) (args : List Value) :
    Proceeds J (enterThread (announcing (marking p q) k) t method args) := by
  refine Proceeds.onFreshStack hp ((ensureInitialized_proceeds hp hk ht method.owner).bind fun _ => ?_)
  refine ((invokeMethod_proceeds hp hk ht method args).ensuring hp (saveStack_unrelated ht)).bind
    fun flow => ?_
  cases flow with
  | finished v =>
    exact (Proceeds.onScheduler hp fun s => s.terminate_alike t).bind fun _ => .pure _
  | next => exact .pure _
  | pause => exact .pure _

theorem nested_proceeds (hp : Tally p q J) (fuel : Nat) :
    Nested.Proceeds J (Announced.nested (marking p q) fuel) := by
  induction fuel with
  | zero => exact ⟨fun _ _ => .throw _, fun _ _ _ _ => .throw _⟩
  | succ fuel ih =>
    exact ⟨fun method args => runSynthetic_proceeds hp ih fuel method args,
      fun thread method args ht => enterThread_proceeds hp ih ht method args⟩

end Slices

end ClassMachine.Machine
