import ClassMachine.Proofs.Machine.Shifts

/-!
Code that runs nested in an instruction. A static initializer runs on a thread of its own, which is
gone afterwards, so whatever it does the frames that wait for it are as they were. Only an error of
its own can make an instruction of verified code fail on its frame, and `sheltered` calls, which
hide such errors, tell these failures from all others.
-/
namespace ClassMachine.Machine
open Stateful

/-- Frames of other threads are out of reach of `x`. -/
abbrev Apart (t : ThreadId) {α : Type} (x : MachineM α) : Prop := Touches t (fun _ _ => True) x

section Apart

variable {α β : Type} {t : ThreadId} {R : FrameStack → FrameStack → Prop} {x : MachineM α}

theorem Touches.apart (hx : Touches t R x) : Apart t x := hx.mono fun _ _ _ => trivial

theorem Quiet.apart (hx : Quiet t x) : Apart t x := hx.touches Coarse.any

theorem Apart.bind {f : α → MachineM β} (hx : Apart t x) (hf : ∀ a, Apart t (f a)) :
    Apart t (x >>= f) := by
  intro m hm
  have h := hx m hm
  cases hr : x m with
  | ok a m₁ =>
    have h₁ := h.of_ok hr
    rw [bind_of_ok hr]
    refine (hf a m₁ (UInt32.lt_of_lt_of_le hm h₁.others.nextId)).mono ?_ ?_ <;>
      exact fun _ m₂ h₂ => ⟨trivial, h₁.others.trans h₂.others⟩
  | error e m₁ =>
    rw [bind_of_error hr]
    exact h.of_error hr

theorem Apart.attempt (hx : Apart t x) : Apart t (attempt x) := by
  intro m hm
  refine (attempt_ends (hx m hm)).mono (fun result m₁ h₁ => ?_) fun _ _ h => h
  cases result with
  | ok a => exact h₁
  | error e => exact h₁

theorem Apart.modify {f : Machine → Machine}
    (hf : ∀ m : Machine, m.scheduler.Spares (· ≠ t) (f m).scheduler) :
    Apart t (modify f : MachineM Unit) := fun m _ => ⟨trivial, hf m⟩

theorem Apart.ensuring {after : Machine → Machine} (hx : Apart t x)
    (ha : ∀ m : Machine, m.scheduler.Spares (· ≠ t) (after m).scheduler) :
    Apart t (ensuring x after) := by
  intro m hm
  have h := hx m hm
  unfold Machine.ensuring
  cases hr : x m with
  | ok a m₁ => exact ⟨trivial, (h.of_ok hr).others.trans (ha m₁)⟩
  | error e m₁ => exact ⟨trivial, (h.of_error hr).others.trans (ha m₁)⟩

end Apart

section Runs

variable {t : ThreadId} {k : Nested}

/-- A change to one thread spares the others. -/
theorem update_spares (s : Scheduler FrameStack) (t : ThreadId)
    (f : Thread FrameStack → Thread FrameStack) : s.Spares (· ≠ t) (s.update t f) := by
  refine ⟨UInt32.le_refl _, fun id hid hne => ?_⟩
  rw [Scheduler.get?_update, if_neg (Ne.symm hne)]
  exact (Scheduler.Spares.refl (fun _ => True) s).record id hid trivial

theorem remove_spares (s : Scheduler FrameStack) (t : ThreadId) :
    s.Spares (· ≠ t) (s.remove t).2 := by
  refine ⟨UInt32.le_refl _, fun id hid hne => ?_⟩
  rw [Scheduler.get?_remove, if_neg (Ne.symm hne)]
  exact (Scheduler.Spares.refl (fun _ => True) s).record id hid trivial

theorem saveStack_spares (m : Machine) : m.scheduler.Spares (· ≠ t) (saveStack t m).scheduler :=
  update_spares _ t _

theorem takeStack_spares (m : Machine) : m.scheduler.Spares (· ≠ t) (takeStack t m).scheduler := by
  unfold takeStack
  cases m.scheduler.get? t with
  | none => exact .refl _ _
  | some r => exact update_spares _ t _

theorem handleTrap_apart (trap : Trap) : Apart t (handleTrap t trap) := by
  have hthrow : ∀ e : Trap, Apart t (throw e : MachineM (Option SliceEnd)) := fun e m _ =>
    ⟨trivial, .refl _ _⟩
  cases trap with
  | exception exception =>
    have hunwind : Apart t (unwind t exception) := fun m _ =>
      (unwind_ends exception m).mono (fun _ _ h => ⟨trivial, h.2.mono fun _ _ _ => trivial⟩)
        fun _ _ h => ⟨trivial, h.mono fun _ _ _ => trivial⟩
    refine hunwind.bind fun found => ?_
    cases found <;> exact (Quiet.pure _).apart
  | fatal error => exact hthrow _
  | outOfFuel => exact hthrow _

/-- What runs inside an instruction leaves the frames of other threads alone. -/
structure Nested.Apart (k : Nested) : Prop where
  one : ∀ t, Machine.Apart t (executeOne k t)
  invoke : ∀ t method args, Machine.Apart t (invokeMethod k t method args)
  init : ∀ t id, Machine.Apart t (ensureInitialized k t id)

theorem execute_apart (hk : Nested.Apart k) (budget : Nat) : Apart t (execute k t budget) := by
  induction budget with
  | zero => exact (Quiet.pure _).apart
  | succ budget ih =>
    unfold execute
    refine (hk.one t).attempt.bind fun result => ?_
    cases result with
    | ok flow =>
      cases flow with
      | next => exact ih
      | pause => exact Quiet.get.apart.bind fun _ => (Quiet.pure _).apart
      | finished v => exact (Quiet.pure _).apart
    | error trap =>
      refine (handleTrap_apart trap).bind fun ended => ?_
      cases ended with
      | none => exact ih
      | some e => exact (Quiet.pure _).apart

theorem takeParkedInterrupt_quiet : Quiet t (takeParkedInterrupt t) := by
  unfold takeParkedInterrupt
  refine Quiet.get.bind fun m => ?_
  split
  · split
    · refine Quiet.bind (.updateThread fun _ => ?_) fun _ => .pure _
      exact ⟨rfl, fun _ => rfl⟩
    · exact .pure _
  · exact .pure _

theorem resume_apart (hk : Nested.Apart k) (budget : Nat) : Apart t (resume k t budget) := by
  have hrun := execute_apart (t := t) hk budget
  have hsync : Apart t (onSync (Sync.resume (σ := FrameStack) t)) := fun m _ =>
    (onSync_ends (Sync.resume_tame t) m).mono (fun _ _ h => h.1.touched Coarse.any)
      fun _ _ h => h.elim
  have hthrow : ∀ e : Trap, Apart t (throw e : MachineM SliceEnd) := fun e m _ => ⟨trivial, .refl _ _⟩
  unfold resume
  refine hsync.bind fun result => ?_
  cases result with
  | error e =>
    cases e with
    | fatal error => exact hthrow _
    | monitor e => exact (raiseSync_raises rfl).quiet.apart
  | ok outcome =>
    cases outcome with
    | blocked => exact (Quiet.pure _).apart
    | _ =>
      refine takeParkedInterrupt_quiet.apart.bind fun interrupted => ?_
      split
      · refine (raise_quiet _ _).apart.attempt.bind fun raised => ?_
        cases raised with
        | ok u => exact hrun
        | error trap =>
          refine (handleTrap_apart trap).bind fun ended => ?_
          cases ended with
          | none => exact hrun
          | some e => exact (Quiet.pure _).apart
      · exact hrun

theorem runSlice_apart (hk : Nested.Apart k) : Apart t (runSlice k t) := by
  unfold runSlice
  refine Apart.bind (.modify fun _ => ?_) fun _ => Quiet.get.apart.bind fun m => ?_
  · exact .refl _ _
  cases m.scheduler.get? t with
  | none => exact (Quiet.pure _).apart
  | some r =>
    exact (Apart.modify takeStack_spares).bind fun _ =>
      (resume_apart hk _).ensuring saveStack_spares

theorem awaitDeadline_apart (method : MethodId) : Apart t (awaitDeadline t method) := by
  unfold awaitDeadline
  refine Quiet.get.apart.bind fun m => ?_
  cases (m.scheduler.get? t).map (·.state) with
  | none => exact (Quiet.fatal rfl).apart
  | some state =>
    cases state with
    | ready => exact (Quiet.pure _).apart
    | detached => exact (Quiet.fatal rfl).apart
    | detachedUntil deadline =>
      refine Apart.modify fun m => ?_
      have hidle : m.scheduler.Alike (m.scheduler.idleUntil deadline) :=
        Scheduler.pointwise_of_threads_eq Thread.Alike.refl rfl rfl
      exact (hidle.trans (Scheduler.wakeExpired_wakes _).alike).spares _
    | terminated => exact (Quiet.fatal rfl).apart

theorem driveSlices_apart (hk : Nested.Apart k) (method : MethodId) (fuel : Nat) :
    Apart t (driveSlices k t method fuel) := by
  induction fuel with
  | zero => exact fun m _ => ⟨trivial, .refl _ _⟩
  | succ fuel ih =>
    unfold driveSlices
    refine (runSlice_apart hk).bind fun ended => ?_
    cases ended with
    | finished v => exact (Quiet.pure _).apart
    | uncaught exception => exact (Quiet.throw rfl).apart
    | yielded => exact ih
    | blocked => exact (awaitDeadline_apart method).bind fun _ => ih

/-- Frames are back when a run without them is over. -/
theorem onFreshStack_ends {α : Type} {x : MachineM α} {m : Machine}
    {S : Scheduler FrameStack → Prop} {P : Trap → Prop}
    (hx : Ends (x { m with active := [] }) (fun _ m' => S m'.scheduler)
      fun e m' => S m'.scheduler ∧ P e) :
    Ends (onFreshStack x m) (fun _ m' => m'.active = m.active ∧ S m'.scheduler)
      fun e m' => (m'.active = m.active ∧ S m'.scheduler) ∧ P e := by
  unfold onFreshStack ensuring
  cases hr : x { m with active := [] } with
  | ok a m' =>
    have h := hx.of_ok hr
    exact ⟨rfl, h⟩
  | error e m' =>
    obtain ⟨h, he⟩ := hx.of_error hr
    exact ⟨⟨rfl, h⟩, he⟩

theorem Apart.onFreshStack {α : Type} {x : MachineM α} (hx : Apart t x) {m : Machine}
    (hm : t < m.scheduler.nextId) :
    Ends (onFreshStack x m)
      (fun _ m' => m'.active = m.active ∧ m.scheduler.Spares (· ≠ t) m'.scheduler)
      fun _ m' => (m'.active = m.active ∧ m.scheduler.Spares (· ≠ t) m'.scheduler) ∧ True := by
  refine onFreshStack_ends ((hx { m with active := [] } hm).mono ?_ ?_)
  · exact fun _ _ h => h.others
  · exact fun _ _ h => ⟨h.others, trivial⟩

theorem drive_ends (hk : Nested.Apart k) (fuel : Nat) (method : MethodId) (args : List Value)
    {m : Machine} (hm : t < m.scheduler.nextId) :
    Ends (drive k fuel t method args m)
      (fun _ m' => m'.active = m.active ∧ m.scheduler.Spares (· ≠ t) m'.scheduler)
      fun _ m' => (m'.active = m.active ∧ m.scheduler.Spares (· ≠ t) m'.scheduler) ∧ True := by
  unfold drive
  refine Apart.onFreshStack ?_ hm
  refine (hk.init t method.owner).bind fun _ => (hk.invoke t method args).bind fun flow => ?_
  cases flow with
  | finished v => exact (Quiet.pure _).apart
  | _ => exact (Apart.modify saveStack_spares).bind fun _ => driveSlices_apart hk method fuel

/-- A method run to its end on a thread made for it leaves no trace in the frames. -/
theorem runSynthetic_keeps (hk : Nested.Apart k) (fuel : Nat) (method : MethodId)
    (args : List Value) (m : Machine) :
    Ends (runSynthetic k fuel method args m) (fun _ m' => m.Keeps m') fun _ m' => m.Keeps m' := by
  unfold runSynthetic
  rw [bind_get]
  cases hspawn : spawnThread .null m with
  | error e m₁ =>
    rw [bind_of_error hspawn]
    obtain ⟨rfl, _⟩ := (spawnThread_ends .null m).of_error hspawn
    exact .refl _
  | ok thread m₁ =>
    rw [bind_of_ok hspawn]
    obtain ⟨rfl, hlt, _, hkeep⟩ := (spawnThread_ends .null m).of_ok hspawn
    unfold updateThread
    rw [bind_modify]
    let thread := m.scheduler.nextId
    let marked : Machine :=
      { m₁ with scheduler := m₁.scheduler.update thread fun t => { t with synthetic := true } }
    let gone (n : Machine) : Machine :=
      { n with
        scheduler := ((n.scheduler.terminate thread).2.remove thread).2
        yieldRequested := m.yieldRequested }
    -- the thread that ran is none of those that were there
    have hall : ∀ n : Machine, n.active = marked.active →
        marked.scheduler.Spares (· ≠ thread) n.scheduler → m.Keeps (gone n) := by
      intro n ha hs
      refine ⟨ha.trans hkeep.active, ?_⟩
      have hmark : m.scheduler.Spares (· ≠ thread) marked.scheduler :=
        (hkeep.threads.mono fun _ _ _ => trivial).trans (update_spares _ _ _)
      have hend : n.scheduler.Spares (· ≠ thread) (gone n).scheduler :=
        ((n.scheduler.terminate_alike thread).spares _).trans (remove_spares _ _)
      refine ((hmark.trans hs).trans hend).mono fun id hid _ he => ?_
      rw [he] at hid
      exact UInt32.lt_irrefl _ hid
    show Ends (ensuring (drive k fuel thread method args) gone marked) _ _
    have hdrive := drive_ends (t := thread) hk fuel method args (m := marked) hlt
    unfold ensuring
    cases hr : drive k fuel thread method args marked with
    | ok v n => exact hall n (hdrive.of_ok hr).1 (hdrive.of_ok hr).2
    | error e n => exact hall n (hdrive.of_error hr).1.1 (hdrive.of_error hr).1.2

theorem enterThread_ends (hk : k.Quiet) {thread : ThreadId} (method : MethodId) (args : List Value)
    {m : Machine} (hm : thread < m.scheduler.nextId) :
    Ends (enterThread k thread method args m)
      (fun _ m' => m'.active = m.active ∧ m.scheduler.Spares (· ≠ thread) m'.scheduler)
      fun e m' => (m'.active = m.active ∧ m.scheduler.Spares (· ≠ thread) m'.scheduler) ∧
        e.isFlow = false := by
  have hsaved : ∀ m : Machine, thread < m.scheduler.nextId →
      Ends (ensuring (invokeMethod k thread method args) (saveStack thread) m)
        (fun _ m' => m.scheduler.Spares (· ≠ thread) m'.scheduler)
        fun e m' => m.scheduler.Spares (· ≠ thread) m'.scheduler ∧ e.isFlow = false := by
    intro m hm
    have hinvoke := invokeMethod_invokes hk method args m hm
    unfold ensuring
    cases hr : invokeMethod k thread method args m with
    | ok flow m₁ =>
      have hs : m.scheduler.Spares (fun _ => True) m₁.scheduler := by
        cases hinvoke.of_ok hr with
        | entered _ _ hs => exact hs
        | answered _ _ hs => exact hs
      exact (hs.mono fun _ _ _ => trivial).trans (saveStack_spares m₁)
    | error e m₁ =>
      obtain ⟨hkeeps, he⟩ := hinvoke.of_error hr
      exact ⟨(hkeeps.threads.mono fun _ _ _ => trivial).trans (saveStack_spares m₁), he⟩
  unfold enterThread
  refine onFreshStack_ends (S := fun s => m.scheduler.Spares (· ≠ thread) s)
    (P := fun e => e.isFlow = false) ?_
  refine ((ensureInitialized_quiet hk method.owner { m with active := [] } hm).mono
    (fun _ m₁ h => h.threads.mono (Q := (· ≠ thread)) fun _ _ _ => trivial)
    fun e m₁ h => ⟨h.1.threads.mono fun _ _ _ => trivial, h.2⟩).bind fun _ m₁ h₁ => ?_
  refine ((hsaved m₁ (UInt32.lt_of_lt_of_le hm h₁.nextId)).mono (fun _ _ h => h₁.trans h)
    fun _ _ h => ⟨h₁.trans h.1, h.2⟩).bind fun flow m₂ h₂ => ?_
  cases flow with
  | finished v => exact h₂.trans ((m₂.scheduler.terminate_alike thread).spares _)
  | next => exact h₂
  | pause => exact h₂

end Runs

section Sheltered

/-- A static initializer, run to its end somewhere, fails on one of its own frames. -/
def InitializerFails (e : Trap) : Prop :=
  e.isFlow = true ∧ ∃ fuel method m m', runSynthetic (nested fuel) fuel method [] m = .error e m'

/-- `x` and `y` come to the same, except that `y` runs out of fuel where `x` fails because of an
initializer. -/
def Tracks {α : Type} (x y : MachineM α) : Prop :=
  ∀ m, x m = y m ∨ ∃ e m', x m = .error e m' ∧ y m = .error .outOfFuel m' ∧ InitializerFails e

/-- Hides failures on frames. -/
def shelter {α : Type} (x : MachineM α) : MachineM α := fun m =>
  match x m with
  | .ok a m => .ok a m
  | .error e m => .error (if e.isFlow then .outOfFuel else e) m

/-- Nested calls whose initializers never show a failure on their frames. -/
def sheltered : Nat → Nested
  | 0 => nested 0
  | fuel + 1 =>
    ⟨fun method args => shelter (runSynthetic (nested fuel) fuel method args),
      fun thread method args => enterThread (sheltered fuel) thread method args⟩

variable {α β : Type} {x y : MachineM α} {k l : Nested} {t : ThreadId}

theorem Tracks.refl (x : MachineM α) : Tracks x x := fun _ => .inl rfl

theorem Tracks.bind {f g : α → MachineM β} (hx : Tracks x y) (hf : ∀ a, Tracks (f a) (g a)) :
    Tracks (x >>= f) (y >>= g) := by
  intro m
  rcases hx m with heq | ⟨e, m', hxe, hye, he⟩
  · cases hr : x m with
    | ok a m₁ =>
      rw [bind_of_ok hr, bind_of_ok (heq.symm.trans hr)]
      exact hf a m₁
    | error e m₁ =>
      rw [bind_of_error hr, bind_of_error (heq.symm.trans hr)]
      exact .inl rfl
  · exact .inr ⟨e, m', bind_of_error hxe, bind_of_error hye, he⟩

theorem Tracks.after {f g : α → MachineM β} (hf : ∀ a, Tracks (f a) (g a)) :
    Tracks (x >>= f) (x >>= g) :=
  (Tracks.refl x).bind hf

theorem Tracks.ensuring (hx : Tracks x y) (after : Machine → Machine) :
    Tracks (ensuring x after) (ensuring y after) := by
  intro m
  unfold Machine.ensuring
  rcases hx m with heq | ⟨e, m', hxe, hye, he⟩
  · rw [heq]
    exact .inl rfl
  · rw [hxe, hye]
    exact .inr ⟨e, after m', rfl, rfl, he⟩

theorem Tracks.withParked (hx : Tracks x y) (thread : ThreadId) :
    Tracks (withParked thread x) (withParked thread y) :=
  Tracks.after fun _ => hx.ensuring _

theorem Tracks.onFreshStack (hx : Tracks x y) : Tracks (onFreshStack x) (onFreshStack y) :=
  fun m => hx.ensuring _ { m with active := [] }

theorem tracks_shelter {method : MethodId} (fuel : Nat) :
    Tracks (runSynthetic (nested fuel) fuel method [])
      (shelter (runSynthetic (nested fuel) fuel method [])) := by
  intro m
  unfold shelter
  cases hr : runSynthetic (nested fuel) fuel method [] m with
  | ok v m' => exact .inl rfl
  | error e m' =>
    cases he : e.isFlow with
    | false => exact .inl (by simp [he])
    | true => exact .inr ⟨e, m', rfl, by simp [he], he, fuel, method, m, m', hr⟩

/-- Nested calls that come to the same, failing initializers apart. -/
structure Nested.Tracks (k l : Nested) : Prop where
  call : ∀ method, Machine.Tracks (k.call method []) (l.call method [])
  enter : ∀ thread method args, Machine.Tracks (k.enter thread method args) (l.enter thread method args)

theorem initializeOne_tracks (h : Nested.Tracks k l) (id : ClassId) :
    Tracks (initializeOne k t id) (initializeOne l t id) := by
  unfold initializeOne
  refine Tracks.after fun found => ?_
  cases found with
  | none => exact .refl _
  | some c =>
    refine Tracks.after fun taken => ?_
    split
    · refine Tracks.after fun _ => ?_
      cases c.staticInitializer? with
      | none => exact .refl _
      | some initializer => exact ((h.call initializer.id).withParked t).bind fun _ => .refl _
    · exact .refl _

theorem initializeAll_tracks (h : Nested.Tracks k l) (ids : List ClassId) :
    Tracks (initializeAll k t ids) (initializeAll l t ids) := by
  induction ids with
  | nil => exact .refl _
  | cons id rest ih => exact (initializeOne_tracks h id).bind fun _ => ih

theorem ensureInitialized_tracks (h : Nested.Tracks k l) (id : ClassId) :
    Tracks (ensureInitialized k t id) (ensureInitialized l t id) := by
  unfold ensureInitialized
  refine Tracks.after fun m => ?_
  split
  · exact Tracks.after fun ids => initializeAll_tracks h _
  · exact .refl _

theorem threadStart_tracks (h : Nested.Tracks k l) (object : Ref) :
    Tracks (threadStart k t object) (threadStart l t object) := by
  unfold threadStart
  split
  · exact .refl _
  · refine Tracks.after fun m => ?_
    split
    · exact .refl _
    · refine Tracks.after fun m' => Tracks.after fun run => Tracks.after fun started => ?_
      intro m
      rcases (h.enter started run [.ref object]).withParked t m with heq | ⟨e, m', hx, hy, he⟩
      · refine .inl ?_
        cases hr : withParked t (k.enter started run [.ref object]) m with
        | ok u m' => rw [bind_of_ok (attempt_of_ok hr), bind_of_ok (attempt_of_ok (heq.symm.trans hr))]
        | error e m' =>
          rw [bind_of_ok (attempt_of_error hr), bind_of_ok (attempt_of_error (heq.symm.trans hr))]
      · rw [bind_of_ok (attempt_of_error hx), bind_of_ok (attempt_of_error hy)]
        refine .inr ⟨e, m', ?_, rfl, he⟩
        cases e with
        | exception r => cases he.1
        | fatal error => rfl
        | outOfFuel => cases he.1

theorem callBuiltin_tracks (h : Nested.Tracks k l) (args : List Value) (b : Builtin) :
    Tracks (callBuiltin k t args b) (callBuiltin l t args b) := by
  cases b with
  | threadStart => exact Tracks.after fun object => (threadStart_tracks h object).bind fun _ => .refl _
  | _ => exact .refl _

theorem invokeMethod_tracks (h : Nested.Tracks k l) (method : MethodId) (args : List Value) :
    Tracks (invokeMethod k t method args) (invokeMethod l t method args) := by
  unfold invokeMethod
  refine Tracks.after fun m => ?_
  cases m.classes.method? method with
  | none => exact .refl _
  | some found =>
    dsimp only
    cases found.body with
    | abstract => exact .refl _
    | bytecode raw linked => exact .refl _
    | native binding =>
      unfold callNative
      refine Tracks.after fun _ => Tracks.after fun bound => ?_
      refine Tracks.bind ?_ fun _ => .refl _
      cases bound.getD .unbound with
      | builtin b => exact callBuiltin_tracks h args b
      | host id => exact .refl _
      | unbound => exact .refl _

theorem enterThread_tracks (h : Nested.Tracks k l) (thread : ThreadId) (method : MethodId)
    (args : List Value) :
    Tracks (enterThread k thread method args) (enterThread l thread method args) := by
  unfold enterThread
  exact ((ensureInitialized_tracks h method.owner).bind fun _ =>
    ((invokeMethod_tracks h method args).ensuring _).bind fun _ => .refl _).onFreshStack

theorem executeInstruction_tracks (h : Nested.Tracks k l) (i : Instruction) :
    Tracks (executeInstruction k t i) (executeInstruction l t i) := by
  have hcall : ∀ {n : Nat} {x y : List Value → MachineM Flow}, (∀ args, Tracks (x args) (y args)) →
      Tracks (onTop (Frame.popN n) >>= x) (onTop (Frame.popN n) >>= y) := fun hx => Tracks.after hx
  have hvirtual : ∀ signature params,
      Tracks (invokeVirtual k t signature params) (invokeVirtual l t signature params) :=
    fun signature params => hcall fun args => Tracks.after fun method =>
      invokeMethod_tracks h method args
  cases i with
  | getStatic owner slot kind =>
    exact ((ensureInitialized_tracks h owner).bind fun _ => .refl _).bind fun _ => .refl _
  | putStatic owner slot kind =>
    exact ((ensureInitialized_tracks h owner).bind fun _ => .refl _).bind fun _ => .refl _
  | invokeStatic method site =>
    exact (ensureInitialized_tracks h method.owner).bind fun _ =>
      hcall fun args => invokeMethod_tracks h method args
  | invokeSpecial method site =>
    refine hcall fun args => ?_
    split
    · exact .refl _
    · exact invokeMethod_tracks h method args
  | invokeVirtual signature site => exact hvirtual signature site.params.length
  | invokeInterface signature site => exact hvirtual signature site.params.length
  | invokeVoidNoArgs signature => exact hvirtual signature 0
  | new id => exact ((ensureInitialized_tracks h id).bind fun _ => .refl _).bind fun _ => .refl _
  | _ => exact .refl _

theorem executeOne_tracks (h : Nested.Tracks k l) : Tracks (executeOne k t) (executeOne l t) :=
  Tracks.after fun i => executeInstruction_tracks h i

/-- Failing initializers leave everything else as it would have been. -/
theorem Tracks.touches {R : FrameStack → FrameStack → Prop} (h : Tracks x y) (hy : Touches t R y) :
    Touches t R x := by
  intro m hm
  have hend := hy m hm
  rcases h m with heq | ⟨e, m', hxe, hye, _⟩
  · rw [heq]
    exact hend
  · rw [hxe]
    exact hend.of_error hye

theorem Tracks.ends {Q : α → Machine → Prop} {R : Machine → Prop} {E : Trap → Prop} (h : Tracks x y)
    {m : Machine} (hy : Ends (y m) Q fun e m' => R m' ∧ E e) : Ends (x m) Q fun _ m' => R m' := by
  rcases h m with heq | ⟨e, m', hxe, hye, _⟩
  · rw [heq]
    exact hy.mono (fun _ _ h => h) fun _ _ h => h.1
  · rw [hxe]
    exact (hy.of_error hye).1

theorem Nested.Tracks.apart (h : Nested.Tracks k l) (hl : l.Quiet) : Nested.Apart k where
  one _ := (executeOne_tracks h).touches (executeOne_touches hl).apart
  invoke _ method args :=
    (invokeMethod_tracks h method args).touches (invokeMethod_invokes hl method args).shifts.apart
  init _ id := (ensureInitialized_tracks h id).touches (ensureInitialized_quiet hl id).apart

theorem shelter_ends {m : Machine} (hx : Ends (x m) (fun _ m' => m.Keeps m') fun _ m' => m.Keeps m') :
    Ends (shelter x m) (fun _ m' => m.Keeps m') fun e m' => m.Keeps m' ∧ e.isFlow = false := by
  unfold shelter
  cases hr : x m with
  | ok a m' => exact hx.of_ok hr
  | error e m' =>
    refine ⟨hx.of_error hr, ?_⟩
    cases he : e.isFlow with
    | true => simp [Trap.isFlow]
    | false => simp [he]

/-- However deeply calls nest, sheltered ones leave frames alone and are what the others track. -/
theorem sheltered_spec (fuel : Nat) :
    (sheltered fuel).Quiet ∧ Nested.Tracks (nested fuel) (sheltered fuel) := by
  induction fuel with
  | zero =>
    refine ⟨⟨fun method args m => ?_, fun thread method args m _ => ?_⟩, ?_⟩
    · exact ⟨.refl m, rfl⟩
    · exact ⟨⟨rfl, .refl _ _⟩, rfl⟩
    · exact ⟨fun _ => .refl _, fun _ _ _ => .refl _⟩
  | succ fuel ih =>
    obtain ⟨hquiet, htracks⟩ := ih
    have hapart := htracks.apart hquiet
    refine ⟨⟨fun method args m => ?_, fun thread method args m hm => ?_⟩, ?_⟩
    · exact shelter_ends (runSynthetic_keeps hapart fuel method args m)
    · exact enterThread_ends hquiet method args hm
    · exact ⟨fun _ => tracks_shelter fuel, fun thread method args =>
        enterThread_tracks htracks thread method args⟩

/-- What any instruction does to the frames of a machine. -/
theorem executeOne_nested_touches (fuel : Nat) : Touches t Shift (executeOne (nested fuel) t) := by
  obtain ⟨hquiet, htracks⟩ := sheltered_spec fuel
  exact (executeOne_tracks htracks).touches (executeOne_touches hquiet)

end Sheltered

end ClassMachine.Machine
