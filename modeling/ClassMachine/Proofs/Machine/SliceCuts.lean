import ClassMachine.Proofs.Machine.Retuning

/-!
Calls of a host whatever the length of slices. A thread made for a call runs slice after slice until its
method ends, and so do the threads made for what is nested in it. Where a slice ends with the thread
waiting for nothing, the next one takes it up as if it had gone on. So a machine with slices of one length
is always found at an instruction of a machine with slices of another, and both come to the same.
-/
namespace ClassMachine.Machine
open Stateful

/-- A call has come back to where it was made. -/
structure Returned (shelf : Shelf) (m m' : Machine) : Prop extends Sheltered shelf m' where
  active : m'.active = m.active
  unyielding : m.yieldRequested = false → m'.yieldRequested = false

/-- Nested calls come to the same whatever the length of slices. -/
structure Nested.Shadows (cycles : UInt32) (k l : Nested) : Prop where
  call : ∀ {shelf : Shelf} {m : Machine} (method : MethodId) (args : List Value), Sheltered shelf m →
    Machine.Shadows cycles (fun _ => Returned shelf m) (Returned shelf m) (k.call method args m)
      (l.call method args (m.retuned cycles))
  enter : ∀ {shelf : Shelf} {m : Machine} (t : ThreadId) (method : MethodId) (args : List Value),
    Sheltered shelf m → m.arena.Idle t [] → (∀ e ∈ shelf, e.1 ≠ t) →
    Machine.Shadows cycles (fun _ => Returned shelf m) (Returned shelf m) (k.enter t method args m)
      (l.enter t method args (m.retuned cycles))

variable {cycles : UInt32} {free : Bool} {shelf : Shelf} {t u : ThreadId} {m m' : Machine}
  {k l : Nested} {stack : FrameStack} {α : Type}

section Parking

/-- A thread that is not running is like one on the shelf. -/
theorem Underway.shelved (h : Underway free shelf t m) : Sheltered ((t, []) :: shelf) m :=
  ⟨h.toUnclaimed, fun e he => by
    rcases List.mem_cons.1 he with rfl | hrest
    · exact h.self
    · exact h.idle e hrest⟩

theorem swapStack_idle (h : m.arena.Idle t stack) :
    (swapStack t m).arena.Idle t m.active ∧ (swapStack t m).active = stack ∧
      m.arena.PassesBy (· ≠ t) (swapStack t m).arena ∧ (swapStack t m).natives = m.natives ∧
      (swapStack t m).yieldRequested = m.yieldRequested := by
  obtain ⟨⟨r, hr, halive, hpending, hmark, hstack⟩, habsent⟩ := h
  have hr : m.scheduler.get? t = some r := hr
  have hswap : swapStack t m = { m with
      scheduler := m.scheduler.update t fun r => { r with stack := m.active }
      active := r.stack } := by
    unfold swapStack
    rw [hr]
  have hself : (m.scheduler.update t fun r => { r with stack := m.active }).get? t =
      some { r with stack := m.active } := by
    rw [Scheduler.get?_update, if_pos rfl, hr]
    rfl
  rw [hswap]
  exact ⟨⟨⟨_, hself, halive, hpending, hmark, rfl⟩, habsent⟩, hstack,
    Arena.passesBy_of_scheduler (a := m.arena) (m.scheduler.update_passesBy_others (fun h => h rfl) _), rfl, rfl⟩

/-- A thread that parks its frames is on the shelf. -/
theorem Underway.parked (h : Underway free shelf t m) :
    Sheltered ((t, m.active) :: shelf) (swapStack t m) := by
  obtain ⟨hidle, _, hby, hnatives, _⟩ := swapStack_idle h.self
  have hspared := h.toSheltered.spares h.others hby hnatives
  refine ⟨hspared.toUnclaimed, fun e he => ?_⟩
  rcases List.mem_cons.1 he with rfl | hrest
  · exact hidle
  · exact hspared.idle e hrest

/-- What runs while the frames of a thread are parked leaves them there. -/
theorem withParked_shadows {x y : MachineM α} (hm : Underway free shelf t m)
    (hx : Shadows cycles (fun _ => Returned ((t, m.active) :: shelf) (swapStack t m))
      (Returned ((t, m.active) :: shelf) (swapStack t m)) (x (swapStack t m))
      (y ((swapStack t m).retuned cycles))) :
    Shadows cycles (fun _ => Underway free shelf t) (Underway free shelf t) (withParked t x m)
      (withParked t y (m.retuned cycles)) := by
  have hback : ∀ n, Returned ((t, m.active) :: shelf) (swapStack t m) n →
      Underway free shelf t (swapStack t n) := by
    intro n hn
    obtain ⟨_, hempty, _, _, hyield⟩ := swapStack_idle hm.self
    obtain ⟨hidle, _, hby, hnatives, hyield'⟩ := swapStack_idle (hn.idle (t, m.active) List.mem_cons_self)
    rw [hn.active, hempty] at hidle
    have hrest : Sheltered shelf n := ⟨hn.toUnclaimed, fun e he => hn.idle e (List.mem_cons_of_mem _ he)⟩
    refine ⟨hrest.spares hm.others hby hnatives, hidle, hm.others, fun hfree => ?_⟩
    rw [hyield']
    exact hn.unyielding (by rw [hyield]; exact hm.unyielding hfree)
  have hswap : ∀ n : Machine, swapStack t (n.retuned cycles) = (swapStack t n).retuned cycles :=
    retouched_swapStack _ _
  unfold withParked
  rw [bind_modify, bind_modify, hswap]
  exact hx.ensuring hswap (fun _ => hback) hback

end Parking

section Starting

theorem initializeOne_carries (hk : Nested.Shadows cycles k l) (id : ClassId) :
    Carries cycles free shelf t (initializeOne k t id) (initializeOne l t id) := by
  have hr : Rules t (Carries cycles free shelf t) := rules_carries
  refine hr.seq.bind (hr.prepare id) fun prepared => ?_
  cases prepared with
  | none => exact hr.pure _
  | some c =>
    have htake : (Carries cycles free shelf t).Same (onClasses (ClassTable.takePendingInit id)) :=
      carries_of_spared (fun _ _ _ => rfl) fun _ => spared_of_arena rfl rfl rfl
    refine hr.seq.bind htake fun pending => ?_
    split
    · refine hr.seq.bind (free_carries.restatic fun s => s.ensure id c.staticKinds) fun _ => ?_
      cases c.staticInitializer? with
      | none => exact hr.pure _
      | some initializer =>
        exact hr.seq.bind (fun m hm => withParked_shadows hm (hk.call _ _ hm.parked)) fun _ => hr.pure _
    · exact hr.pure _

theorem initializeAll_carries (hk : Nested.Shadows cycles k l) (ids : List ClassId) :
    Carries cycles free shelf t (initializeAll k t ids) (initializeAll l t ids) := by
  have hr : Rules t (Carries cycles free shelf t) := rules_carries
  induction ids with
  | nil => exact hr.pure _
  | cons id rest ih => exact hr.seq.bind (initializeOne_carries hk id) fun _ => ih

theorem ensureInitialized_carries (hk : Nested.Shadows cycles k l) (id : ClassId) :
    Carries cycles free shelf t (ensureInitialized k t id) (ensureInitialized l t id) := by
  have hr : Rules t (Carries cycles free shelf t) := rules_carries
  refine hr.seq.read (fun m => ?_) fun _ _ _ => rfl
  split
  · exact hr.seq.bind (hr.onClasses (ClassTable.ancestry_asks id)) fun _ => initializeAll_carries hk _
  · exact hr.pure _

/-- A new thread waits for nothing and is none of those on the shelf. -/
theorem spawnThread_sheltered (hm : Sheltered shelf m) (object : Ref) {P : Machine → Prop} :
    Ends (spawnThread object m) (fun started m' => Sheltered shelf m' ∧ m'.arena.Idle started [] ∧
      (∀ e ∈ shelf, e.1 ≠ started) ∧ m'.active = m.active ∧ m'.yieldRequested = m.yieldRequested)
      (Trap.Leaves P) := by
  unfold spawnThread
  split
  · trivial
  · next hnext =>
    refine ⟨⟨⟨hm.noHost, Scheduler.spawn_numbered hm.numbered hnext object [], hm.ticketed.spawn hnext⟩,
      fun e he => (hm.idle e he).spawn hm.numbered⟩, hm.ticketed.idle_spawn, fun e he heq => ?_, rfl, rfl⟩
    have hlt := (hm.idle e he).lt_nextId hm.numbered
    rw [heq] at hlt
    exact UInt32.lt_irrefl _ hlt

/-- The end of another thread. -/
theorem threadDied_carries (hu : u ≠ t) (hshelf : ∀ e ∈ shelf, e.1 ≠ u) (exception : Ref) :
    ∀ m, Underway free shelf t m → Shadows cycles (fun _ => Underway free shelf t) (Underway free shelf t)
      (threadDied u exception m) (threadDied u exception (m.retuned cycles)) := by
  intro m hm
  refine (oblivious_threadDied exception).shadows ?_
  have hby : m.arena.PassesBy (· ≠ u) ⟨m.heap, (m.scheduler.terminate u).2⟩ :=
    Arena.passesBy_of_scheduler (a := m.arena) (m.scheduler.terminate_passesBy fun h => h rfl)
  have hended : ∀ reports, Underway free shelf t
      { m with scheduler := (m.scheduler.terminate u).2, uncaught := reports } := fun reports =>
    ⟨hm.toSheltered.passesBy hby hshelf rfl, hby.idle (Ne.symm hu) hm.self, hm.others, hm.unyielding⟩
  unfold threadDied
  rw [bind_get]
  cases m.config.uncaught with
  | terminateThread => exact hended _
  | abort => trivial

theorem threadStart_carries (hk : Nested.Shadows cycles k l) (object : Ref) :
    Carries cycles free shelf t (threadStart k t object) (threadStart l t object) := by
  have hr : Course t (Carries cycles free shelf t) (Calls cycles free shelf t) (Flows cycles free shelf t) :=
    course_carries
  unfold threadStart
  split
  · exact hr.raiseNullPointer hr.seq
  · refine hr.seq.read (fun m => ?_) fun _ _ _ => rfl
    split
    · exact hr.raise hr.seq _ _
    · refine hr.seq.read (fun m => ?_) fun _ _ _ => rfl
      refine hr.seq.bind (hr.selectVirtual object _) fun run m hm => ?_
      refine ((oblivious_spawnThread object).shadows (spawnThread_sheltered hm.shelved object)).bind
        fun started m₁ ⟨hshelved, hidle, hothers, _, hyield⟩ => ?_
      have hm₁ : Underway free shelf t m₁ :=
        ⟨⟨hshelved.toUnclaimed, fun e he => hshelved.idle e (List.mem_cons_of_mem _ he)⟩,
          hshelved.idle (t, []) List.mem_cons_self, hm.others, fun hfree => by
            rw [hyield]
            exact hm.unyielding hfree⟩
      have hne : started ≠ t := Ne.symm (hothers (t, []) List.mem_cons_self)
      have hshelf : ∀ e ∈ shelf, e.1 ≠ started := fun e he => hothers e (List.mem_cons_of_mem _ he)
      have henter := hk.enter started run [.ref object] hm₁.parked
        ((swapStack_idle hm₁.self).2.2.1.idle hne hidle) fun e he => by
          rcases List.mem_cons.1 he with rfl | hrest
          · exact Ne.symm hne
          · exact hshelf e hrest
      refine Shadows.attempt (withParked_shadows hm₁ henter) (fun _ m₂ hm₂ => ⟨rfl, hm₂⟩)
        (fun e m₂ he hleaves => ?_) fun m₂ => ⟨m₂, rfl⟩
      cases e with
      | exception r => exact threadDied_carries hne hshelf r m₂ hleaves
      | fatal error => exact ⟨rfl, trivial⟩
      | outOfFuel => exact absurd rfl he

theorem invokeMethod_flows (hk : Nested.Shadows cycles k l) (method : MethodId) (args : List Value) :
    Flows cycles free shelf t (invokeMethod k t method args) (invokeMethod l t method args) :=
  course_carries.invokeMethod method args fun object => (threadStart_carries hk object).calls

theorem executeOne_flows (hk : Nested.Shadows cycles k l) :
    Flows cycles free shelf t (executeOne k t) (executeOne l t) := by
  have hr : Course t (Carries cycles free shelf t) (Calls cycles free shelf t) (Flows cycles free shelf t) :=
    course_carries
  exact hr.flow.bind (carries_onTop fetch) fun i => hr.executeWriting writes_carries i
    (hr.accessStatic free_carries (ensureInitialized_carries hk) i) (ensureInitialized_carries hk)
    fun object => (threadStart_carries hk object).calls

end Starting

section Slices

/-- How a call goes on after a slice of its thread. -/
def goOn (k : Nested) (t : ThreadId) (method : MethodId) (fuel : Nat) : SliceEnd → MachineM (Option Value)
  | .finished v => return v
  | .uncaught exception => throw (.exception exception)
  | .yielded => driveSlices k t method fuel
  | .blocked => do
    awaitDeadline t method
    driveSlices k t method fuel

/-- What is left of a call when `x` is left of a slice of its thread. -/
def restOf (k : Nested) (t : ThreadId) (method : MethodId) (fuel : Nat) (x : MachineM SliceEnd) :
    MachineM (Option Value) := do
  let ended ← ensuring x (saveStack t)
  goOn k t method fuel ended

/-- Where a slice leaves its thread. -/
def Stopped (shelf : Shelf) (t : ThreadId) : SliceEnd → Machine → Prop
  | .yielded | .blocked => Halted shelf t
  | .finished _ | .uncaught _ => Sheltered shelf

/-- How a thread stands once it is taken up: it waits still, or it goes on and waits for nothing. -/
def TakenUp (shelf : Shelf) (t : ThreadId) : Except SyncError Resume → Machine → Prop
  | .ok .blocked, m => Halted shelf t m
  | .ok _, m => Sheltered shelf m ∧ m.yieldRequested = false ∧ m.arena.Rests t [] ∧
      ∀ r, m.scheduler.get? t = some r → r.pending = none
  | .error (.fatal _), _ => True
  | .error (.monitor _), _ => False

variable {method : MethodId} {fuel fuel' budget budget' : Nat}

theorem ensuring_of_ok {β : Type} {y : MachineM β} {f : β → MachineM α} {after : Machine → Machine} {b : β}
    (h : y m = .ok b m') : ensuring (y >>= f) after m = ensuring (f b) after m' := by
  unfold ensuring
  rw [bind_of_ok h]

theorem ensuring_of_error {x : MachineM α} {after : Machine → Machine} {e : Trap}
    (h : x m = .error e m') : ensuring x after m = .error e (after m') := by
  unfold ensuring
  rw [h]

theorem restOf_of_ok {β : Type} {y : MachineM β} {f : β → MachineM SliceEnd} {b : β} (h : y m = .ok b m') :
    restOf k t method fuel (y >>= f) m = restOf k t method fuel (f b) m' := by
  unfold restOf
  show EStateM.bind _ _ _ = EStateM.bind _ _ _
  unfold EStateM.bind
  rw [ensuring_of_ok h]

theorem restOf_of_error {x : MachineM SliceEnd} {e : Trap} (h : x m = .error e m') :
    restOf k t method fuel x m = .error e (saveStack t m') :=
  bind_of_error (ensuring_of_error h)

theorem saveStack_passesBy (m : Machine) : m.arena.PassesBy (· ≠ t) (saveStack t m).arena :=
  Arena.passesBy_of_scheduler (a := m.arena) (m.scheduler.update_passesBy_others (fun h => h rfl) _)

theorem Underway.saved (h : Underway free shelf t m) : Sheltered shelf (saveStack t m) :=
  h.toSheltered.spares h.others (saveStack_passesBy m) rfl

theorem Halted.saved (h : Halted shelf t m) : Halted shelf t (saveStack t m) := by
  obtain ⟨stack, r, hr, halive, hstack, hseeks⟩ := h.rests
  have hself : (m.scheduler.update t fun r => { r with stack := m.active }).get? t =
      some { r with stack := m.active } := by
    rw [Scheduler.get?_update, if_pos rfl, show m.scheduler.get? t = some r from hr]
    rfl
  have hrests : (saveStack t m).arena.Rests t m.active := ⟨_, hself, halive, rfl, hseeks⟩
  exact .of_rests h.toSheltered h.others (saveStack_passesBy m) rfl hrests

theorem restOf_shadows {β : Type} {Q : β → Machine → Prop} {P : Machine → Prop} {R : Option Value → Machine → Prop}
    {y y' : MachineM β} {f f' : β → MachineM SliceEnd} {P' : Machine → Prop}
    (hy : Shadows cycles Q P (y m) (y' m'))
    (hf : ∀ b n, Q b n → Shadows cycles R P' (restOf k t method fuel (f b) n)
      (restOf l t method fuel' (f' b) (n.retuned cycles)))
    (hP : ∀ n, P n → P' (saveStack t n)) :
    Shadows cycles R P' (restOf k t method fuel (y >>= f) m) (restOf l t method fuel' (y' >>= f') m') := by
  cases hm : y m with
  | ok b n =>
    rw [hm] at hy
    rw [restOf_of_ok hm, restOf_of_ok hy.1]
    exact hf b n hy.2
  | error e n =>
    rw [hm] at hy
    rw [restOf_of_error (bind_of_error hm)]
    exact hy.on_error (fun hs => restOf_of_error (bind_of_error hs)) (hP n)

/-- A trap that is caught does not end the slice by itself. -/
theorem restOf_attempt {β : Type} (y : MachineM β) (f : Except Trap β → MachineM SliceEnd) :
    restOf k t method fuel (attempt y >>= f) = attempt y >>= fun result => restOf k t method fuel (f result) := by
  funext m
  cases hm : y m with
  | ok b n => rw [restOf_of_ok (attempt_of_ok hm), bind_of_ok (attempt_of_ok hm)]
  | error e n => rw [restOf_of_ok (attempt_of_error hm), bind_of_ok (attempt_of_error hm)]

/-- What an exception makes of a thread: it goes on at a handler, or it ends. -/
theorem handleTrap_shadows {e : Trap} (he : e ≠ .outOfFuel) (hm : e.Leaves (Underway free shelf t) m) :
    Shadows cycles (fun result m' => Underway free shelf t m' ∧ ∀ ended, result = some ended →
        ∃ exception, ended = .uncaught exception)
      (Underway free shelf t) (handleTrap t e m) (handleTrap t e (m.retuned cycles)) := by
  cases e with
  | outOfFuel => exact absurd rfl he
  | fatal error => exact ⟨rfl, trivial⟩
  | exception exception =>
    refine (rules_carries.unwind free_carries exception m hm).bind fun found m' hm' => ?_
    cases found with
    | true => exact ⟨rfl, hm', fun _ h => by cases h⟩
    | false => exact ⟨rfl, hm', fun _ h => ⟨exception, (Option.some.inj h).symm⟩⟩

section Steps

/-- Both machines go on alike after a slice. -/
def EndsAlike (cycles : UInt32) (shelf : Shelf) (t : ThreadId) (f g : SliceEnd → MachineM (Option Value)) :
    Prop :=
  ∀ ended m, Stopped shelf t ended m → Shadows cycles (fun _ => Sheltered shelf) (Sheltered shelf)
    (f ended m) (g ended (m.retuned cycles))

/-- Both machines go on alike from where a thread is underway. -/
def RunsAlike (cycles : UInt32) (shelf : Shelf) (t : ThreadId) (x y : MachineM (Option Value)) : Prop :=
  ∀ m, Underway false shelf t m → Shadows cycles (fun _ => Sheltered shelf) (Sheltered shelf) (x m)
    (y (m.retuned cycles))

variable (hends : EndsAlike cycles shelf t (goOn k t method fuel) (goOn l t method fuel'))

include hends in
theorem restOf_trap (hrest : RunsAlike cycles shelf t (restOf k t method fuel (execute k t budget))
      (restOf l t method fuel' (execute l t budget')))
    {e : Trap} (he : e ≠ .outOfFuel) (hm : e.Leaves (Underway false shelf t) m) :
    Shadows cycles (fun _ => Sheltered shelf) (Sheltered shelf)
      (restOf k t method fuel (handleTrap t e >>= fun
        | some ended => Pure.pure ended
        | none => execute k t budget) m)
      (restOf l t method fuel' (handleTrap t e >>= fun
        | some ended => Pure.pure ended
        | none => execute l t budget') (m.retuned cycles)) := by
  refine restOf_shadows (handleTrap_shadows he hm) (fun result n ⟨hn, hended⟩ => ?_) fun n hn => hn.saved
  cases result with
  | none => exact hrest n hn
  | some ended =>
    obtain ⟨exception, rfl⟩ := hended ended rfl
    exact hends (.uncaught exception) _ hn.saved

include hends in
/-- Both machines execute an instruction. -/
theorem execute_runsAlike (hk : Nested.Shadows cycles k l)
    (hrest : RunsAlike cycles shelf t (restOf k t method fuel (execute k t budget))
      (restOf l t method fuel' (execute l t budget'))) :
    RunsAlike cycles shelf t (restOf k t method fuel (execute k t (budget + 1)))
      (restOf l t method fuel' (execute l t (budget' + 1))) := by
  intro m hm
  unfold execute
  rw [restOf_attempt, restOf_attempt]
  refine Shadows.attempt (executeOne_flows hk m hm) (fun flow n hn => ?_)
    (fun e n he hleaves => restOf_trap hends hrest he hleaves) fun n => ⟨_, restOf_of_error rfl⟩
  cases flow with
  | next => exact hrest n hn
  | finished v => exact hends (.finished v) _ (hn.1.spares hm.others (saveStack_passesBy n) rfl)
  | pause =>
    have hstopped : Stopped shelf t (n.pausedEnd t) (saveStack t n) := by
      unfold pausedEnd
      split
      · exact hn.1.saved
      · exact hn.1.saved
    exact hends _ _ hstopped

/-- A thread that waits for nothing is found ready by its next slice. -/
theorem takeParkedInterrupt_shadows {P : Machine → Prop} (hm : Sheltered shelf m)
    (hothers : ∀ e ∈ shelf, e.1 ≠ t) (hyield : m.yieldRequested = false) (hrests : m.arena.Rests t [])
    (hpending : ∀ r, m.scheduler.get? t = some r → r.pending = none) :
    Shadows cycles (fun _ => Underway false shelf t) P (takeParkedInterrupt t m)
      (takeParkedInterrupt t (m.retuned cycles)) := by
  obtain ⟨r, hr, halive, hstack, hseeks⟩ := hrests
  have hr : m.scheduler.get? t = some r := hr
  have hnone := hpending r hr
  rw [hnone] at hseeks
  unfold takeParkedInterrupt
  rw [bind_get, bind_get, show (m.retuned cycles).scheduler = m.scheduler from rfl, hr]
  dsimp only
  split
  · have hself : (m.scheduler.update t fun r => { r with interruptible := false, interrupted := false }).get? t =
        some { r with interruptible := false, interrupted := false } := by
      rw [Scheduler.get?_update, if_pos rfl, hr]
      rfl
    have hby : m.arena.PassesBy (· ≠ t) ⟨m.heap, m.scheduler.update t fun r =>
        { r with interruptible := false, interrupted := false }⟩ :=
      Arena.passesBy_of_scheduler (a := m.arena) (m.scheduler.update_passesBy_others (fun h => h rfl) _)
    exact ⟨rfl, hm.spares hothers hby rfl, ⟨⟨_, hself, halive, hnone, rfl, hstack⟩, hseeks⟩, hothers,
      fun _ => hyield⟩
  · next hmark =>
    exact ⟨rfl, hm, ⟨⟨r, hr, halive, hnone, by simpa using hmark, hstack⟩, hseeks⟩, hothers, fun _ => hyield⟩

include hends in
/-- Both machines take up a thread where it rests. -/
theorem resume_shadows (hm : Sheltered shelf m) (hothers : ∀ e ∈ shelf, e.1 ≠ t)
    (hyield : m.yieldRequested = false) (hrests : m.arena.Rests t [])
    (hrest : RunsAlike cycles shelf t (restOf k t method fuel (execute k t budget))
      (restOf l t method fuel' (execute l t budget'))) :
    Shadows cycles (fun _ => Sheltered shelf) (Sheltered shelf)
      (restOf k t method fuel (resume k t budget) m)
      (restOf l t method fuel' (resume l t budget') (m.retuned cycles)) := by
  have hsync : Ends (onSync (Sync.resume t) m) (TakenUp shelf t) (Trap.Leaves fun _ => False) := by
    have hresume := Sync.resume_rests hrests
    unfold onSync
    rw [show (⟨m.heap, m.scheduler⟩ : Arena FrameStack) = m.arena from rfl]
    cases hrun : Sync.resume t m.arena with
    | error e a' =>
      obtain ⟨error, rfl⟩ := hresume.of_error hrun
      trivial
    | ok result a' =>
      obtain ⟨hby, hrests', hfree⟩ := hresume.of_ok hrun
      cases result with
      | blocked => exact .of_rests hm hothers hby rfl hrests'
      | running => exact ⟨hm.spares hothers hby rfl, hyield, hrests', hfree (fun h => by cases h)⟩
      | reacquired reason => exact ⟨hm.spares hothers hby rfl, hyield, hrests', hfree (fun h => by cases h)⟩
  unfold resume
  refine restOf_shadows ((oblivious_onSync _).shadows hsync) (fun result n hn => ?_) fun _ h => h.elim
  cases result with
  | error error =>
    cases error with
    | fatal error => exact .error (.fatal error) trivial
    | monitor error => exact (hn : False).elim
  | ok outcome =>
    cases outcome with
    | blocked => exact hends .blocked _ (Halted.saved hn)
    | running | reacquired reason =>
      obtain ⟨hn, hyield, hrests, hpending⟩ := hn
      refine restOf_shadows (P := Underway false shelf t)
        (takeParkedInterrupt_shadows hn hothers hyield hrests hpending) (fun interrupted n' hn' => ?_)
        fun _ h => h.saved
      cases interrupted with
      | false => exact hrest n' hn'
      | true =>
        show Shadows cycles _ _ (restOf k t method fuel (attempt _ >>= _) n')
          (restOf l t method fuel' (attempt _ >>= _) _)
        rw [restOf_attempt, restOf_attempt]
        exact Shadows.attempt (rules_carries.raise sequel_carries _ _ n' hn') (fun _ n'' hn'' => hrest n'' hn'')
          (fun e n'' he hleaves => restOf_trap hends hrest he hleaves) fun n => ⟨_, restOf_of_error rfl⟩

end Steps

section Slices

theorem restOf_congr {x y : MachineM SliceEnd} (h : x m = y m) :
    restOf k t method fuel x m = restOf k t method fuel y m := by
  show EStateM.bind _ _ _ = EStateM.bind _ _ _
  unfold EStateM.bind ensuring
  rw [h]

/-- The next slice of a thread begins with its frames. -/
theorem driveSlices_succ {r : Thread FrameStack} (hr : m.scheduler.get? t = some r) :
    driveSlices k t method (fuel + 1) m = restOf k t method fuel (resume k t m.config.sliceCycles.toNat)
      (takeStack t { m with yieldRequested := false }) := by
  have hslice : runSlice k t m = ensuring (resume k t m.config.sliceCycles.toNat) (saveStack t)
      (takeStack t { m with yieldRequested := false }) := by
    unfold runSlice
    rw [bind_modify, bind_get]
    dsimp only
    rw [hr]
    rfl
  show EStateM.bind _ _ _ = EStateM.bind _ _ _
  unfold EStateM.bind
  rw [hslice]
  cases ensuring (resume k t m.config.sliceCycles.toNat) (saveStack t)
    (takeStack t { m with yieldRequested := false }) with
  | error e n => rfl
  | ok ended n => cases ended <;> rfl

/-- Frames that are put into a record and taken out again are where they were. -/
theorem takeStack_saveStack {r : Thread FrameStack} (hr : m.scheduler.get? t = some r)
    (hstack : r.stack = []) : takeStack t (saveStack t m) = m := by
  have hself : (saveStack t m).scheduler.get? t = some { r with stack := m.active } := by
    show (m.scheduler.update t fun r => { r with stack := m.active }).get? t = _
    rw [Scheduler.get?_update, if_pos rfl, hr]
    rfl
  have hback : (m.scheduler.update t fun r => { r with stack := m.active }).update t
      (fun r => { r with stack := [] }) = m.scheduler := by
    have hthreads : ((m.scheduler.update t fun r => { r with stack := m.active }).update t
        fun r => { r with stack := [] }).threads = m.scheduler.threads := by
      refine Std.ExtTreeMap.ext_getElem? fun {u} => ?_
      show Scheduler.get? ((m.scheduler.update t _).update t _) u = m.scheduler.get? u
      rw [Scheduler.get?_update, Scheduler.get?_update]
      split
      · next heq =>
        rw [← heq, hr]
        cases r
        exact congrArg some (by rw [← hstack])
      · rfl
    exact congrArg (fun threads => { m.scheduler with threads := threads }) hthreads
  unfold takeStack
  rw [hself]
  show ({ m with scheduler := (m.scheduler.update t _).update t _ } : Machine) = m
  rw [hback]

/-- A thread that waits for nothing is taken up where its slice ended. -/
theorem driveSlices_takesUp (hm : Underway false shelf t m) :
    driveSlices k t method (fuel + 1) (saveStack t m) =
      restOf k t method fuel (execute k t m.config.sliceCycles.toNat) m := by
  obtain ⟨r, hr, _, hpending, hmark, hstack⟩ := hm.self.record
  have hr : m.scheduler.get? t = some r := hr
  have hself : (saveStack t m).scheduler.get? t = some { r with stack := m.active } := by
    show (m.scheduler.update t fun r => { r with stack := m.active }).get? t = _
    rw [Scheduler.get?_update, if_pos rfl, hr]
    rfl
  have hback : takeStack t { saveStack t m with yieldRequested := false } = m := by
    have hyield : { saveStack t m with yieldRequested := false } = saveStack t m := by
      rw [← hm.unyielding rfl]
      rfl
    rw [hyield, takeStack_saveStack hr hstack]
  rw [driveSlices_succ hself, hback]
  refine restOf_congr ?_
  have hsync : onSync (Sync.resume t) m = .ok (.ok .running) m := by
    have hrun : Sync.resume t m.arena = .ok .running m.arena := by
      unfold Sync.resume
      rw [bind_get, show m.arena.scheduler.get? t = some r from hr, Option.bind_some, hpending]
      rfl
    unfold onSync
    rw [show (⟨m.heap, m.scheduler⟩ : Arena FrameStack) = m.arena from rfl, hrun]
    rfl
  have hfree : takeParkedInterrupt t m = .ok false m := by
    unfold takeParkedInterrupt
    rw [bind_get, hr]
    dsimp only
    rw [hmark]
    rfl
  unfold resume
  rw [bind_of_ok hsync]
  dsimp only
  rw [bind_of_ok hfree]
  rfl

/-- Time passes for a thread that is parked, and it still can be resumed. -/
theorem Halted.wakes (hm : Halted shelf t m) {s : Scheduler FrameStack}
    (hs : m.scheduler.PassesBy (fun _ => True) s) : Halted shelf t { m with scheduler := s } := by
  obtain ⟨stack, r, hr, halive, hstack, hseeks⟩ := hm.rests
  obtain ⟨r', hr', hstill⟩ := hs.record t r trivial hr
  have hby : m.arena.PassesBy (fun _ => True) ⟨m.heap, s⟩ := Arena.passesBy_of_scheduler (a := m.arena) hs
  refine ⟨hm.toSheltered.passesBy hby (fun _ _ => trivial) rfl,
    ⟨stack, r', hr', hstill.isAlive halive, hstill.stack.trans hstack, ?_⟩, hm.others⟩
  rw [hstill.pending]
  cases hpending : r.pending <;> rw [hpending] at hseeks <;> exact hseeks

theorem awaitDeadline_shadows {P : Machine → Prop} (hm : Halted shelf t m) (method : MethodId) :
    Shadows cycles (fun _ => Halted shelf t) P (awaitDeadline t method m)
      (awaitDeadline t method (m.retuned cycles)) := by
  unfold awaitDeadline
  rw [bind_get, bind_get, show (m.retuned cycles).scheduler = m.scheduler from rfl]
  have hstuck : Shadows cycles (fun _ => Halted shelf t) P
      (fatal (α := Unit) (.invalid (.stuckCall method)) m)
      (fatal (α := Unit) (.invalid (.stuckCall method)) (m.retuned cycles)) := .error _ trivial
  cases (m.scheduler.get? t).map (·.state) with
  | none => exact hstuck
  | some state =>
    cases state with
    | ready => exact ⟨rfl, hm⟩
    | detachedUntil deadline =>
      have hidle : m.scheduler.PassesBy (fun _ => True) (m.scheduler.idleUntil deadline) :=
        Scheduler.passesBy_of_threads_eq rfl rfl
      exact ⟨rfl, hm.wakes (hidle.trans (Scheduler.attachAll_passesBy _ _))⟩
    | detached => exact hstuck
    | terminated => exact hstuck

/-- Both machines begin a slice. -/
theorem driveSlices_shadows (hends : EndsAlike cycles shelf t (goOn k t method fuel) (goOn l t method fuel'))
    (hrest : ∀ c : UInt32, RunsAlike cycles shelf t (restOf k t method fuel (execute k t c.toNat))
      (restOf l t method fuel' (execute l t cycles.toNat))) (hm : Halted shelf t m) :
    Shadows cycles (fun _ => Sheltered shelf) (Sheltered shelf) (driveSlices k t method (fuel + 1) m)
      (driveSlices l t method (fuel' + 1) (m.retuned cycles)) := by
  obtain ⟨stack, r, hr, halive, hstack, hseeks⟩ := hm.rests
  have hr : m.scheduler.get? t = some r := hr
  rw [driveSlices_succ hr, driveSlices_succ (show (m.retuned cycles).scheduler.get? t = some r from hr)]
  have htake : ∀ n : Machine, n.scheduler.get? t = some r →
      takeStack t n = { n with scheduler := n.scheduler.update t (fun r => { r with stack := [] })
                               active := r.stack } := fun n hn => by
    unfold takeStack
    rw [hn]
  rw [show takeStack t { m.retuned cycles with yieldRequested := false } =
    (takeStack t { m with yieldRequested := false }).retuned cycles from
      retouched_takeStack (fun _ => cycles) id { m with yieldRequested := false }]
  rw [htake { m with yieldRequested := false } hr]
  have hself : (m.scheduler.update t fun r => { r with stack := [] }).get? t = some { r with stack := [] } := by
    rw [Scheduler.get?_update, if_pos rfl, hr]
    rfl
  have hby : m.arena.PassesBy (· ≠ t) ⟨m.heap, m.scheduler.update t fun r => { r with stack := [] }⟩ :=
    Arena.passesBy_of_scheduler (a := m.arena) (m.scheduler.update_passesBy_others (fun h => h rfl) _)
  exact resume_shadows hends (hm.toSheltered.spares hm.others hby rfl) hm.others rfl
    ⟨_, hself, halive, rfl, hseeks⟩ (hrest m.config.sliceCycles)

end Slices

end Slices

end ClassMachine.Machine
