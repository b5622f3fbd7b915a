import ClassMachine.Proofs.Machine.BalanceSteps
import ClassMachine.Proofs.Machine.Veils
import ClassMachine.Proofs.Sync.Absence

/-!
Machines that differ in the length of their slices. A thread that is made for a call has no token in any
monitor when it starts, and gets one only by an operation of its own that parks it. So between two of its
instructions it waits for nothing, and does not need to be asked what it waits for when a slice ends
there and another begins. Instructions take machines that differ in the length of slices alone to such
machines, with the thread parked or waiting for nothing.
-/
namespace ClassMachine.Machine
open Stateful

/-- The same machine with slices of another length. -/
def retuned (m : Machine) (cycles : UInt32) : Machine := m.retouched (fun _ => cycles) id

/-- Threads that have been put aside, with the frames they will go on with. -/
abbrev Shelf := List (ThreadId × FrameStack)

/-- No native of the host is offered, and nobody holds a token for a thread that is yet to be made. -/
structure Unclaimed (m : Machine) : Prop where
  noHost : ∀ id, m.natives.get? id = none
  numbered : m.scheduler.Numbered
  ticketed : m.arena.Ticketed

/-- The threads on the shelf wait for nothing. -/
structure Sheltered (shelf : Shelf) (m : Machine) : Prop extends Unclaimed m where
  idle : ∀ e ∈ shelf, m.arena.Idle e.1 e.2

/-- A thread is between two instructions, its frames out of its record. It waits for nothing, and has not
offered to yield unless it is free to. -/
structure Underway (free : Bool) (shelf : Shelf) (t : ThreadId) (m : Machine) : Prop
    extends Sheltered shelf m where
  self : m.arena.Idle t []
  others : ∀ e ∈ shelf, e.1 ≠ t
  unyielding : free = false → m.yieldRequested = false

/-- A thread has stopped where it can be resumed. -/
structure Halted (shelf : Shelf) (t : ThreadId) (m : Machine) : Prop extends Sheltered shelf m where
  rests : ∃ stack, m.arena.Rests t stack
  others : ∀ e ∈ shelf, e.1 ≠ t

/-- A native method has left its thread waiting for nothing, or parked. -/
def Called (shelf : Shelf) (t : ThreadId) (m : Machine) : Prop :=
  Underway true shelf t m ∨
    Halted shelf t m ∧ ∀ r, m.scheduler.get? t = some r → r.isDetached = true

section States

variable {free : Bool} {shelf : Shelf} {t : ThreadId} {m m' : Machine} {Q : ThreadId → Prop}

theorem Unclaimed.passesBy (h : Unclaimed m) (hby : m.arena.PassesBy Q m'.arena)
    (hnatives : m'.natives = m.natives) : Unclaimed m' :=
  ⟨fun id => by rw [hnatives]; exact h.noHost id, hby.scheduler.numbered h.numbered,
    hby.ticketed h.numbered h.ticketed⟩

theorem Sheltered.passesBy (h : Sheltered shelf m) (hby : m.arena.PassesBy Q m'.arena)
    (hQ : ∀ e ∈ shelf, Q e.1) (hnatives : m'.natives = m.natives) : Sheltered shelf m' :=
  ⟨h.toUnclaimed.passesBy hby hnatives, fun e he => hby.idle (hQ e he) (h.idle e he)⟩

theorem Underway.passesBy (h : Underway free shelf t m) (hby : m.arena.PassesBy (fun _ => True) m'.arena)
    (hnatives : m'.natives = m.natives) (hyield : m'.yieldRequested = m.yieldRequested) :
    Underway free shelf t m' :=
  ⟨h.toSheltered.passesBy hby (fun _ _ => trivial) hnatives, hby.idle trivial h.self, h.others,
    fun hfree => by rw [hyield]; exact h.unyielding hfree⟩

theorem Underway.freed (h : Underway free shelf t m) : Underway true shelf t m :=
  ⟨h.toSheltered, h.self, h.others, fun hfree => by cases hfree⟩

/-- Whether the thread offered to yield is its own business. -/
theorem Underway.reset {free' : Bool} (h : Underway free shelf t m) {yielding : Bool}
    (hy : free' = false → yielding = false) :
    Underway free' shelf t { m with yieldRequested := yielding } :=
  ⟨⟨⟨h.noHost, h.numbered, h.ticketed⟩, h.idle⟩, h.self, h.others, hy⟩

theorem Underway.halted (h : Underway free shelf t m) : Halted shelf t m :=
  ⟨h.toSheltered, ⟨[], h.self.rests⟩, h.others⟩

theorem Halted.congr (h : Halted shelf t m) (harena : m'.arena = m.arena)
    (hnatives : m'.natives = m.natives) : Halted shelf t m' :=
  ⟨h.toSheltered.passesBy (Q := fun _ => True) (harena ▸ .refl _) (fun _ _ => trivial) hnatives,
    harena ▸ h.rests, h.others⟩

theorem Underway.called (h : Underway free shelf t m) : Called shelf t m := .inl h.freed

theorem Called.sheltered (h : Called shelf t m) : Sheltered shelf m := by
  rcases h with h | ⟨h, _⟩
  · exact h.toSheltered
  · exact h.toSheltered

/-- What a thread does to itself spares those on the shelf. -/
theorem Sheltered.spares (h : Sheltered shelf m) (hothers : ∀ e ∈ shelf, e.1 ≠ t)
    (hby : m.arena.PassesBy (· ≠ t) m'.arena) (hnatives : m'.natives = m.natives) : Sheltered shelf m' :=
  h.passesBy hby hothers hnatives

theorem Halted.of_rests {stack : FrameStack} (h : Sheltered shelf m) (hothers : ∀ e ∈ shelf, e.1 ≠ t)
    (hby : m.arena.PassesBy (· ≠ t) m'.arena) (hnatives : m'.natives = m.natives)
    (hrests : m'.arena.Rests t stack) : Halted shelf t m' :=
  ⟨h.spares hothers hby hnatives, ⟨stack, hrests⟩, hothers⟩

end States

/-- The second machine came to what the first came to, but for the length of its slices, and is as `Q`
says with a result and as `P` says with an exception. A machine that ran out of fuel says nothing. -/
def Shadows (cycles : UInt32) {α : Type} (Q : α → Machine → Prop) (P : Machine → Prop) :
    EStateM.Result Trap Machine α → EStateM.Result Trap Machine α → Prop
  | .ok a m, s => s = .ok a (m.retuned cycles) ∧ Q a m
  | .error .outOfFuel _, _ => True
  | .error e m, s => s = .error e (m.retuned cycles) ∧ e.Leaves P m

section Tracking

variable {cycles : UInt32} {α β : Type} {Q Q' : α → Machine → Prop} {R : β → Machine → Prop}
  {P P' : Machine → Prop} {m n : Machine} {x y : MachineM α}

theorem Shadows.error (e : Trap) (h : e.Leaves P m) :
    Shadows cycles Q P (.error e m) (.error e (m.retuned cycles)) := by
  cases e with
  | outOfFuel => trivial
  | exception r => exact ⟨rfl, h⟩
  | fatal error => exact ⟨rfl, h⟩

theorem Shadows.of_error {e : Trap} {s : EStateM.Result Trap Machine α} (he : e ≠ .outOfFuel)
    (h : Shadows cycles Q P (.error e m) s) : s = .error e (m.retuned cycles) ∧ e.Leaves P m := by
  cases e with
  | outOfFuel => exact absurd rfl he
  | exception r => exact h
  | fatal error => exact h

/-- A trap is passed on, to a machine that was changed on the way. -/
theorem Shadows.on_error {e : Trap} {s : EStateM.Result Trap Machine α} {s' : EStateM.Result Trap Machine β}
    (h : Shadows cycles Q P (.error e m) s) {m' : Machine}
    (hs : s = .error e (m.retuned cycles) → s' = .error e (m'.retuned cycles)) (hP : P m → P' m') :
    Shadows cycles R P' (.error e m') s' := by
  cases e with
  | outOfFuel => trivial
  | exception r => exact ⟨hs h.1, hP h.2⟩
  | fatal error => exact ⟨hs h.1, trivial⟩

theorem Shadows.mono {r s : EStateM.Result Trap Machine α} (h : Shadows cycles Q P r s)
    (hQ : ∀ a m, Q a m → Q' a m) (hP : ∀ m, P m → P' m) : Shadows cycles Q' P' r s := by
  cases r with
  | ok a m => exact ⟨h.1, hQ a m h.2⟩
  | error e m => exact h.on_error id (hP m)

theorem Shadows.along {f g : α → MachineM β} (hx : Shadows cycles Q P (x m) (y n))
    (hf : ∀ a m', x m = .ok a m' → Q a m' → Shadows cycles R P (f a m') (g a (m'.retuned cycles))) :
    Shadows cycles R P ((x >>= f) m) ((y >>= g) n) := by
  cases hm : x m with
  | ok a m' =>
    rw [hm] at hx
    rw [bind_of_ok hm, bind_of_ok hx.1]
    exact hf a m' hm hx.2
  | error e m' =>
    rw [hm] at hx
    rw [bind_of_error hm]
    exact hx.on_error bind_of_error id

theorem Shadows.bind {f g : α → MachineM β} (hx : Shadows cycles Q P (x m) (y n))
    (hf : ∀ a m', Q a m' → Shadows cycles R P (f a m') (g a (m'.retuned cycles))) :
    Shadows cycles R P ((x >>= f) m) ((y >>= g) n) := hx.along fun a m' _ => hf a m'

theorem Shadows.ensuring {u : Machine → Machine} (hx : Shadows cycles Q P (x m) (y n))
    (hu : ∀ m, u (m.retuned cycles) = (u m).retuned cycles) (hQ : ∀ a m, Q a m → Q' a (u m))
    (hP : ∀ m, P m → P' (u m)) : Shadows cycles Q' P' (ensuring x u m) (ensuring y u n) := by
  unfold Machine.ensuring
  cases hm : x m with
  | ok a m' =>
    rw [hm] at hx
    rw [hx.1]
    exact ⟨congrArg _ (hu m'), hQ a m' hx.2⟩
  | error e m' =>
    rw [hm] at hx
    refine hx.on_error (fun hs => ?_) (hP m')
    rw [hs]
    exact congrArg _ (hu m')

/-- A trap that is caught shadows as far as what is made of it does. -/
theorem Shadows.attempt {f g : Except Trap α → MachineM β} (hx : Shadows cycles Q P (x m) (y n))
    (hok : ∀ a m', Q a m' → Shadows cycles R P' (f (.ok a) m') (g (.ok a) (m'.retuned cycles)))
    (herror : ∀ e m', e ≠ .outOfFuel → e.Leaves P m' →
      Shadows cycles R P' (f (.error e) m') (g (.error e) (m'.retuned cycles)))
    (hfuel : ∀ m', ∃ m'', f (.error .outOfFuel) m' = .error .outOfFuel m'') :
    Shadows cycles R P' ((Machine.attempt x >>= f) m) ((Machine.attempt y >>= g) n) := by
  cases hm : x m with
  | ok a m' =>
    rw [hm] at hx
    rw [bind_of_ok (attempt_of_ok hm), bind_of_ok (attempt_of_ok hx.1)]
    exact hok a m' hx.2
  | error e m' =>
    rw [hm] at hx
    rw [bind_of_ok (attempt_of_error hm)]
    by_cases he : e = .outOfFuel
    · subst he
      obtain ⟨m'', hout⟩ := hfuel m'
      rw [hout]
      trivial
    · obtain ⟨hs, hleaves⟩ := hx.of_error he
      rw [bind_of_ok (attempt_of_error hs)]
      exact herror e m' he hleaves

/-- What is oblivious to the length of slices shadows itself. -/
theorem Oblivious.shadows {x : MachineM α} (hx : Oblivious x) (h : Ends (x m) Q (Trap.Leaves P)) :
    Shadows cycles Q P (x m) (x (m.retuned cycles)) := by
  rw [show x (m.retuned cycles) = _ from hx (fun _ => cycles) id m]
  cases hm : x m with
  | ok a m' => exact ⟨rfl, h.of_ok hm⟩
  | error e m' => exact .error e (h.of_error hm)

end Tracking

/-- From where a thread is underway to where it is, whatever the length of slices. -/
abbrev Carries (cycles : UInt32) (free : Bool) (shelf : Shelf) (t : ThreadId) : Comparison :=
  fun _ x y => ∀ m, Underway free shelf t m → Shadows cycles (fun _ => Underway free shelf t)
    (Underway free shelf t) (x m) (y (m.retuned cycles))

/-- From where a thread is underway to where a native method leaves it. -/
abbrev Calls (cycles : UInt32) (free : Bool) (shelf : Shelf) (t : ThreadId) : Comparison :=
  fun _ x y => ∀ m, Underway free shelf t m → Shadows cycles (fun _ => Called shelf t)
    (Underway free shelf t) (x m) (y (m.retuned cycles))

/-- Where an instruction leaves its thread. -/
def Flowing (free : Bool) (shelf : Shelf) (t : ThreadId) : Flow → Machine → Prop
  | .next, m => Underway free shelf t m
  | .pause, m => Halted shelf t m ∧ (free = false → m.yieldRequested = false)
  | .finished _, m => Sheltered shelf m ∧ (free = false → m.yieldRequested = false)

/-- From where a thread is underway to where an instruction leaves it. -/
abbrev Flows (cycles : UInt32) (free : Bool) (shelf : Shelf) (t : ThreadId) (x y : MachineM Flow) : Prop :=
  ∀ m, Underway free shelf t m → Shadows cycles (Flowing free shelf t) (Underway free shelf t) (x m)
    (y (m.retuned cycles))

/-- Nothing happened to threads but that some were woken or marked, and none has come by a token. -/
structure Spared (m m' : Machine) : Prop where
  arena : m.arena.PassesBy (fun _ => True) m'.arena
  natives : m'.natives = m.natives
  yielding : m'.yieldRequested = m.yieldRequested

section Carrying

variable {cycles : UInt32} {free : Bool} {shelf : Shelf} {t : ThreadId} {α β : Type} {m m' : Machine}

theorem Underway.spared (h : Underway free shelf t m) (hs : Spared m m') : Underway free shelf t m' :=
  h.passesBy hs.arena hs.natives hs.yielding

theorem spared_of_arena (ha : m'.arena = m.arena) (hn : m'.natives = m.natives)
    (hy : m'.yieldRequested = m.yieldRequested) : Spared m m' := ⟨ha ▸ .refl _, hn, hy⟩

theorem Spared.refl (m : Machine) : Spared m m := spared_of_arena rfl rfl rfl

theorem spared_of_heap {roots : List Ref} {h : Heap} (hr : m.heap.Respects roots h) :
    Spared m { m with heap := h } := ⟨Arena.passesBy_of_respects (a := m.arena) hr, rfl, rfl⟩

theorem spared_of_scheduler {s : Scheduler FrameStack}
    (h : m.scheduler.PassesBy (fun _ => True) s) : Spared m { m with scheduler := s } :=
  ⟨Arena.passesBy_of_scheduler (a := m.arena) h, rfl, rfl⟩

theorem sequel_carries {R : β → Machine → Prop} :
    Sequel (Carries cycles free shelf t) fun x y => ∀ m, Underway free shelf t m →
      Shadows cycles R (Underway free shelf t) (x m) (y (m.retuned cycles)) where
  along hx hf m hm := (hx m hm).along fun a m' hrun hm' => hf a ⟨m, m', hrun⟩ m' hm'
  read {f g} hf hg m hm := by
    have hsame : ∀ n, (get >>= g) (n.retuned cycles) = g n (n.retuned cycles) := fun n =>
      congrFun (hg n _ _) _
    rw [hsame]
    exact hf m m hm
  throw e _ m hm := .error e (Trap.leaves_of hm e)

theorem carries_of_spared {x : MachineM α} (hx : Oblivious x)
    (h : ∀ m, Ends (x m) (fun _ m' => Spared m m') fun e m' => e.Leaves (Spared m) m') :
    (Carries cycles free shelf t).Same x := fun m hm =>
  hx.shadows ((h m).mono (fun _ _ hs => hm.spared hs) fun _ _ he => he.mono fun _ hs => hm.spared hs)

theorem carries_pure (a : α) : (Carries cycles free shelf t).Same (Pure.pure a : MachineM α) :=
  fun _ hm => ⟨rfl, hm⟩

theorem carries_modify {u : Machine → Machine} (hu : ∀ m, u (m.retuned cycles) = (u m).retuned cycles)
    (h : ∀ m, Spared m (u m)) : (Carries cycles free shelf t).Same (modify u) := fun m hm =>
  ⟨congrArg _ (hu m), hm.spared (h m)⟩

theorem carries_updateHeap {f : Heap → Heap} (hf : ∀ roots h, Heap.Respects h roots (f h)) :
    (Carries cycles free shelf t).Same (updateHeap f) :=
  carries_modify (fun _ => rfl) fun m => spared_of_heap (hf [] m.heap)

theorem carries_onScheduler {f : Scheduler FrameStack → α × Scheduler FrameStack}
    (hf : ∀ s : Scheduler FrameStack, s.PassesBy (fun _ => True) (f s).2) :
    (Carries cycles free shelf t).Same (onScheduler f) :=
  carries_of_spared (fun _ _ _ => rfl) fun m => spared_of_scheduler (hf m.scheduler)

/-- An operation on monitors that leaves its thread waiting for nothing. -/
theorem carries_onSync {x : SyncM FrameStack α}
    (hx : ∀ a, Ends (x a) (fun _ a' => a.PassesBy (fun _ => True) a') fun _ a' => a' = a) :
    (Carries cycles free shelf t).Same (onSync x) := by
  refine carries_of_spared (oblivious_onSync x) fun m => ?_
  have harena := hx m.arena
  unfold onSync
  rw [show (⟨m.heap, m.scheduler⟩ : Arena FrameStack) = m.arena from rfl]
  cases hrun : x m.arena with
  | ok a a' => exact ⟨harena.of_ok hrun, rfl, rfl⟩
  | error e a' =>
    have hsame := harena.of_error hrun
    subst hsame
    exact .refl m

theorem carries_orPopFrame {x y : MachineM α} (h : Carries cycles free shelf t x y) :
    Carries cycles free shelf t (orPopFrame x) (orPopFrame y) := by
  intro m hm
  have hshadows := h m hm
  unfold Machine.orPopFrame
  cases hx : x m with
  | ok a m' =>
    rw [hx] at hshadows
    rw [hshadows.1]
    exact ⟨rfl, hshadows.2⟩
  | error e m' =>
    rw [hx] at hshadows
    exact hshadows.on_error (fun hs => by rw [hs]; rfl) fun hn => hn.spared (spared_of_arena rfl rfl rfl)

theorem carries_onTop (x : FrameM α) : (Carries cycles free shelf t).Same (onTop x) := by
  refine carries_of_spared (oblivious_onTop x) fun m => ?_
  unfold Machine.onTop
  cases m.active with
  | nil => trivial
  | cons f rest =>
    dsimp only
    cases x f with
    | ok a g => exact spared_of_arena rfl rfl rfl
    | error e g => trivial

theorem carries_updateObject (r : Ref) {f : Object → Object} (hf : ∀ o, (f o).monitor = o.monitor) :
    (Carries cycles free shelf t).Same (updateHeap fun h => h.update r f) :=
  carries_updateHeap fun roots h => Heap.update_respects roots h r hf

theorem carries_reserve (units : Nat) : (Carries cycles free shelf t).Same (reserve units) := by
  refine carries_of_spared (oblivious_reserve units) fun m => ?_
  have hheap := Heap.reserve_respects m.roots m.heap units
  unfold reserve
  cases hr : m.heap.reserve m.roots units with
  | mk result h =>
    rw [hr] at hheap
    cases result with
    | ok u => exact spared_of_heap hheap
    | error e => exact Trap.leaves_of (spared_of_heap hheap) _

theorem carries_insertObject {o : Object} (ho : o.monitor = {}) :
    (Carries cycles free shelf t).Same (insertObject o) := by
  refine carries_of_spared (oblivious_insertObject o) fun m => ?_
  rw [insertObject_eq]
  split
  · trivial
  · next hfree => exact spared_of_heap (Heap.insert_respects [] m.heap ho (by simpa using hfree))

theorem carries_onLinker {x : StateM Linker α} : (Carries cycles free shelf t).Same (onLinker x) :=
  carries_of_spared (fun _ _ _ => rfl) fun _ => spared_of_arena rfl rfl rfl

theorem rules_carries : Rules t (Carries cycles free shelf t) where
  seq := sequel_carries
  pure := carries_pure
  onTop _ := carries_onTop _
  popFrame := carries_modify (fun _ => rfl) fun _ => spared_of_arena rfl rfl rfl
  orPopFrame := carries_orPopFrame
  onLinker _ := carries_onLinker
  reserve := carries_reserve
  newInstance _ := sequel_carries.newInstance carries_onLinker carries_reserve fun _ => carries_insertObject rfl
  insertObject _ _ _ := carries_insertObject rfl
  setField r _ _ := carries_updateObject r fun _ => rfl
  intern _ hmake := sequel_carries.internString carries_pure hmake fun _ =>
    carries_updateHeap fun roots _ => Heap.respects_of_objects_eq roots rfl rfl
  registerMirror _ _ := carries_updateHeap fun roots _ => Heap.respects_of_objects_eq roots rfl rfl
  pinning rs _ _ hx := sequel_carries.bind
    (carries_updateHeap fun roots h =>
      Heap.respects_of_objects_eq roots (h.objects_pinAll rs).1 (h.objects_pinAll rs).2)
    fun _ m hm => by
      have hunpin : ∀ n, Underway free shelf t n → Underway free shelf t { n with heap := n.heap.unpinAll rs } :=
        fun n hn => hn.spared (spared_of_heap (Heap.respects_of_objects_eq [] (n.heap.objects_unpinAll rs).1
          (n.heap.objects_unpinAll rs).2))
      exact (hx m hm).ensuring (fun _ => rfl) (fun _ => hunpin) hunpin
  collectGarbage := carries_of_spared (fun _ _ _ => rfl) fun m =>
    spared_of_heap (Heap.collect_respects m.roots m.heap)
  currentThread := sequel_carries.threadObject carries_pure fun _ =>
    carries_modify (fun _ => rfl) fun m => spared_of_scheduler
      (m.scheduler.update_passesBy t fun _ => ⟨rfl, rfl, rfl, fun h => h⟩)
  interrupt target := carries_onScheduler fun s => s.interrupt_passesBy target
  exit object := carries_onSync (Sync.exit_passesBy t object)
  notify object := carries_onSync (Sync.notify_passesBy t object)
  notifyAll object := carries_onSync (Sync.notifyAll_passesBy t object)

theorem free_carries : Free (Carries cycles free shelf t) where
  reframe _ := carries_modify (fun _ => rfl) fun _ => spared_of_arena rfl rfl rfl
  restatic _ := carries_modify (fun _ => rfl) fun _ => spared_of_arena rfl rfl rfl
  throw e _ hm := .error e (Trap.leaves_of hm e)

theorem raiseSync_shadows {R : β → Machine → Prop} (e : SyncError) (hm : Underway free shelf t m) :
    Shadows cycles R (Underway free shelf t) (raiseSync e m) (raiseSync e (m.retuned cycles)) := by
  cases e with
  | monitor e => exact rules_carries.raise sequel_carries _ _ m hm
  | fatal e => exact .error _ (Trap.leaves_of hm _)

theorem writes_carries : Rules.Writes (Carries cycles free shelf t) where
  array _ _ _ := carries_insertObject rfl
  element array index v := carries_updateObject array fun o => by
    cases o.elements? with
    | some pair => exact setElement_monitor _ _ o
    | none => rfl
  fill array index child := carries_updateObject array (setElement_monitor index _)

end Carrying

section Courses

variable {cycles : UInt32} {free : Bool} {shelf : Shelf} {t : ThreadId} {α β : Type} {m m' : Machine}

theorem Carries.calls {x y : MachineM α} (h : Carries cycles free shelf t x y) :
    Calls cycles free shelf t x y := fun m hm => (h m hm).mono (fun _ _ hm' => hm'.called) fun _ hm' => hm'

/-- An operation on monitors, which changes nothing when it is refused. -/
theorem onSync_shadows {x : SyncM FrameStack α} {Q : α → Machine → Prop} {P : Machine → Prop}
    (hx : Ends (x m.arena) (fun a a' => Q a { m with heap := a'.heap, scheduler := a'.scheduler })
      fun _ a' => a' = m.arena) :
    Shadows cycles (fun result m' => match result with
      | .ok a => Q a m'
      | .error _ => m' = m) P (onSync x m) (onSync x (m.retuned cycles)) := by
  refine (oblivious_onSync x).shadows ?_
  unfold onSync
  rw [show (⟨m.heap, m.scheduler⟩ : Arena FrameStack) = m.arena from rfl]
  cases hrun : x m.arena with
  | ok a a' => exact hx.of_ok hrun
  | error e a' =>
    have hsame := hx.of_error hrun
    subst hsame
    exact rfl

/-- An operation on monitors that may park its thread. A refused one is an exception. -/
theorem synchronize_shadows {x : SyncM FrameStack α} {Q : α → Machine → Prop} (hm : Underway free shelf t m)
    (hx : Ends (x m.arena) (fun a a' => Q a { m with heap := a'.heap, scheduler := a'.scheduler })
      fun _ a' => a' = m.arena) :
    Shadows cycles Q (Underway free shelf t) (synchronize x m) (synchronize x (m.retuned cycles)) := by
  refine (onSync_shadows hx).bind fun result m' hresult => ?_
  cases result with
  | ok a => exact ⟨rfl, hresult⟩
  | error e =>
    rw [show m' = m from hresult]
    exact raiseSync_shadows e hm

/-- What parks a thread makes it one that interrupts can reach. -/
theorem setInterruptible_shadows {P : Machine → Prop} (hm : Halted shelf t m)
    (hdetached : ∀ r, m.scheduler.get? t = some r → r.isDetached = true) :
    Shadows cycles (fun _ => Called shelf t) P (setInterruptible t m)
      (setInterruptible t (m.retuned cycles)) := by
  refine ⟨rfl, .inr ⟨?_, fun r hr => ?_⟩⟩
  · obtain ⟨stack, r, hr, halive, hstack, hseeks⟩ := hm.rests
    have hself : (m.scheduler.update t fun u => { u with interruptible := true }).get? t =
        some { r with interruptible := true } := by
      rw [Scheduler.get?_update, if_pos rfl, show m.scheduler.get? t = some r from hr]
      rfl
    exact .of_rests hm.toSheltered hm.others
      (Arena.passesBy_of_scheduler (a := m.arena) (m.scheduler.update_passesBy_others (fun h => h rfl) _)) rfl
      ⟨_, hself, halive, hstack, hseeks⟩
  · have hr : (m.scheduler.update t fun u => { u with interruptible := true }).get? t = some r := hr
    rw [Scheduler.get?_update, if_pos rfl] at hr
    obtain ⟨u, hu, rfl⟩ := Option.map_eq_some_iff.1 hr
    exact hdetached u hu

/-- A thread that is taken out of the rotation is parked. -/
theorem detach_halted (hm : Underway free shelf t m) {s : Scheduler FrameStack}
    (hs : m.scheduler.PassesBy (fun _ => True) s) (timeout : Timeout) :
    Halted shelf t { m with scheduler := (s.detach t timeout).2 } ∧
      ∀ r, (s.detach t timeout).2.get? t = some r → r.isDetached = true := by
  obtain ⟨r, hr, halive, hpending, hmark, hstack⟩ := (hm.spared (spared_of_scheduler hs)).self.record
  have hr : s.get? t = some r := hr
  have hself : (s.detach t timeout).2.get? t =
      some { r with state := Scheduler.detachedState s.now timeout } := by
    rw [Scheduler.get?_detach, if_pos rfl, hr, Option.map_some, if_pos halive]
  have hby : m.scheduler.PassesBy (· ≠ t) (s.detach t timeout).2 :=
    (hs.mono fun _ _ => trivial).trans (s.detach_passesBy (fun h => h rfl) timeout)
  refine ⟨@Halted.of_rests _ _ _ _ [] hm.toSheltered hm.others
    (Arena.passesBy_of_scheduler (a := m.arena) hby) rfl ⟨_, hself, ?_, hstack, ?_⟩, fun r' hr' => ?_⟩
  · cases timeout <;> rfl
  · rw [hpending]
    exact hm.self.absent
  · rw [hself] at hr'
    obtain rfl := Option.some.inj hr'
    cases timeout <;> rfl

theorem joins_called (target : ThreadId) : (Calls cycles free shelf t).Same
    (onScheduler (·.join t target) >>= fun joined =>
      if joined then setInterruptible t else Pure.pure ⟨⟩) := by
  intro m hm
  have hjoin : Ends (onScheduler (·.join t target) m) (fun joined m' => joined = false ∧ m' = m ∨
      Halted shelf t m' ∧ ∀ r, m'.scheduler.get? t = some r → r.isDetached = true)
      (Trap.Leaves (Underway free shelf t)) := by
    show _ = false ∧ ({ m with scheduler := (m.scheduler.join t target).2 } : Machine) = m ∨
      Halted shelf t { m with scheduler := (m.scheduler.join t target).2 } ∧
        ∀ r, (m.scheduler.join t target).2.get? t = some r → r.isDetached = true
    unfold Scheduler.join
    split
    · split
      · have hnoted : m.scheduler.PassesBy (fun _ => True)
            (m.scheduler.update target fun r => { r with joiners := r.joiners ++ [t] }) :=
          m.scheduler.update_passesBy target fun _ => ⟨rfl, rfl, rfl, fun h => h⟩
        exact .inr (detach_halted hm hnoted .indefinite)
      · exact .inl ⟨rfl, rfl⟩
    · exact .inl ⟨rfl, rfl⟩
  refine (Oblivious.shadows (fun _ _ _ => rfl) hjoin).bind fun joined m' hm' => ?_
  rcases hm' with ⟨rfl, rfl⟩ | ⟨hhalted, hdetached⟩
  · exact ⟨rfl, hm.called⟩
  · split
    · exact setInterruptible_shadows hhalted hdetached
    · exact ⟨rfl, .inr ⟨hhalted, hdetached⟩⟩

/-- A result is handed on whether the thread will stop or not. -/
theorem deliver_shadows {paused : Bool} {P : Machine → Prop}
    (hm : Underway free shelf t m ∨ paused = true ∧ Halted shelf t m) (hyield : m.yieldRequested = false)
    (result : Option Value) :
    Shadows cycles (fun flow m' => m'.yieldRequested = false ∧ match flow with
        | .next => Underway free shelf t m' ∨ paused = true ∧ Halted shelf t m'
        | .pause => False
        | .finished _ => Sheltered shelf m') P (deliver result m) (deliver result (m.retuned cycles)) := by
  have hsheltered : Sheltered shelf m := hm.elim (·.toSheltered) (·.2.toSheltered)
  unfold deliver
  rw [bind_get, bind_get, show (m.retuned cycles).active = m.active from rfl]
  cases hactive : m.active with
  | nil => exact ⟨rfl, hyield, hsheltered⟩
  | cons f rest =>
    cases result with
    | none => exact ⟨rfl, hyield, hm⟩
    | some v =>
      have hpush : Ends (push v m) (fun _ m' => m'.yieldRequested = false ∧
          (Underway free shelf t m' ∨ paused = true ∧ Halted shelf t m')) (Trap.Leaves P) := by
        unfold push onTop
        rw [hactive]
        exact ⟨hyield,
          hm.imp (fun h => h.spared (spared_of_arena rfl rfl rfl)) fun h => ⟨h.1, h.2.congr rfl rfl⟩⟩
      exact ((oblivious_onTop (Frame.push v)).shadows hpush).bind fun _ m' hm' => ⟨rfl, hm'⟩

/-- A thread that was left parked by a native method stops, one that waits for nothing goes on unless it
offered to yield. -/
theorem finishNative_shadows {P : Machine → Prop} (hm : Called shelf t m) (result : Option Value) :
    Shadows cycles (Flowing free shelf t) P (finishNative t result m)
      (finishNative t result (m.retuned cycles)) := by
  have hpause : Ends (takePause t m) (fun paused m' => m'.yieldRequested = false ∧
      (Underway free shelf t m' ∨ paused = true ∧ Halted shelf t m')) (Trap.Leaves P) := by
    refine ⟨rfl, ?_⟩
    rcases hm with hm | ⟨hm, hdetached⟩
    · exact .inl (hm.reset fun _ => rfl)
    · refine .inr ⟨?_, hm.congr rfl rfl⟩
      cases hr : m.scheduler.get? t with
      | none => exact Bool.or_true _
      | some r =>
        show (_ || r.isDetached) = true
        rw [hdetached r hr, Bool.or_true]
  refine (Oblivious.shadows (fun _ _ _ => rfl) hpause).bind fun paused m' ⟨hyield, hm'⟩ => ?_
  refine (deliver_shadows hm' hyield result).bind fun flow m'' ⟨hyield, hm''⟩ => ?_
  cases flow with
  | pause => exact hm''.elim
  | finished v => exact ⟨rfl, hm'', fun _ => hyield⟩
  | next =>
    cases paused with
    | true => exact ⟨rfl, hm''.elim (·.halted) (·.2), fun _ => hyield⟩
    | false => exact ⟨rfl, hm''.elim id fun h => nomatch h.1⟩

/-- Where a thread is that asked for a monitor. -/
def Entered (free : Bool) (shelf : Shelf) (t : ThreadId) : Acquire → Machine → Prop
  | .acquired, m => Underway free shelf t m
  | .blocked, m => Halted shelf t m ∧ (free = false → m.yieldRequested = false)

theorem Entered.congr {outcome : Acquire} (h : Entered free shelf t outcome m) (harena : m'.arena = m.arena)
    (hnatives : m'.natives = m.natives) (hyield : m'.yieldRequested = m.yieldRequested) :
    Entered free shelf t outcome m' := by
  cases outcome with
  | acquired => exact Underway.spared h (spared_of_arena harena hnatives hyield)
  | blocked => exact ⟨h.1.congr harena hnatives, fun hfree => by rw [hyield]; exact h.2 hfree⟩

theorem enter_entered (hm : Underway free shelf t m) (object : Ref) :
    Ends (Sync.enter t object m.arena)
      (fun outcome a' => Entered free shelf t outcome { m with heap := a'.heap, scheduler := a'.scheduler })
      fun _ a' => a' = m.arena := by
  refine (Sync.enter_idle hm.self object).mono (fun outcome a' ⟨hby, hrests, hacquired⟩ => ?_) fun _ _ h => h
  cases outcome with
  | acquired => exact ⟨hm.toSheltered.spares hm.others hby rfl, hacquired rfl, hm.others, hm.unyielding⟩
  | blocked => exact ⟨.of_rests hm.toSheltered hm.others hby rfl hrests, hm.unyielding⟩

/-- The frame of a synchronized method is marked with the monitor it was entered with. -/
theorem enterMonitor_shadows (hm : Underway free shelf t m) (object : Ref) :
    Shadows cycles (Flowing free shelf t) (Underway free shelf t) (enterMonitor t object m)
      (enterMonitor t object (m.retuned cycles)) := by
  refine (onSync_shadows (enter_entered hm object)).bind fun result m₁ hresult => ?_
  cases result with
  | error e =>
    rw [show m₁ = m from hresult]
    have hpopped : Underway free shelf t { m with active := m.active.tail } :=
      hm.spared (spared_of_arena rfl rfl rfl)
    exact raiseSync_shadows e hpopped
  | ok outcome =>
    have hmark : Ends (onTop (modify fun f => { f with monitor := some object }) m₁)
        (fun _ m' => Entered free shelf t outcome m') (Trap.Leaves (Underway free shelf t)) := by
      unfold onTop
      cases m₁.active with
      | nil => trivial
      | cons f rest => exact Entered.congr hresult rfl rfl rfl
    refine ((oblivious_onTop _).shadows hmark).bind fun _ m₂ h₂ => ?_
    cases outcome with
    | acquired => exact ⟨rfl, h₂⟩
    | blocked => exact ⟨rfl, h₂⟩

theorem carries_checkInterrupt : (Carries cycles free shelf t).Same (checkInterrupt t) :=
  rules_carries.checkInterrupt (carries_onScheduler fun s => s.takeInterrupt_passesBy t)

theorem course_carries :
    Course t (Carries cycles free shelf t) (Calls cycles free shelf t) (Flows cycles free shelf t) where
  toRules := rules_carries
  newPrimitiveArray := rules_carries.newPrimitiveArray writes_carries
  newMultiArray := rules_carries.newMultiArray writes_carries
  arrayCopy := rules_carries.arrayCopy writes_carries.element
  callBytecode := rules_carries.callBytecode free_carries sequel_carries (fun _ hm => ⟨rfl, hm⟩)
    fun object _ hm => enterMonitor_shadows hm object
  native := sequel_carries
  quickly := Carries.calls
  dropping b hx m hm := (hx m hm).bind fun _ _ hm' => ⟨rfl, hm'⟩
  checks hx m hm := (carries_checkInterrupt m hm).bind fun _ m' hm => hx m' hm
  waits object timeout m hm := (carries_checkInterrupt m hm).bind fun _ m' hm => by
    refine (synchronize_shadows (Q := fun _ m' => Halted shelf t m' ∧
      ∀ r, m'.scheduler.get? t = some r → r.isDetached = true) hm
      ((Sync.wait_idle hm.self object timeout).mono (fun _ a' h => ?_) fun _ _ h => h)).bind
      fun _ m' h => setInterruptible_shadows h.1 h.2
    exact ⟨.of_rests hm.toSheltered hm.others h.1 rfl h.2.1, h.2.2⟩
  sleeps timeout m hm := (carries_checkInterrupt m hm).bind fun _ m' hm => by
    have hdetach : Ends (onScheduler (·.detach t timeout) m') (fun _ m' => Halted shelf t m' ∧
        ∀ r, m'.scheduler.get? t = some r → r.isDetached = true) (Trap.Leaves (Underway free shelf t)) :=
      detach_halted hm (.refl _) timeout
    exact (Oblivious.shadows (fun _ _ _ => rfl) hdetach).bind fun _ m' h => setInterruptible_shadows h.1 h.2
  joins target m hm := (carries_checkInterrupt m hm).bind fun _ m' hm => joins_called target m' hm
  yields m hm := ⟨rfl, .inl (hm.reset (fun h => by cases h))⟩
  host args id m hm := by
    have hnone : ∀ n : Machine, n.natives.get? id = none →
        runHost t args id n = .error (.fatal (.inconsistent (.nativeNotRegistered id))) n := by
      intro n hn
      unfold runHost
      rw [bind_get, hn]
      rfl
    rw [hnone m (hm.noHost id), hnone (m.retuned cycles) (hm.noHost id)]
    exact ⟨rfl, trivial⟩
  flow := sequel_carries
  next _ hm := ⟨rfl, hm⟩
  finished _ _ hm := ⟨rfl, hm.toSheltered, hm.unyielding⟩
  answer hx m hm := (hx m hm).bind fun result m' hm' => finishNative_shadows hm' result
  enterMonitor object _ hm := enterMonitor_shadows hm object
  enters object m hm := (synchronize_shadows hm (enter_entered hm object)).bind fun outcome m' h => by
    cases outcome with
    | acquired => exact ⟨rfl, h⟩
    | blocked => exact ⟨rfl, h⟩

end Courses

end ClassMachine.Machine
