import ClassMachine.Proofs.Heap.Monitors
import ClassMachine.Proofs.Machine.Acts
import ClassMachine.Proofs.Machine.RuleSteps
import ClassMachine.Proofs.Machine.Watching

/-!
Computations as sequences of acts. However a computation ends, it has done acts of its own thread and of
threads that it made; and wherever an observer is let in, the machine has come there by such acts and goes
on from there by such acts.
-/
namespace ClassMachine.Machine
open Stateful

/-- The machine a run leaves, whatever came of it. -/
def final {ε α : Type} : EStateM.Result ε Machine α → Machine
  | .ok _ m => m
  | .error _ m => m

theorem final_ensuring {α : Type} (x : MachineM α) (after : Machine → Machine) (m : Machine) :
    final (ensuring x after m) = after (final (x m)) := by
  unfold ensuring
  cases x m <;> rfl

theorem ends_ensuring {α : Type} {x : MachineM α} {after : Machine → Machine} {m : Machine} {Q : α → Machine → Prop}
    {E : Trap → Machine → Prop} (h : Ends (x m) (fun a m' => Q a (after m')) fun e m' => E e (after m')) :
    Ends (ensuring x after m) Q E := by
  unfold ensuring
  cases hr : x m with
  | ok a m' => exact h.of_ok hr
  | error e m' => exact h.of_error hr

/-- Who may act while `r` runs: `r`, and threads that are not made yet. -/
def Hands (r : Option ThreadId) (m : Machine) (t : ThreadId) : Prop := t ∈ r ∨ m.scheduler.nextId ≤ t

/-- From `m` on `x` does acts of the threads `S`. To let the observer in, as `y` does, makes no difference
if it is idle wherever such acts lead and go on from. -/
structure Passes {ε α : Type} (S : ThreadId → Prop) (look : Observer) (x y : EStateM ε Machine α)
    (m : Machine) : Prop where
  passed : Passed S m (final (x m))
  same : (∀ r n, Acts S m n → Acts S n (final (x m)) → look r n = .ok () n) → y m = x m

namespace Passes

variable {ε ε' α β : Type} {S S' : ThreadId → Prop} {look : Observer} {x y : EStateM ε Machine α} {m : Machine}

theorem of_passed (h : Passed S m (final (x m))) : Passes S look x x m := ⟨h, fun _ => rfl⟩

theorem mono (h : Passes S look x y m) (hS : ∀ t, S t → S' t) : Passes S' look x y m :=
  ⟨h.passed.mono hS, fun hidle => h.same fun r n hn hn' => hidle r n (hn.mono hS) (hn'.mono hS)⟩

theorem bind {f g : α → EStateM ε Machine β} (hx : Passes S look x y m)
    (hf : ∀ a m', x m = .ok a m' → Passes S look (f a) (g a) m') : Passes S look (x >>= f) (y >>= g) m := by
  have hpassed := hx.passed
  have hsame := hx.same
  cases hr : x m with
  | error e m' =>
    rw [hr] at hpassed hsame
    refine ⟨?_, fun hidle => ?_⟩
    · rw [bind_of_error hr]
      exact hpassed
    · rw [bind_of_error hr] at hidle ⊢
      exact bind_of_error (hsame hidle)
  | ok a m' =>
    have hnext := hf a m' hr
    rw [hr] at hpassed hsame
    refine ⟨?_, fun hidle => ?_⟩
    · rw [bind_of_ok hr]
      exact hpassed.trans hnext.passed
    · rw [bind_of_ok hr] at hidle ⊢
      rw [bind_of_ok (hsame fun r n hn hn' => hidle r n hn (hn'.trans hnext.passed.acts))]
      exact hnext.same fun r n hn hn' => hidle r n (hpassed.acts.trans hn) hn'

/-- Something is done after `x`, however it ended. -/
theorem after {x' y' : EStateM ε' Machine β} (h : Passes S look x y m)
    (hlater : Passed S (final (x m)) (final (x' m))) (hy : y m = x m → y' m = x' m) :
    Passes S look x' y' m :=
  ⟨h.passed.trans hlater, fun hidle => hy (h.same fun r n hn hn' => hidle r n hn (hn'.trans hlater.acts))⟩

theorem attempt {x y : MachineM α} (h : Passes S look x y m) :
    Passes S look (Machine.attempt x) (Machine.attempt y) m := by
  refine h.after ?_ fun heq => ?_
  · have hfinal : final (Machine.attempt x m) = final (x m) := by
      unfold Machine.attempt
      cases x m <;> rfl
    exact hfinal ▸ .refl _
  · unfold Machine.attempt
    rw [heq]

theorem ensuring {x y : MachineM α} {after : Machine → Machine} (h : Passes S look x y m)
    (hafter : Passed S (final (x m)) (after (final (x m)))) :
    Passes S look (Machine.ensuring x after) (Machine.ensuring y after) m := by
  refine h.after ?_ fun heq => ?_
  · exact final_ensuring x after m ▸ hafter
  · unfold Machine.ensuring
    rw [heq]

theorem read {f g : Machine → EStateM ε Machine β} (h : Passes S look (f m) (g m) m) :
    Passes S look (get >>= f) (get >>= g) m := ⟨h.passed, h.same⟩

/-- The machine is changed first. -/
theorem changing {change : Machine → Machine} {f g : Unit → EStateM ε Machine β}
    (hchange : Passed S m (change m)) (h : Passes S look (f ()) (g ()) (change m)) :
    Passes S look (modify change >>= f) (modify change >>= g) m :=
  (of_passed (x := modify change) hchange).bind fun _ _ hr => by
    cases hr
    exact h

/-- The observer is let in. -/
theorem looked {x y : MachineM α} (h : Passes S look x y m) (r : Option ThreadId) :
    Passes S look x (look r >>= fun _ => y) m where
  passed := h.passed
  same hidle := (bind_of_ok (hidle r m .refl h.passed.acts)).trans (h.same hidle)

end Passes

section Heaps

variable {S : ThreadId → Prop} {m : Machine} {h : Heap}

theorem Retains.of_respects (hr : m.heap.Respects m.roots h) : m.Retains h := by
  intro t u hu hnull hlive
  have hmem : u.object ∈ m.roots := by
    have hroots := (within_iff_roots (S := fun r => r.isNull = true ∨ r ∈ m.roots) (fun _ h => .inl h)
      (m := m)).2 fun _ h => .inr h
    refine (hroots.1 t u hu).object.resolve_left ?_
    rw [hnull]
    exact Bool.false_ne_true
  obtain ⟨o, ho⟩ := Option.isSome_iff_exists.1 hlive
  have hkept := hr.kept u.object hmem o.monitor (by simp [Heap.monitor?, ho])
  obtain ⟨o', ho', -⟩ := Option.map_eq_some_iff.1 hkept
  simp [ho']

theorem Retains.of_objects_eq (ho : h.objects = m.heap.objects) : m.Retains h := fun t u _ _ hlive => by
  unfold Heap.get?
  rw [ho]
  exact hlive

theorem Passed.heap (hr : m.heap.Respects m.roots h) : Passed S m { m with heap := h } :=
  .aside rfl (.of_respects hr)

end Heaps

/-- As a relation, of a computation to what it is with an observer let in. -/
def Passing (look : Observer) (r : Option ThreadId) : Comparison := fun _ x y =>
  ∀ m, Rostered m → (∀ t ∈ r, (m.scheduler.get? t).isSome) → Passes (Hands r m) look x y m

section Passing

variable {look : Observer} {r : Option ThreadId} {α β : Type}

theorem Hands.later {m m' : Machine} (hn : m.scheduler.nextId ≤ m'.scheduler.nextId) {t : ThreadId}
    (h : Hands r m' t) : Hands r m t := h.imp_right (UInt32.le_trans hn)

theorem Passing.of_passed {x : MachineM α} (hx : ∀ m, Rostered m → (∀ t ∈ r, (m.scheduler.get? t).isSome) →
    Passed (Hands r m) m (final (x m))) : Passing look r x x := fun m hm hr => .of_passed (hx m hm hr)

/-- What the next step may do it may do from the start on. -/
theorem Passing.next {S : ThreadId → Prop} {x y : MachineM β} {m m' : Machine} (h : Passing look r x y)
    (hm : Rostered m) (hr : ∀ t ∈ r, (m.scheduler.get? t).isSome) (hpassed : Passed S m m')
    (hS : ∀ t, Hands r m t → S t) : Passes S look x y m' :=
  (h m' (hpassed.acts.rostered hm) fun t ht => hpassed.isSome (hr t ht)).mono fun t ht =>
    hS t (ht.later hpassed.acts.nextId_le)

theorem Passing.along {x y : MachineM α} {f g : α → MachineM β} (hx : Passing look r x y)
    (hf : ∀ a, Reaches x a → Passing look r (f a) (g a)) : Passing look r (x >>= f) (y >>= g) := by
  intro m hm hr
  refine (hx m hm hr).bind fun a m' hok => (hf a ⟨m, m', hok⟩).next hm hr ?_ fun _ ht => ht
  have hpassed := (hx m hm hr).passed
  rw [hok] at hpassed
  exact hpassed

theorem Passing.bind {x y : MachineM α} {f g : α → MachineM β} (hx : Passing look r x y)
    (hf : ∀ a, Passing look r (f a) (g a)) : Passing look r (x >>= f) (y >>= g) := hx.along fun a _ => hf a

theorem Passing.read {f g : Machine → MachineM β} (hf : ∀ m, Passing look r (f m) (g m)) :
    Passing look r (get >>= f) (get >>= g) := fun m hm hr => (hf m m hm hr).read

theorem Passing.pure (a : α) : Passing look r (Pure.pure a : MachineM α) (Pure.pure a) :=
  .of_passed fun m _ _ => .refl m

theorem Passing.throw (e : Trap) : Passing look r (throw e : MachineM α) (throw e) :=
  .of_passed fun m _ _ => .refl m

/-- Threads are left alone, and no object is taken from one. -/
theorem Passing.aside {x : MachineM α} (hx : ∀ m, (final (x m)).scheduler = m.scheduler)
    (hh : ∀ m : Machine, m.Retains (final (x m)).heap) : Passing look r x x :=
  .of_passed fun m _ _ => .aside (hx m) (hh m)

theorem Passing.updateHeap {f : Heap → Heap}
    (hf : ∀ h : Heap, ∀ o, (h.get? o).isSome → ((f h).get? o).isSome) :
    Passing look r (updateHeap f) (updateHeap f) :=
  .aside (fun _ => rfl) fun m _ u _ _ hlive => hf m.heap u.object hlive

theorem Passing.update (o : Ref) (f : Object → Object) :
    Passing look r (Machine.updateHeap fun h => h.update o f) (Machine.updateHeap fun h => h.update o f) :=
  .updateHeap fun h j hj => by
    rw [Heap.get?_update]
    split
    · simpa using hj
    · exact hj

theorem Passing.attempt {x y : MachineM α} (hx : Passing look r x y) :
    Passing look r (attempt x) (attempt y) := fun m hm hr => (hx m hm hr).attempt

/-- Something is done afterwards, whatever came of `x`. -/
theorem Passing.ensuring {x y : MachineM α} {after : Machine → Machine} (hx : Passing look r x y)
    (hafter : ∀ m, Rostered m → (∀ t ∈ r, (m.scheduler.get? t).isSome) → Passed (Hands r m) m (after m)) :
    Passing look r (ensuring x after) (ensuring y after) := by
  intro m hm hr
  have h := hx m hm hr
  refine h.ensuring ?_
  exact (hafter _ (h.passed.acts.rostered hm) fun t ht => h.passed.isSome (hr t ht)).mono fun t ht =>
    ht.later h.passed.acts.nextId_le

theorem Passing.orPopFrame {x y : MachineM α} (hx : Passing look r x y) :
    Passing look r (orPopFrame x) (orPopFrame y) := by
  intro m hm hr
  refine (hx m hm hr).after ?_ fun heq => ?_
  · unfold Machine.orPopFrame
    cases x m with
    | ok a m' => exact .refl m'
    | error e m' => exact .aside rfl (.of_objects_eq rfl)
  · unfold Machine.orPopFrame
    rw [heq]

theorem Passing.pinning (rs : List Ref) {x y : MachineM α} (hx : Passing look r x y) :
    Passing look r (pinning rs x) (pinning rs y) := by
  refine Passing.bind (.aside (fun _ => rfl) fun m => ?_) fun _ => hx.ensuring fun m _ _ => ?_
  · exact .of_objects_eq (m.heap.objects_pinAll rs).1
  · exact .aside rfl (.of_objects_eq (m.heap.objects_unpinAll rs).1)

/-- The running thread, or any other, does something to threads. -/
theorem Passing.onScheduler {f : Scheduler FrameStack → α × Scheduler FrameStack}
    (hf : ∀ s : Scheduler FrameStack, s.Deeds r (f s).2) : Passing look r (onScheduler f) (onScheduler f) :=
  .of_passed fun m _ hr => .deeds hr (fun _ ht => .inl ht) (hf m.scheduler)

theorem Passing.onSync {x : SyncM FrameStack α} (hx : Sync.Doing r x) :
    Passing look r (onSync x) (onSync x) := by
  refine .of_passed fun m _ hr => ?_
  have hends := hx ⟨m.heap, m.scheduler⟩
  have hdone : ∀ {s : Arena FrameStack}, Arena.Passes r ⟨m.heap, m.scheduler⟩ s →
      Passed (Hands r m) m { m with heap := s.heap, scheduler := s.scheduler } := by
    intro s h
    have haside : Passed (Hands r m) m { m with heap := s.heap } := .aside rfl fun _ _ _ _ hlive => h.heap.isSome hlive
    exact haside.trans (.deeds (m := { m with heap := s.heap }) hr (fun _ ht => .inl ht) h.deeds)
  unfold Machine.onSync
  cases hrun : x ⟨m.heap, m.scheduler⟩ with
  | ok a s => exact hdone (hends.of_ok hrun)
  | error e s => exact hdone (hends.of_error hrun)

theorem reserve_passed {S : ThreadId → Prop} (units : Nat) (m : Machine) :
    Passed S m (final (reserve units m)) ∧ (final (reserve units m)).scheduler = m.scheduler := by
  have hrespects := Heap.reserve_respects m.roots m.heap units
  unfold Machine.reserve
  cases hr : m.heap.reserve m.roots units with
  | mk result h =>
    rw [hr] at hrespects
    cases result with
    | ok u => exact ⟨.heap hrespects, rfl⟩
    | error e => exact ⟨.heap hrespects, rfl⟩

/-- An object that is made belongs to no thread yet. -/
theorem insertObject_vacant {m m' : Machine} {x : Object} {o : Ref} (hm : Rostered m)
    (h : insertObject x m = .ok o m') : m'.Vacant o := by
  unfold insertObject at h
  dsimp only at h
  split at h
  · cases h
  · next hfree =>
    cases h
    refine fun hnull => ⟨?_, fun t u hu heq => hfree ?_⟩
    · show ((m.heap.insert x).2.get? (m.heap.insert x).1).isSome
      rw [show (m.heap.insert x).2.get? (m.heap.insert x).1 = some x from Std.ExtTreeMap.getElem?_insert_self]
      rfl
    · have hlive := hm.objects t u hu (heq ▸ hnull)
      rw [heq] at hlive
      exact Std.ExtTreeMap.contains_eq_isSome_getElem?.trans hlive

theorem newInstance_vacant {m m' : Machine} {id : ClassId} {o : Ref} (hm : Rostered m)
    (h : newInstance id m = .ok o m') : m'.Vacant o ∧ m'.scheduler = m.scheduler := by
  obtain ⟨prepared, m₁, hprepare, h⟩ := bind_ok.1 h
  have hm₁ : Rostered m₁ ∧ m₁.scheduler = m.scheduler := by
    cases hprepare
    exact ⟨⟨hm.numbered, hm.keyed, hm.objects⟩, rfl⟩
  cases prepared with
  | none => cases h
  | some c =>
    obtain ⟨_, m₂, hreserve, hinsert⟩ := bind_ok.1 h
    obtain ⟨hpassed, hscheduler⟩ := reserve_passed (S := fun _ => True)
      (Object.instanceOf id ((c.layout.map (·.kinds)).getD [])).weight m₁
    rw [hreserve] at hpassed hscheduler
    refine ⟨insertObject_vacant (hpassed.acts.rostered hm₁.1) hinsert, ?_⟩
    unfold insertObject at hinsert
    dsimp only at hinsert
    split at hinsert
    · cases hinsert
    · cases hinsert
      exact hscheduler.trans hm₁.2

theorem Passing.reserve (units : Nat) : (Passing look r).Same (reserve units) :=
  .of_passed fun m _ _ => (reserve_passed units m).1

theorem Passing.insertObject {o : Object} (hidle : o.monitor = {}) :
    (Passing look r).Same (insertObject o) := by
  refine .of_passed fun m _ _ => ?_
  unfold Machine.insertObject
  dsimp only
  split
  · exact .refl m
  · next hfree => exact .heap (Heap.insert_respects _ _ hidle (Bool.not_eq_true _ ▸ hfree))

/-- The object of a thread that has none is made for it. -/
theorem Passing.currentThread {t : ThreadId} (hmake : ∀ id, Passing look (some t) (newInstance id) (newInstance id)) :
    Passing look (some t) (threadObject t) (threadObject t) := by
  intro m hm hr
  obtain ⟨u, hu⟩ := Option.isSome_iff_exists.1 (hr t rfl)
  unfold Machine.threadObject
  refine Passes.read ?_
  rw [hu]
  simp only [Option.map_some, Option.getD_some]
  split
  · exact .of_passed (.refl m)
  · next hnull =>
    refine Passes.read ((hmake m.core.thread m hm hr).bind fun o m' hok => .of_passed ?_)
    obtain ⟨hvacant, hscheduler⟩ := newInstance_vacant hm hok
    refine .of_act (.name (t := t) rfl (hscheduler ▸ hu) (by simpa using hnull) hvacant) (fun _ ht => .inl ht) ?_
    exact m'.scheduler.update_pointwise (R := fun u u' => u'.synthetic = u.synthetic) (fun _ => rfl) t fun _ => rfl

theorem Passing.onLinker (x : StateM Linker α) : (Passing look r).Same (onLinker x) :=
  .aside (fun _ => rfl) fun _ => .of_objects_eq rfl

theorem sequel_passing : Sequel (Passing look r) (Passing look r (α := β)) :=
  ⟨fun hx hf => hx.along hf, fun hf _ => .read hf, fun e _ => .throw e⟩

theorem Passing.newInstance (id : ClassId) : (Passing look r).Same (newInstance id) :=
  sequel_passing.newInstance (.onLinker _) .reserve fun _ => .insertObject rfl

theorem rules_passing {t : ThreadId} : Rules t (Passing look (some t)) where
  seq := sequel_passing
  pure := .pure
  onTop {_ x} _ := by
    refine .aside (fun m => ?_) fun m => .of_objects_eq ?_
    all_goals
      unfold Machine.onTop
      cases m.active with
      | nil => rfl
      | cons f rest =>
        dsimp only
        cases x f <;> rfl
  popFrame := .aside (fun _ => rfl) fun _ => .of_objects_eq rfl
  orPopFrame hx := hx.orPopFrame
  onLinker _ := .onLinker _
  reserve := .reserve
  newInstance := .newInstance
  insertObject _ _ _ := .insertObject rfl
  setField r slot v := .update r _
  intern _ hmake := sequel_passing.internString .pure hmake fun _ => .updateHeap fun _ _ h => h
  registerMirror id r := .updateHeap fun _ _ h => h
  pinning rs _ _ hx := Passing.pinning rs hx
  collectGarbage := .of_passed fun m _ _ => .heap (Heap.collect_respects _ _)
  currentThread hmake := .currentThread hmake
  interrupt target := .onScheduler fun s => .one (.interrupt s target)
  exit object := .onSync (Sync.exit_doing object)
  notify object := .onSync (Sync.notify_doing object)
  notifyAll object := .onSync (Sync.notifyAll_doing object)

theorem free_passing : Free (Passing look r) where
  reframe _ := .aside (fun _ => rfl) fun _ => .of_objects_eq rfl
  restatic _ := .aside (fun _ => rfl) fun _ => .of_objects_eq rfl
  throw e := .throw e

theorem writes_passing : Rules.Writes (Passing look r) :=
  ⟨fun _ _ _ => .insertObject rfl, fun array _ _ => .update array _, fun array _ _ => .update array _⟩

variable {t : ThreadId}

theorem attachCompanion_passing (object : Ref) (c : Companion) :
    (Passing look r).Same (attachCompanion object c) := by
  refine .read fun m => ?_
  split
  · split
    · exact (Passing.update object _).bind fun _ => .pure _
    · exact .pure _
  · exact .pure _

theorem callHost_passing (args : List Value) (native : HostNative) :
    (Passing look (some t)).Same (callHost t args native) := by
  have hr : Rules t (Passing look (some t)) := rules_passing
  have hraise : ∀ {α : Type} (className : String) (message : Option String),
      (Passing look (some t)).Same (raise className message : MachineM α) := fun className message =>
    hr.raise hr.seq className message
  cases native with
  | void => exact .pure _
  | const v => exact .pure _
  | echo index => exact .pure _
  | sum => exact .pure _
  | trace => exact Passing.bind (.aside (fun _ => rfl) fun _ => .of_objects_eq rfl) fun _ => .pure _
  | throw className message => exact hraise _ _
  | fatal detail => exact .throw _
  | string text => exact Passing.bind (hr.stringObject text) fun _ => .pure _
  | strlen =>
    refine .read fun m => ?_
    split <;> exact .pure _
  | new className =>
    refine .read fun m => ?_
    split
    · exact Passing.bind (hr.newInstance _) fun _ => .pure _
    · exact hraise _ _
  | attach companion => exact Passing.bind (attachCompanion_passing _ _) fun _ => .pure _
  | hold vetoes => exact Passing.bind (attachCompanion_passing _ _) fun _ => .pure _
  | bump =>
    refine .read fun m => ?_
    split
    · exact (Passing.update _ _).bind fun _ => .pure _
    · exact .pure _
  | peek => exact .read fun _ => .pure _
  | detach timeout => exact (Passing.onScheduler fun s => .one (.detach rfl s timeout)).bind fun _ => .pure _
  | yield => exact Passing.bind (.aside (fun _ => rfl) fun _ => .of_objects_eq rfl) fun _ => .pure _
  | request request =>
    refine Passing.bind (.of_passed fun m _ hr => ?_) fun _ => .pure _
    exact .deed hr (fun _ ht => .inl ht) (.turn rfl rfl (.refl _))
  | now => exact .read fun _ => .pure _
  | thread => exact .pure _
  | live => exact .read fun _ => .pure _
  | pin =>
    refine Passing.bind (.aside (fun _ => rfl) fun m => .of_objects_eq ?_) fun _ => .pure _
    exact (m.heap.objects_pinAll [_]).1

/-- The running thread changes the marks of its own interrupts. -/
theorem Passing.mark (interrupted interruptible : Thread FrameStack → Bool) :
    (Passing look (some t)).Same (updateThread t fun u =>
      { u with interrupted := interrupted u, interruptible := interruptible u }) :=
  .of_passed fun m _ hr => .deed hr (fun _ ht => .inl ht) (.mark rfl m.scheduler interrupted interruptible)

theorem course_passing :
    Course t (Passing look (some t)) (Passing look (some t)) (Passing look (some t) (α := Flow)) := by
  have hr : Rules t (Passing look (some t)) := rules_passing
  have henter : ∀ object : Ref, (Passing look (some t)).Same (onSync (Sync.enter t object)) := fun object =>
    .onSync (Sync.enter_doing rfl object)
  refine hr.course (hr.newPrimitiveArray writes_passing) (hr.newMultiArray writes_passing)
    (hr.arrayCopy writes_passing.element)
    (hr.callBytecode free_passing hr.seq (.pure _) (hr.enterMonitor henter)) ?_ henter
    (fun object timeout => .onSync (Sync.wait_doing rfl object timeout))
    (fun timeout => .onScheduler fun s => .one (.detach rfl s timeout))
    (fun target => .onScheduler fun s => .one (.join rfl s target)) (.mark (·.interrupted) fun _ => true)
    (.aside (fun _ => rfl) fun _ => .of_objects_eq rfl) (.aside (fun _ => rfl) fun _ => .of_objects_eq rfl) ?_
  · exact .onScheduler fun s => .one (.mark rfl s (fun _ => false) (·.interruptible))
  · intro args id
    refine .read fun m => ?_
    cases m.natives.get? id with
    | none => exact .throw _
    | some native => exact .pinning _ (callHost_passing args native)

end Passing

end ClassMachine.Machine
