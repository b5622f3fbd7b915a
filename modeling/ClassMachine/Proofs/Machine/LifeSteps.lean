import ClassMachine.Proofs.Machine.BalanceSteps
import ClassMachine.Proofs.Machine.Lives
import ClassMachine.Proofs.Machine.Upholding

/-!
What an instruction is in the life of its thread. The thread goes on; or its slice ends here, as it waits
to enter a monitor; or, not being marked as interrupted, it parks itself in a call. A mark that is found on
the way to such a call is turned into an exception, and is used up.
-/
namespace ClassMachine.Machine
open Stateful

variable {α β : Type} {m m' m'' n : Machine} {t : ThreadId}

section Deeds

variable {r : Option ThreadId} {s : Scheduler FrameStack}

theorem Going.free (h : Going t m) : ∃ u, Sync.Free m.arena t u := by
  obtain ⟨u, hu, halive, hpending, -⟩ := h.awake
  exact ⟨u, hu, hpending, halive⟩

theorem Going.known (h : Going t m) : ∀ j ∈ some t, (m.scheduler.get? j).isSome := fun j hj => by
  cases hj
  exact h.isSome

/-- Threads do something to each other that the order between monitors and threads does not see. -/
theorem Governed.does (h : Governed m) (hr : ∀ j ∈ r, (m.scheduler.get? j).isSome) (hd : m.scheduler.Deeds r s)
    (hheeds : m.scheduler.Pointwise Thread.Heeds s) (hrot : s.Rotates) :
    Governed { m with scheduler := s } ∧ Passive r m { m with scheduler := s } := by
  have hpassed : Passed (Hands r m) m { m with scheduler := s } := .deeds hr (fun _ hj => .inl hj) hd
  exact ⟨h.reschedule (hpassed.acts.mono fun _ _ => trivial) (h.claimed.heeds hheeds hrot),
    .of_acts hpassed.acts h.rostered hd.nextId⟩

/-- A thread changes its own marks. -/
theorem Governed.marks (h : Governed m) (ht : ∀ j ∈ some t, (m.scheduler.get? j).isSome)
    (interrupted interruptible : Thread FrameStack → Bool) :
    Governed { m with scheduler := m.scheduler.update t fun u =>
      { u with interrupted := interrupted u, interruptible := interruptible u } } ∧
    Passive (some t) m { m with scheduler := m.scheduler.update t fun u =>
      { u with interrupted := interrupted u, interruptible := interruptible u } } :=
  h.does ht (.one (.mark rfl m.scheduler interrupted interruptible))
    (m.scheduler.update_pointwise Thread.Heeds.refl t fun _ => ⟨rfl, rfl, fun _ hs => hs⟩)
    (Scheduler.update_rotates h.claimed.rotates t fun _ => rfl)

/-- A thread that waits for no monitor may leave the rotation. -/
theorem detach_heeds {u : Thread FrameStack} (hu : s.get? t = some u) (hpending : u.pending = none)
    (timeout : Timeout) : s.Pointwise Thread.Heeds (s.detach t timeout).2 := by
  refine ⟨Scheduler.nextId_detach s t timeout, fun j => ?_⟩
  rw [Scheduler.get?_detach]
  split
  · next hj =>
    subst hj
    rw [hu, Option.map_some]
    refine .some ?_
    split
    · next halive =>
      refine ⟨rfl, ?_, fun hp => absurd hpending hp⟩
      rw [halive]
      cases timeout <;> rfl
    · exact .refl u
  · cases s.get? j with
    | none => exact .none
    | some v => exact .some (.refl v)

theorem detach_eq {u : Thread FrameStack} (hu : s.get? t = some u) (halive : u.isAlive = true) (timeout : Timeout) :
    (s.detach t timeout).1 = true ∧
      (s.detach t timeout).2.get? t = some { u with state := Scheduler.detachedState s.now timeout } := by
  refine ⟨?_, ?_⟩
  · unfold Scheduler.detach
    rw [hu]
    simp [halive]
  · rw [Scheduler.get?_detach, if_pos rfl, hu, Option.map_some, if_pos halive]

theorem isDetached_detachedState (u : Thread FrameStack) (now : UInt64) (timeout : Timeout) :
    ({ u with state := Scheduler.detachedState now timeout } : Thread FrameStack).isDetached = true := by
  cases timeout <;> rfl

end Deeds

section Rules

/-- Another thread, or the thread itself, is interrupted. -/
theorem telling_interrupt (target : ThreadId) : (Telling t).Same (onScheduler (·.interrupt target)) := by
  intro m hm
  obtain ⟨hg, hp⟩ := hm.toGoverned.does (r := none) (by simp) (.one (.interrupt m.scheduler target))
    ((m.scheduler.interrupt_wakes target).mono fun _ _ => Thread.Woken.heeds)
    (Scheduler.interrupt_rotates hm.claimed.rotates target)
  exact hm.passive hg hp

theorem Governed.reserves (h : Governed m) (units : Nat) :
    Governed (final (reserve units m)) ∧ (final (reserve units m)).scheduler = m.scheduler := by
  have hheap := Heap.reserve_respects m.roots m.heap units
  unfold reserve
  cases hr : m.heap.reserve m.roots units with
  | mk result heap =>
    rw [hr] at hheap
    cases result with
    | ok u => exact ⟨h.heap hheap, rfl⟩
    | error e => exact ⟨h.heap hheap, rfl⟩

theorem Governed.inserts (h : Governed m) {o : Object} (ho : o.monitor = {}) :
    Governed (final (insertObject o m)) ∧ (final (insertObject o m)).scheduler = m.scheduler := by
  unfold insertObject
  dsimp only
  split
  · exact ⟨h, rfl⟩
  · next hfree => exact ⟨h.heap (Heap.insert_respects m.roots m.heap ho (by simpa using hfree)), rfl⟩

theorem telling_updateObject (r : Ref) {f : Object → Object} (hf : ∀ o, (f o).monitor = o.monitor) :
    (Telling t).Same (updateHeap fun h => h.update r f) :=
  telling_updateHeap fun roots h => Heap.update_respects roots h r hf

/-- The object of a thread that has none is made for it. -/
theorem telling_currentThread (hmake : ∀ id : ClassId, (Telling t).Same (newInstance id)) :
    (Telling t).Same (threadObject t) := by
  intro m hm
  unfold threadObject
  rw [bind_get]
  obtain ⟨u, hu, -⟩ := hm.awake
  rw [hu]
  simp only [Option.map_some, Option.getD_some]
  split
  · exact .refl hm
  · next hnull =>
    rw [bind_get]
    have hgoes := hmake m.core.thread m hm
    cases hr : newInstance m.core.thread m with
    | error e m₁ =>
      rw [hr] at hgoes
      rw [bind_of_error hr]
      exact hgoes
    | ok o m₁ =>
      rw [hr] at hgoes
      rw [bind_of_ok hr]
      obtain ⟨hvacant, hs⟩ := newInstance_vacant hm.rostered hr
      have hm₁ : Going t m₁ := hgoes.going
      have hname : Act (some t) m₁ { m₁ with
          scheduler := m₁.scheduler.update t fun u => { u with object := o } } :=
        .name rfl (hs ▸ hu) (by simpa using hnull) hvacant
      have hself : (m₁.scheduler.update t fun u => { u with object := o }).get? t = some { u with object := o } := by
        rw [Scheduler.get?_update, if_pos rfl, hs, hu]
        rfl
      obtain ⟨v, hv, halive, hpending, hmark⟩ := hm₁.awake
      cases (hs ▸ hu : m₁.scheduler.get? t = some u).symm.trans hv
      refine hgoes.trans (Going.goes ⟨?_, _, hself, halive, hpending, hmark⟩ ?_ ?_)
      · refine hm₁.toGoverned.reschedule (.one (r := some t) hname fun _ _ => trivial) ?_
        exact hm₁.claimed.heeds (m₁.scheduler.update_pointwise Thread.Heeds.refl t fun _ => ⟨rfl, rfl, fun _ hs => hs⟩)
          (Scheduler.update_rotates hm₁.claimed.rotates t fun _ => rfl)
      · exact .of_acts (.one hname fun _ hj => .inl hj) hm₁.rostered rfl
      · rintro ⟨w, hw, hflag⟩
        cases hv.symm.trans hw
        exact ⟨_, hself, hflag⟩

theorem telling_orPopFrame {x y : MachineM α} (h : Telling t x y) : Telling t (orPopFrame x) (orPopFrame y) := by
  refine h.after fun m hm => ?_
  unfold orPopFrame
  cases hx : x m with
  | ok a m' =>
    rw [hx] at hm
    exact .refl hm
  | error e m' =>
    rw [hx] at hm
    exact hm.congr rfl rfl rfl

theorem telling_onLinker {x : StateM Linker α} : (Telling t).Same (onLinker x) :=
  telling_congr (fun _ => rfl) (fun _ => rfl) fun _ => rfl

theorem telling_reserve (units : Nat) : (Telling t).Same (reserve units) := fun _ hm =>
  hm.aside (hm.reserves units).1 (hm.reserves units).2

theorem telling_insertObject {o : Object} (ho : o.monitor = {}) : (Telling t).Same (insertObject o) := fun _ hm =>
  hm.aside (hm.inserts ho).1 (hm.inserts ho).2

theorem rules_telling : Rules t (Telling t) where
  seq := sequel_telling
  pure := telling_pure
  onTop {_ x} _ := by
    refine telling_congr (fun m => ?_) (fun m => ?_) fun m => ?_
    all_goals
      unfold Machine.onTop
      cases m.active with
      | nil => rfl
      | cons f rest =>
        dsimp only
        cases x f <;> rfl
  popFrame := telling_congr (fun _ => rfl) (fun _ => rfl) fun _ => rfl
  orPopFrame := telling_orPopFrame
  onLinker _ := telling_onLinker
  reserve := telling_reserve
  newInstance _ := sequel_telling.newInstance telling_onLinker telling_reserve fun _ => telling_insertObject rfl
  insertObject _ _ _ := telling_insertObject rfl
  setField r _ _ := telling_updateObject r fun _ => rfl
  intern _ hmake := sequel_telling.internString telling_pure hmake fun _ =>
    telling_updateHeap fun roots _ => Heap.respects_of_objects_eq roots rfl rfl
  registerMirror _ _ := telling_updateHeap fun roots _ => Heap.respects_of_objects_eq roots rfl rfl
  pinning rs x y hx := by
    have hpins : (Telling t).Same (updateHeap (·.pinAll rs)) := telling_updateHeap fun roots h =>
      Heap.respects_of_objects_eq roots (h.objects_pinAll rs).1 (h.objects_pinAll rs).2
    exact hpins.bind fun _ => hx.ensuring fun n hn =>
      hn.heap (Heap.respects_of_objects_eq n.roots (n.heap.objects_unpinAll rs).1 (n.heap.objects_unpinAll rs).2)
  collectGarbage m hm := hm.heap (Heap.collect_respects m.roots m.heap)
  currentThread := telling_currentThread
  interrupt := telling_interrupt
  exit object := telling_onSync (Sync.exit_doing object) fun m hm => by
    obtain ⟨u, hu⟩ := hm.free
    exact Sync.exit_ends hm.claimed hm.addressed hu object
  notify object := telling_onSync (Sync.notify_doing object) fun m hm => by
    obtain ⟨u, hu⟩ := hm.free
    exact Sync.notify_ends hm.claimed hm.addressed hu object
  notifyAll object := telling_onSync (Sync.notifyAll_doing object) fun m hm => by
    obtain ⟨u, hu⟩ := hm.free
    exact Sync.notifyAll_ends hm.claimed hm.addressed hu object

theorem free_telling : Free (Telling t) where
  reframe _ := telling_congr (fun _ => rfl) (fun _ => rfl) fun _ => rfl
  restatic _ := telling_congr (fun _ => rfl) (fun _ => rfl) fun _ => rfl
  throw _ _ hm := .refl hm

theorem writes_telling : Rules.Writes (Telling t) where
  array _ _ _ := telling_insertObject rfl
  element array index v := telling_updateObject array fun o => by
    cases o.elements? with
    | some pair => exact setElement_monitor _ _ o
    | none => rfl
  fill array index child := telling_updateObject array (setElement_monitor index _)

end Rules

section Marks

/-- To raise an exception does nothing to threads. -/
theorem raise_scheduler (ha : m.heap.Addressed) (className : String) (message : Option String) :
    Ends (raise (α := α) className message m) (fun _ _ => False) fun _ m' => m'.scheduler = m.scheduler :=
  (raise_intact ha.next className message).mono (fun _ _ h => h) fun _ _ h => by rw [h.rest]

theorem Going.raises (h : Going t m) (className : String) (message : Option String) :
    Ends (raise (α := α) className message m) (fun _ _ => False)
      fun _ m' => Goes t m m' ∧ m'.scheduler = m.scheduler := by
  have htells := rules_telling.raise (β := α) sequel_telling className message m h
  have hends := raise_scheduler (α := α) h.addressed className message
  cases hr : raise (α := α) className message m with
  | ok a m' => exact hends.of_ok hr
  | error e m' =>
    rw [hr] at htells
    exact ⟨htells, hends.of_error hr⟩

theorem Going.clears (h : Going t m) :
    Going t { m with scheduler := (m.scheduler.takeInterrupt t).2 } ∧
      Passive (some t) m { m with scheduler := (m.scheduler.takeInterrupt t).2 } ∧
      ¬Flagged t { m with scheduler := (m.scheduler.takeInterrupt t).2 } := by
  obtain ⟨hg, hp⟩ := h.toGoverned.marks h.known (fun _ => false) (·.interruptible)
  obtain ⟨u, hu, halive, hpending, hmark⟩ := h.awake
  have hself : (m.scheduler.takeInterrupt t).2.get? t = some { u with interrupted := false } := by
    show (m.scheduler.update t _).get? t = _
    rw [Scheduler.get?_update, if_pos rfl, hu]
    rfl
  refine ⟨⟨hg, _, hself, halive, hpending, hmark⟩, hp, ?_⟩
  rintro ⟨v, hv, hflag⟩
  cases hself.symm.trans hv
  cases hflag

/-- What the check for interrupts finds. -/
theorem takeInterrupt_eq {u : Thread FrameStack} (hu : m.scheduler.get? t = some u) :
    onScheduler (·.takeInterrupt t) m =
      .ok u.interrupted { m with scheduler := (m.scheduler.takeInterrupt t).2 } := by
  have htaken : (m.scheduler.takeInterrupt t).1 = u.interrupted := by
    unfold Scheduler.takeInterrupt
    rw [hu]
    rfl
  rw [← htaken]
  rfl

theorem checkInterrupt_clear (h : Going t m) (hclear : ¬Flagged t m) :
    checkInterrupt t m = .ok () { m with scheduler := (m.scheduler.takeInterrupt t).2 } := by
  obtain ⟨u, hu, -⟩ := h.awake
  have hfalse : u.interrupted = false := by
    cases hi : u.interrupted with
    | false => rfl
    | true => exact absurd ⟨u, hu, hi⟩ hclear
  unfold checkInterrupt
  rw [bind_of_ok (takeInterrupt_eq hu), hfalse]
  rfl

theorem checkInterrupt_flagged (hflag : Flagged t m) : checkInterrupt t m =
    raise CoreName.interrupted none { m with scheduler := (m.scheduler.takeInterrupt t).2 } := by
  obtain ⟨u, hu, hi⟩ := hflag
  unfold checkInterrupt
  rw [bind_of_ok (takeInterrupt_eq hu), hi]
  rfl

/-- A thread has gone on, and then found itself marked when it was about to park itself. That is the trap. -/
structure Checked (t : ThreadId) (m : Machine) (e : Trap) (m' : Machine) : Prop extends Going t m' where
  checked : ∃ n, Goes t m n ∧ Flagged t n ∧ checkInterrupt t n = .error e m'
  clear : ¬Flagged t m'
  others : ∀ j, j ≠ t → LivesOn j m m'

theorem Goes.checked {e : Trap} (h : Goes t m n) (h' : Checked t n e m') : Checked t m e m' := by
  obtain ⟨hgoing, ⟨n', hgoes, hcheck⟩, hclear, hothers⟩ := h'
  exact ⟨hgoing, ⟨n', h.trans hgoes, hcheck⟩, hclear, fun j hj => (h.others j hj).trans (hothers j hj)⟩

/-- A thread that is not marked goes on past the check, and is not marked there. -/
theorem checkInterrupt_ends (h : Going t m) :
    Ends (checkInterrupt t m) (fun _ m' => Goes t m m' ∧ ¬Flagged t m') (Checked t m) := by
  obtain ⟨hgoing, hothers, hclear⟩ := h.clears
  by_cases hflag : Flagged t m
  · have hraises := hgoing.raises (α := Unit) CoreName.interrupted none
    have heq := checkInterrupt_flagged hflag
    rw [← heq] at hraises
    cases hrun : checkInterrupt t m with
    | ok a m' => exact (hraises.of_ok hrun).elim
    | error e m' =>
      obtain ⟨hgoes, hs⟩ := hraises.of_error hrun
      refine ⟨hgoes.going, ⟨m, .refl h, hflag, hrun⟩, ?_, (hothers.trans (.of_scheduler_eq hs)).others⟩
      unfold Flagged at hclear ⊢
      rwa [hs]
  · rw [checkInterrupt_clear h hflag]
    exact ⟨hgoing.goes hothers fun hf => absurd hf hflag, hclear⟩

end Marks

section Parking

/-- A thread has gone on, and then has parked itself. -/
structure Settles (t : ThreadId) (m m' : Machine) : Prop extends Governed m' where
  clear : ¬Flagged t m
  settles : ∃ n, ¬Flagged t n ∧ ParkedFrom t n m'
  others : ∀ j, j ≠ t → LivesOn j m m'

theorem Goes.settles (h : Goes t m n) (h' : Settles t n m') : Settles t m m' :=
  ⟨h'.toGoverned, mt h.flag h'.clear, h'.settles, fun j hj => (h.others j hj).trans (h'.others j hj)⟩

/-- How a native method fails: its thread has gone on, or has found itself marked. -/
def Stumbles (t : ThreadId) (m : Machine) (e : Trap) (m' : Machine) : Prop := Goes t m m' ∨ Checked t m e m'

theorem Goes.stumbles {e : Trap} (h : Goes t m n) (h' : Stumbles t n e m') : Stumbles t m e m' := h'.imp h.trans h.checked

/-- What comes of a native method: its thread has gone on, or is parked. -/
def Natively (t : ThreadId) : Comparison := fun _ x _ =>
  ∀ m, Going t m → Ends (x m) (fun _ m' => Goes t m m' ∨ Settles t m m') (Stumbles t m)

/-- What begins with going on. -/
theorem Telling.bind_ends {x : MachineM α} {f : α → MachineM β} {Q : β → Machine → Prop} {E : Trap → Machine → Prop}
    (hx : (Telling t).Same x) (hm : Going t m) (herror : ∀ e m', Goes t m m' → E e m')
    (hf : ∀ a m', Reaches x a → Goes t m m' → Ends (f a m') Q E) : Ends ((x >>= f) m) Q E := by
  have hgoes := hx m hm
  cases hr : x m with
  | error e m' =>
    rw [hr] at hgoes
    rw [bind_of_error hr]
    exact herror e m' hgoes
  | ok a m' =>
    rw [hr] at hgoes
    rw [bind_of_ok hr]
    exact hf a m' ⟨m, m', hr⟩ hgoes

theorem Telling.natively {x y : MachineM α} (h : Telling t x y) : Natively t x y := by
  intro m hm
  have hgoes := h m hm
  cases hr : x m with
  | ok a m' =>
    rw [hr] at hgoes
    exact .inl hgoes
  | error e m' =>
    rw [hr] at hgoes
    exact .inl hgoes

theorem sequel_natively : Sequel (Telling t) (Natively t (α := β)) where
  along hx hf _ hm := Telling.bind_ends hx hm (fun _ _ h => .inl h) fun a m' ha hgoes =>
    (hf a ha m' hgoes.going).mono (fun _ _ h => h.imp hgoes.trans hgoes.settles) fun _ _ h => hgoes.stumbles h
  read hf _ m hm := hf m m hm
  throw _ _ _ hm := .inl (.refl hm)

/-- A thread that is out of the rotation lets interrupts reach it. -/
theorem setInterruptible_settles {m₁ : Machine} {u : Thread FrameStack} (hclear : ¬Flagged t m)
    (hg : Governed m₁) (hothers : Passive (some t) m m₁) (hactive : m₁.active = m.active)
    (hu : m₁.scheduler.get? t = some u) (hdetached : u.isDetached = true) (hmark : u.interrupted = false)
    (howns : ∀ p, u.pending = some p → m.arena.Owns t p)
    (hparking : ∀ m', setInterruptible t m₁ = .ok () m' → Parking t m m') :
    Ends (setInterruptible t m₁) (fun _ m' => Settles t m m') fun _ _ => False := by
  obtain ⟨hg', hp'⟩ := hg.marks (t := t) (fun j hj => by cases hj; rw [hu]; rfl) (·.interrupted) fun _ => true
  refine ⟨hg', hclear, ⟨m, hclear, hparking _ rfl, hactive, { u with interruptible := true }, ?_, hdetached, rfl, hmark,
    howns⟩, (hothers.trans hp').others⟩
  show (m₁.scheduler.update t _).get? t = _
  rw [Scheduler.get?_update, if_pos rfl, hu]
  rfl

/-- After the check for interrupts a thread is not marked. -/
theorem natively_checked {x : MachineM Unit}
    (hx : ∀ m, Going t m → ¬Flagged t m → Ends (x m) (fun _ m' => Goes t m m' ∨ Settles t m m') (Stumbles t m)) :
    (Natively t).Same (checkInterrupt t >>= fun _ => x) := by
  intro m hm
  refine ((checkInterrupt_ends hm).mono (fun _ _ h => h) fun _ _ h => .inr h).bind fun _ m₁ ⟨hgoes, hclear⟩ => ?_
  exact (hx m₁ hgoes.going hclear).mono (fun _ _ h => h.imp hgoes.trans hgoes.settles) fun _ _ h => hgoes.stumbles h

theorem not_flagged_iff {u : Thread FrameStack} (hu : m.scheduler.get? t = some u) :
    ¬Flagged t m ↔ u.interrupted = false := by
  rw [← Bool.not_eq_true]
  refine not_congr ⟨fun ⟨v, hv, hflag⟩ => ?_, fun hflag => ⟨u, hu, hflag⟩⟩
  cases hu.symm.trans hv
  exact hflag

theorem sleeps_natively (timeout : Timeout) : (Natively t).Same (checkInterrupt t >>= fun _ =>
    onScheduler (·.detach t timeout) >>= fun _ => setInterruptible t) := by
  refine natively_checked fun m hm hclear => ?_
  obtain ⟨u, hu, halive, hpending, hmark⟩ := hm.awake
  obtain ⟨hg, hothers⟩ := hm.toGoverned.does hm.known (.one (.detach rfl m.scheduler timeout))
    (detach_heeds hu hpending timeout) (Scheduler.detach_rotates hm.claimed.rotates t timeout)
  obtain ⟨-, hself⟩ := detach_eq hu halive timeout
  rw [bind_of_ok (show onScheduler (·.detach t timeout) m =
    .ok _ { m with scheduler := (m.scheduler.detach t timeout).2 } from rfl)]
  refine (setInterruptible_settles hclear hg hothers rfl hself (isDetached_detachedState ..)
    ((not_flagged_iff hu).1 hclear) (fun p hp => ?_) fun m' hr => .sleep timeout ?_).mono
    (fun _ _ h => .inr h) fun _ _ h => h.elim
  · cases hpending.symm.trans hp
  · rw [bind_of_ok (show onScheduler (·.detach t timeout) m =
      .ok _ { m with scheduler := (m.scheduler.detach t timeout).2 } from rfl)]
    exact hr

theorem joins_natively (target : ThreadId) : (Natively t).Same (checkInterrupt t >>= fun _ =>
    onScheduler (·.join t target) >>= fun joined => if joined then setInterruptible t else pure ⟨⟩) := by
  refine natively_checked fun m hm hclear => ?_
  obtain ⟨u, hu, halive, hpending, hmark⟩ := hm.awake
  have hdeeds : m.scheduler.Deeds (some t) (m.scheduler.join t target).2 := .one (.join rfl m.scheduler target)
  have hrun : onScheduler (·.join t target) m =
      .ok (m.scheduler.join t target).1 { m with scheduler := (m.scheduler.join t target).2 } := rfl
  rw [bind_of_ok hrun]
  have hjoined : (m.scheduler.join t target).1 = false ∧ (m.scheduler.join t target).2 = m.scheduler ∨
      (m.scheduler.join t target).1 = true ∧
      m.scheduler.Pointwise Thread.Heeds (m.scheduler.join t target).2 ∧ (m.scheduler.join t target).2.Rotates ∧
      (m.scheduler.join t target).2.get? t = some { u with state := .detached } := by
    unfold Scheduler.join
    split
    · split
      · next hjoins =>
        have hnoted : m.scheduler.Pointwise Thread.Heeds
            (m.scheduler.update target fun r => { r with joiners := r.joiners ++ [t] }) :=
          m.scheduler.update_pointwise Thread.Heeds.refl target fun _ => ⟨rfl, rfl, fun _ hs => hs⟩
        have hne : target ≠ t := of_decide_eq_true (Bool.and_eq_true_iff.1 hjoins).2
        have hself : (m.scheduler.update target fun r => { r with joiners := r.joiners ++ [t] }).get? t = some u := by
          rw [Scheduler.get?_update, if_neg hne, hu]
        obtain ⟨htrue, hafter⟩ := detach_eq hself halive .indefinite
        have hrotates : (m.scheduler.update target fun r => { r with joiners := r.joiners ++ [t] }).Rotates :=
          Scheduler.update_rotates hm.claimed.rotates target fun _ => rfl
        exact .inr ⟨htrue, Scheduler.Pointwise.trans (R := Thread.Heeds) (fun _ _ _ => Thread.Heeds.trans) hnoted
          (detach_heeds hself hpending .indefinite), Scheduler.detach_rotates hrotates t .indefinite, hafter⟩
      · exact .inl ⟨rfl, rfl⟩
    · exact .inl ⟨rfl, rfl⟩
  rcases hjoined with ⟨hfalse, hsame⟩ | ⟨htrue, hheeds, hrotates, hself⟩
  · rw [hfalse, hsame]
    exact .inl (.refl hm)
  · obtain ⟨hg, hothers⟩ := hm.toGoverned.does hm.known hdeeds hheeds hrotates
    rw [htrue]
    refine (setInterruptible_settles hclear hg hothers rfl hself rfl ((not_flagged_iff hu).1 hclear)
      (fun p hp => ?_) fun m' hr => .join target ?_).mono (fun _ _ h => .inr h) fun _ _ h => h.elim
    · cases hpending.symm.trans hp
    · rw [bind_of_ok hrun, htrue]
      exact hr

theorem waits_natively (object : Ref) (timeout : Timeout) : (Natively t).Same (checkInterrupt t >>= fun _ =>
    synchronize (Sync.wait t object timeout) >>= fun _ => setInterruptible t) := by
  refine natively_checked fun m hm hclear => ?_
  obtain ⟨u, hu⟩ := hm.free
  have hends := onSync_ends_governed hm.toGoverned hm.known (Sync.wait_doing rfl object timeout)
    (Sync.wait_ends hm.claimed hm.addressed hu object timeout)
  unfold synchronize
  cases hrun : onSync (Sync.wait t object timeout) m with
  | error e m' => exact (hends.of_error hrun).elim
  | ok result m₁ =>
    have hresult := hends.of_ok hrun
    have hthen : ∀ x : Except SyncError Unit → MachineM Unit,
        ((onSync (Sync.wait t object timeout) >>= x) >>= fun _ => setInterruptible t) m =
          (x result >>= fun _ => setInterruptible t) m₁ := fun x => by
      rw [bind_assoc, bind_of_ok hrun]
    rw [hthen]
    cases result with
    | error e =>
      cases hresult
      refine Ends.bind (Q := fun _ _ => False) ?_ fun _ _ h => h.elim
      cases e with
      | monitor e => exact (hm.raises _ _).mono (fun _ _ h => h) fun _ _ h => .inl h.1
      | fatal e => exact .inl (.refl hm)
    | ok v =>
      obtain ⟨⟨hg, hothers, hactive⟩, mo, hmo, hown, hself⟩ := hresult
      refine (setInterruptible_settles hclear hg hothers hactive hself ?_
        ((not_flagged_iff hu.record).1 hclear) (fun p hp => ?_) fun m' hr => .wait object timeout ?_).mono
        (fun _ _ h => .inr h) fun _ _ h => h.elim
      · exact isDetached_detachedState { u with pending := some ⟨object, ⟨t, mo.count⟩, .wait⟩ } _ timeout
      · cases hp
        exact ⟨mo, hmo, hown, rfl⟩
      · unfold synchronize
        rw [hthen]
        exact hr

end Parking

section Flows

/-- A thread has gone on, and then has stopped where no interrupt reaches it; a mark on it stays. -/
structure Stalls (t : ThreadId) (m m' : Machine) : Prop extends Governed m' where
  record : ∃ u, m'.scheduler.get? t = some u ∧ u.isAlive = true ∧ u.interruptible = false
  flag : Flagged t m → Flagged t m'
  others : ∀ j, j ≠ t → LivesOn j m m'

/-- A thread has gone on, and then has parked itself, and its call has got its result. -/
structure Lodges (t : ThreadId) (m m' : Machine) : Prop extends Governed m' where
  clear : ¬Flagged t m
  lodged : ∃ n n' result, ¬Flagged t n ∧ ParkedFrom t n n' ∧
    m' = { n' with active := returned result n.active, yieldRequested := false }
  others : ∀ j, j ≠ t → LivesOn j m m'

/-- A thread has stopped. -/
def Halts (t : ThreadId) (m m' : Machine) : Prop := Stalls t m m' ∨ Lodges t m m'

theorem Goes.stalls (h : Goes t m m') : Stalls t m m' := by
  obtain ⟨u, hu, halive, -, hmark⟩ := h.going.awake
  exact ⟨h.going.toGoverned, ⟨u, hu, halive, hmark⟩, h.flag, h.others⟩

theorem Goes.thenStalls (h : Goes t m n) (h' : Stalls t n m') : Stalls t m m' :=
  ⟨h'.toGoverned, h'.record, fun hf => h'.flag (h.flag hf), fun j hj => (h.others j hj).trans (h'.others j hj)⟩

theorem Goes.thenHalts (h : Goes t m n) (h' : Halts t n m') : Halts t m m' :=
  h'.imp h.thenStalls fun h' =>
    ⟨h'.toGoverned, mt h.flag h'.clear, h'.lodged, fun j hj => (h.others j hj).trans (h'.others j hj)⟩

theorem Halts.others (h : Halts t m m') : ∀ j, j ≠ t → LivesOn j m m' :=
  h.elim (·.others) (·.others)

/-- Frames are of no account to who stops. -/
theorem Stalls.reframe (h : Stalls t m m') (frames : FrameStack) : Stalls t m { m' with active := frames } :=
  ⟨h.toGoverned.congr rfl rfl rfl, h.record, h.flag, fun j hj =>
    (h.others j hj).trans ((Passive.of_scheduler_eq rfl : Passive none m' { m' with active := frames }).life (by simp))⟩

/-- Where an instruction leaves its thread. -/
def Flow.Leads (t : ThreadId) (m : Machine) : Flow → Machine → Prop
  | .next, m' => Goes t m m'
  | .pause, m' => Halts t m m'
  | .finished _, m' => Halts t m m'

theorem Goes.leads (h : Goes t m m') (flow : Flow) : Flow.Leads t m flow m' := by
  cases flow with
  | next => exact h
  | pause => exact .inl h.stalls
  | finished v => exact .inl h.stalls

theorem Goes.thenLeads (h : Goes t m n) {flow : Flow} (h' : Flow.Leads t n flow m') : Flow.Leads t m flow m' := by
  cases flow with
  | next => exact h.trans h'
  | pause => exact h.thenHalts h'
  | finished v => exact h.thenHalts h'

/-- Where an instruction that fails leaves its thread. One that fails for good may have stopped it. -/
def Trap.Leads (t : ThreadId) (m : Machine) (e : Trap) (m' : Machine) : Prop :=
  Stumbles t m e m' ∨ (∃ error, e = .fatal error) ∧ Stalls t m m'

/-- However an instruction ends, its thread has gone on, or has stopped. -/
def Onward (t : ThreadId) (x _y : MachineM Flow) : Prop :=
  ∀ m, Going t m → Ends (x m) (Flow.Leads t m) (Trap.Leads t m)

theorem sequel_onward : Sequel (Telling t) (Onward t) where
  along hx hf _ hm := Telling.bind_ends hx hm (fun _ _ h => .inl (.inl h)) fun a m' ha hgoes =>
    (hf a ha m' hgoes.going).mono (fun _ _ h => hgoes.thenLeads h)
      fun _ _ h => h.imp hgoes.stumbles (And.imp_right hgoes.thenStalls)
  read hf _ m hm := hf m m hm
  throw _ _ _ hm := .inl (.inl (.refl hm))

/-- A native method hands its result over, whether its thread is parked or not. -/
theorem answers_onward {x y : MachineM (Option Value)} (hx : Natively t x y) :
    Onward t (x >>= finishNative t) (y >>= finishNative t) := by
  intro m hm
  refine ((hx m hm).mono (fun _ _ h => h) fun _ _ h => .inl h).bind fun result m₁ h => ?_
  obtain ⟨flow, hdeliver, hflow⟩ := deliver_eq result { m₁ with yieldRequested := false }
  have hpause : takePause t m₁ = .ok (m₁.yieldRequested || ((m₁.scheduler.get? t).map Thread.isDetached).getD true)
    { m₁ with yieldRequested := false } := rfl
  obtain ⟨ended, hfinish, hstops⟩ : ∃ ended, finishNative t result m₁ =
        .ok ended { m₁ with active := returned result m₁.active, yieldRequested := false } ∧
      ((m₁.yieldRequested || ((m₁.scheduler.get? t).map Thread.isDetached).getD true) = true → ended ≠ .next) := by
    unfold finishNative
    rw [bind_of_ok hpause, bind_of_ok hdeliver]
    rcases hflow with rfl | rfl
    · exact ⟨_, rfl, fun hpaused => by simp [hpaused]⟩
    · exact ⟨_, rfl, fun _ => by simp⟩
  rw [hfinish]
  rcases h with hgoes | hsettles
  · have hdone : Goes t m { m₁ with active := returned result m₁.active, yieldRequested := false } :=
      hgoes.trans (hgoes.going.congr rfl rfl rfl)
    exact hdone.leads _
  · obtain ⟨hg, hunmarked, ⟨n, hclear, hparked⟩, hothers⟩ := hsettles
    have haside : Passive none m₁ { m₁ with active := returned result m₁.active, yieldRequested := false } :=
      .of_scheduler_eq rfl
    have hhalts : Halts t m { m₁ with active := returned result m₁.active, yieldRequested := false } :=
      .inr ⟨hg.congr rfl rfl rfl, hunmarked, ⟨n, m₁, result, hclear, hparked, by rw [hparked.active]⟩,
        fun j hj => (hothers j hj).trans (haside.life (by simp))⟩
    obtain ⟨u, hu, hdetached, -⟩ := hparked.record
    have hpaused : (m₁.yieldRequested || ((m₁.scheduler.get? t).map Thread.isDetached).getD true) = true := by
      rw [hu, Option.map_some, Option.getD_some, hdetached, Bool.or_true]
    cases ended with
    | next => exact absurd rfl (hstops hpaused)
    | pause => exact hhalts
    | finished v => exact hhalts

/-- A thread enters a monitor, or stops to wait for it. -/
theorem enter_stops (hm : Going t m) (object : Ref) :
    Ends (onSync (Sync.enter t object) m) (fun result m' => match result with
      | .ok .acquired => Goes t m m'
      | .ok .blocked => Stalls t m m'
      | .error _ => m' = m) fun _ _ => False := by
  obtain ⟨u, hu⟩ := hm.free
  have hends := onSync_ends_governed hm.toGoverned hm.known (Sync.enter_doing rfl object)
    (Sync.enter_ends hm.claimed hm.addressed hu object)
  refine hends.mono (fun result m' h => ?_) fun _ _ h => h
  cases result with
  | error e => exact h
  | ok acquire =>
    obtain ⟨⟨hg, hothers, -⟩, ⟨rfl, hs⟩ | ⟨rfl, hself⟩⟩ := h
    · exact hm.aside hg hs
    · obtain ⟨v, hv, -, -, hmark⟩ := hm.awake
      cases hu.record.symm.trans hv
      refine ⟨hg, ⟨_, hself, rfl, hmark⟩, fun ⟨w, hw, hflag⟩ => ⟨_, hself, ?_⟩, hothers.others⟩
      cases hv.symm.trans hw
      exact hflag

theorem Going.raisesSync (h : Going t m) (e : SyncError) :
    Ends (raiseSync (α := α) e m) (fun _ _ => False) fun _ m' => Goes t m m' := by
  cases e with
  | monitor e => exact (h.raises _ _).mono (fun _ _ h => h) fun _ _ h => h.1
  | fatal e => exact .refl h

/-- Where an instruction that does not park its thread in a call leaves it. -/
def Flow.Stops (t : ThreadId) (m : Machine) : Flow → Machine → Prop
  | .next, m' => Goes t m m'
  | _, m' => Stalls t m m'

theorem Flow.Stops.stalls {flow : Flow} (h : Flow.Stops t m flow m') : Stalls t m m' := by
  cases flow with
  | next => exact Goes.stalls h
  | pause => exact h
  | finished v => exact h

theorem Flow.Stops.leads {flow : Flow} (h : Flow.Stops t m flow m') : Flow.Leads t m flow m' := by
  cases flow with
  | next => exact h
  | pause => exact .inl h
  | finished v => exact .inl h

theorem enters_stops (hm : Going t m) (object : Ref) :
    Ends ((synchronize (Sync.enter t object) >>= fun
      | .acquired => pure .next
      | .blocked => pure .pause) m) (Flow.Stops t m) (Trap.Leads t m) := by
  unfold synchronize
  rw [bind_assoc]
  refine ((enter_stops hm object).mono (fun _ _ h => h) fun _ _ h => h.elim).bind fun result m₁ h => ?_
  cases result with
  | error e =>
    cases h
    exact Ends.bind ((hm.raisesSync e).mono (fun _ _ h => h) fun _ _ h => .inl (.inl h)) fun _ _ h => h.elim
  | ok acquire =>
    cases acquire with
    | acquired => exact h
    | blocked => exact h

/-- The monitor of a frame is noted in it, and nothing else happens. -/
theorem markMonitor_congr (object : Ref) (m : Machine) :
    Ends (onTop (modify fun f : Frame => { f with monitor := some object }) m)
      (fun _ m' => ∃ frames, m' = { m with active := frames }) fun e m' => (∃ error, e = .fatal error) ∧ m' = m := by
  unfold onTop
  cases hactive : m.active with
  | nil => exact ⟨⟨_, rfl⟩, rfl⟩
  | cons f rest => exact ⟨_, rfl⟩

theorem enterMonitor_stops (hm : Going t m) (object : Ref) :
    Ends (enterMonitor t object m) (Flow.Stops t m) (Trap.Leads t m) := by
  unfold enterMonitor
  refine ((enter_stops hm object).mono (fun _ _ h => h) fun _ _ h => h.elim).bind fun result m₁ h => ?_
  cases result with
  | error e =>
    cases h
    have hpopped : Goes t m { m with active := m.active.tail } := hm.congr rfl rfl rfl
    exact (hpopped.going.raisesSync e).mono (fun _ _ h => h.elim) fun _ _ h => .inl (.inl (hpopped.trans h))
  | ok acquire =>
    cases acquire with
    | acquired =>
      refine ((markMonitor_congr object m₁).mono (fun _ _ h => h) fun _ _ hfails => ?_).bind fun _ m₂ h₂ => ?_
      · rw [hfails.2]
        exact .inl (.inl h)
      · obtain ⟨frames, rfl⟩ := h₂
        exact h.trans (h.going.congr rfl rfl rfl)
    | blocked =>
      refine ((markMonitor_congr object m₁).mono (fun _ _ h => h) fun _ _ hfails => ?_).bind fun _ m₂ h₂ => ?_
      · rw [hfails.2]
        exact .inr ⟨hfails.1, h⟩
      · obtain ⟨frames, rfl⟩ := h₂
        exact h.reframe frames

theorem course_telling : Course t (Telling t) (Natively t) (Onward t) where
  toRules := rules_telling
  newPrimitiveArray := rules_telling.newPrimitiveArray writes_telling
  newMultiArray := rules_telling.newMultiArray writes_telling
  arrayCopy := rules_telling.arrayCopy writes_telling.element
  callBytecode m args := rules_telling.callBytecode free_telling sequel_onward (fun _ hm => .refl hm)
    (fun object _ hm => (enterMonitor_stops hm object).mono (fun _ _ h => h.leads) fun _ _ h => h) m args
  native := sequel_natively
  quickly hx := hx.natively
  dropping b hx m hm := ((hx m hm).mono (fun _ _ h => h) fun _ _ h => h).bind fun _ _ h => h
  checks hx := fun m hm => ((checkInterrupt_ends hm).mono (fun _ _ h => h) fun _ _ h => .inr h).bind
    fun _ m' ⟨hgoes, _⟩ => (hx m' hgoes.going).mono (fun _ _ h => h.imp hgoes.trans hgoes.settles)
      fun _ _ h => hgoes.stumbles h
  waits := waits_natively
  sleeps := sleeps_natively
  joins := joins_natively
  yields := (telling_congr (fun _ => rfl) (fun _ => rfl) fun _ => rfl).natively
  host args id m hm := by
    unfold runHost
    rw [bind_get, hm.noHost id]
    exact .inl (.refl hm)
  flow := sequel_onward
  next _ hm := .refl hm
  finished v _ hm := .inl (Goes.refl hm).stalls
  answer := answers_onward
  enterMonitor object _ hm := (enterMonitor_stops hm object).mono (fun _ _ h => h.leads) fun _ _ h => h
  enters object _ hm := (enters_stops hm object).mono (fun _ _ h => h.leads) fun _ _ h => h

end Flows

end ClassMachine.Machine
