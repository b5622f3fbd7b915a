import ClassMachine.Proofs.Machine.BalanceExecution
import ClassMachine.Proofs.Machine.Nesting
import ClassMachine.Proofs.Machine.Watching

/-!
Slices in a balanced machine. Between any two instructions the monitors match the frames, so an observer
that stays silent as long as they do is never heard. A thread that takes up a slice first gets back the
monitor it waits for; one that comes to the end of its frames, or loses them all to an exception, is
left with no monitor.
-/
namespace ClassMachine

/-- How a thread stands when its slice has ended, its frames still out of its record. -/
def SliceEnd.Stops (t : ThreadId) (free : List ThreadId) : SliceEnd → Machine → Prop
  | .yielded, m => m.Poised (some t) free
  | .blocked, m => m.Poised (some t) free
  | .finished _, m => m.Poised (some t) (t :: free) ∧ m.active = []
  | .uncaught _, m => m.Poised (some t) (t :: free) ∧ m.active = []

/-- A thread with nothing pending and no frames left, as it is before it ends. -/
structure Machine.Spent (t : ThreadId) (free : List ThreadId) (m : Machine) : Prop
    extends Machine.Poised none (t :: free) m where
  frames : m.framesOf none t = []

/-- How a machine stands when a slice is over and the frames of its thread are in the record again. A
thread that has not ended has its record still. -/
def SliceEnd.Rests (t : ThreadId) (free : List ThreadId) : SliceEnd → Machine → Prop
  | .yielded, m => m.Poised none free ∧ ∃ r, m.scheduler.get? t = some r ∧ r.isAlive = true
  | .blocked, m => m.Poised none free ∧ ∃ r, m.scheduler.get? t = some r ∧ r.isAlive = true
  | .finished _, m => m.Spent t free
  | .uncaught _, m => m.Spent t free

/-- How a thread is left once its first method is entered and its frames are in its record. -/
def Flow.Enters (t : ThreadId) (free : List ThreadId) : Flow → Machine → Prop
  | .finished _, m => m.Spent t free
  | _, m => m.Poised none free

namespace Machine
open Stateful

/-- Monitors match frames. A thread owns a monitor as many times as it has frames that are left with
it. While it waits for a monitor its token keeps that number, whether or not it owns the monitor yet.
A thread without frames owns no monitor and waits for none, and one that has ended has no frames. -/
structure Matched (running : Option ThreadId) (m : Machine) : Prop where
  owned : ∀ t o, (∀ p, m.arena.pending? t = some p → p.object ≠ o) →
    m.arena.depth t o = levels (m.framesOf running t) o
  pending : ∀ t p, m.arena.pending? t = some p →
    p.token.reentrancy.toNat = levels (m.framesOf running t) p.object ∧
      ∀ n, m.heap.monitor? p.object = some n → n.owner = some t →
        n.count.toNat = levels (m.framesOf running t) p.object
  unowned : ∀ t, m.framesOf running t = [] → ∀ o n, m.heap.monitor? o = some n →
    n.owner ≠ some t ∧ ∀ token ∈ n.waiters ++ n.entrants, token.thread ≠ t
  ended : ∀ t, (∀ r, m.scheduler.get? t = some r → r.isAlive = false) → m.framesOf running t = []

section Matching

variable {running : Option ThreadId} {free : List ThreadId} {m : Machine} {t : ThreadId}

/-- A thread with nothing pending owns a monitor as often as its frames say. -/
theorem Balanced.depth_eq (h : Balanced running m) {o : Ref}
    (haway : ∀ p, m.arena.pending? t = some p → p.object ≠ o) :
    m.arena.depth t o = levels (m.framesOf running t) o := by
  rw [← Arena.stake_of_elsewhere haway]
  exact h.even t o

/-- The token of a thread that waits keeps the number, and a monitor already passed to it counts it. -/
theorem Balanced.pending_eq (h : Balanced running m) {p : PendingMonitor}
    (hp : m.arena.pending? t = some p) :
    p.token.reentrancy.toNat = levels (m.framesOf running t) p.object ∧
      ∀ n, m.heap.monitor? p.object = some n → n.owner = some t →
        n.count.toNat = levels (m.framesOf running t) p.object := by
  have hlevels := (Arena.stake_of_pending hp).symm.trans (h.even t p.object)
  refine ⟨hlevels, fun n hn howner => ?_⟩
  obtain ⟨r, hr, hpend⟩ := Option.bind_eq_some_iff.1 hp
  obtain ⟨hthread, _, n', hn', hstands⟩ := h.orderly.stands t r p hr hpend
  obtain rfl : n' = n := Option.some.inj (hn'.symm.trans hn)
  have habsent := (h.orderly.sound p.object n' hn).absent_owner howner
  cases hstands with
  | waiting _ hw => exact absurd hthread (habsent _ (List.mem_append_left _ hw))
  | queued hq => exact absurd hthread (habsent _ (List.mem_append_right _ hq))
  | handed _ hcount _ => rw [hcount, hlevels]

/-- Who stands in line for a monitor has frames to go back to. -/
theorem Balanced.levels_pos (h : Balanced running m) {o : Ref} {n : Monitor}
    (hn : m.heap.monitor? o = some n) {token : WaitToken} (htoken : token ∈ n.waiters ++ n.entrants) :
    0 < levels (m.framesOf running token.thread) o := by
  have hwaits : ∃ r reason, m.scheduler.get? token.thread = some r ∧ r.pending = some ⟨o, token, reason⟩ := by
    rcases List.mem_append.1 htoken with hw | hq
    · obtain ⟨r, hr, hp⟩ := h.orderly.waits o n hn token hw
      exact ⟨r, _, hr, hp⟩
    · obtain ⟨r, reason, hr, hp⟩ := h.orderly.queues o n hn token hq
      exact ⟨r, _, hr, hp⟩
  obtain ⟨r, reason, hr, hp⟩ := hwaits
  have hlevels := (h.pending_eq ((Arena.pending?_of_record (a := m.arena) hr).trans hp)).1
  have hdeep := (h.orderly.sound o n hn).deep token htoken
  rw [← hlevels]
  exact UInt32.lt_iff_toNat_lt.1 hdeep

/-- Who owns a monitor has frames that are left with it. -/
theorem Balanced.levels_pos_of_owner (h : Balanced running m) {o : Ref} {n : Monitor}
    (hn : m.heap.monitor? o = some n) (howner : n.owner = some t) :
    0 < levels (m.framesOf running t) o := by
  have hheld := UInt32.lt_iff_toNat_lt.1 ((h.orderly.sound o n hn).held t howner)
  by_cases hhere : ∃ p, m.arena.pending? t = some p ∧ p.object = o
  · obtain ⟨p, hp, rfl⟩ := hhere
    rw [← (h.pending_eq hp).2 n hn howner]
    exact hheld
  · rw [← h.depth_eq fun p hp ho => hhere ⟨p, hp, ho⟩, Arena.depth_of_monitor (a := m.arena) hn,
      Monitor.depth_of_owner howner]
    exact hheld

theorem Balanced.unowned (h : Balanced running m) (hframes : m.framesOf running t = []) {o : Ref}
    {n : Monitor} (hn : m.heap.monitor? o = some n) :
    n.owner ≠ some t ∧ ∀ token ∈ n.waiters ++ n.entrants, token.thread ≠ t := by
  constructor
  · intro howner
    have hpos := h.levels_pos_of_owner hn howner
    rw [hframes] at hpos
    exact Nat.lt_irrefl 0 hpos
  · rintro token htoken rfl
    have hpos := h.levels_pos hn htoken
    rw [hframes] at hpos
    exact Nat.lt_irrefl 0 hpos

theorem Poised.framesOf_ended (h : Poised running free m)
    (hdead : ∀ r, m.scheduler.get? t = some r → r.isAlive = false) : m.framesOf running t = [] := by
  cases hr : m.scheduler.get? t with
  | none => exact framesOf_missing (h.running_ne hr) hr
  | some r =>
    have hne : running ≠ some t := by
      rintro rfl
      obtain ⟨r', hr', halive, _⟩ := h.home
      rw [hdead r' hr'] at halive
      cases halive
    rw [framesOf_record hne hr]
    exact h.ended t r hr (hdead r hr)

theorem Poised.matched (h : Poised running free m) : m.Matched running where
  owned _ _ haway := h.depth_eq haway
  pending _ _ hp := h.pending_eq hp
  unowned _ hframes _ _ hn := h.toBalanced.unowned hframes hn
  ended _ hdead := h.framesOf_ended hdead

end Matching

/-- Stays silent as long as monitors match frames. -/
def Observer.Silent (look : Observer) : Prop :=
  ∀ running m, Matched running m → look running m = .ok () m

section Looking

variable {α : Type} {look : Observer} {running : Option ThreadId} {free : List ThreadId} {m : Machine}
  {x y : MachineM α} {Q : α → Machine → Prop} {E : Trap → Machine → Prop}

theorem Same.watch (h : Same x y m Q E) (hl : look.Silent) (hm : Poised running free m) :
    Same x (look running >>= fun _ => y) m Q E := by
  refine ⟨?_, h.ends⟩
  rw [bind_of_ok (hl running m hm.matched)]
  exact h.eq

end Looking

section Slices

variable {t : ThreadId} {free : List ThreadId} {m : Machine} {k l : Nested} {look : Observer}

theorem Poised.pauses (h : Poised (some t) free m) : (m.pausedEnd t).Stops t free m := by
  unfold pausedEnd
  split <;> exact h

/-- The frames of an exception are given up, and the thread goes on if one of them handles it. -/
theorem handled_same {trap : Trap} (hm : trap.Leaves (Poised (some t) (t :: free)) m) (hnot : t ∉ free)
    {x y : MachineM SliceEnd}
    (hgo : ∀ m', Poised (some t) (t :: free) m' →
      Same x y m' (SliceEnd.Stops t free) (Trap.Leaves fun _ => False)) :
    Same (handleTrap t trap >>= fun ended => match ended with
        | some ended => pure ended
        | none => x)
      (handleTrap t trap >>= fun ended => match ended with
        | some ended => pure ended
        | none => y) m (SliceEnd.Stops t free) (Trap.Leaves fun _ => False) := by
  refine (Same.of_ends (handleTrap_poised hm hnot)).bind fun ended m₁ ⟨h₁, hgone⟩ => ?_
  cases ended with
  | none => exact hgo m₁ h₁
  | some ended =>
    obtain ⟨⟨exception, rfl⟩, hactive⟩ := hgone ended rfl
    exact .of_ends ⟨h₁, hactive⟩

theorem execute_same (hk : k.Fair l) (hl : look.Silent) (hnot : t ∉ free) (budget : Nat)
    (hm : Poised (some t) (t :: free) m) :
    Same (execute k t budget) (Watched.execute look l t budget) m (SliceEnd.Stops t free)
      (Trap.Leaves fun _ => False) := by
  induction budget generalizing m with
  | zero => exact .of_ends hm.forget
  | succ budget ih =>
    unfold execute Watched.execute
    refine Same.watch ?_ hl hm
    refine (executeOne_proceed hk hnot m hm).attempt.bind fun result m₁ h₁ => ?_
    cases result with
    | ok flow =>
      cases flow with
      | next => exact ih h₁
      | pause => exact .of_ends (Poised.pauses h₁)
      | finished v => exact .of_ends h₁
    | error trap => exact handled_same h₁ hnot fun m' h' => ih h'

/-- A thread gets its monitor back, or stays parked for it. -/
theorem resume_poised (hm : Poised (some t) free m) (hnot : t ∉ free) :
    Ends (onSync (Sync.resume t) m)
      (fun result m' => ∃ outcome, result = .ok outcome ∧
        Poised (some t) (if outcome = .blocked then free else t :: free) m')
      (Trap.Leaves fun _ => False) := by
  obtain ⟨result, a', hrun, hcases⟩ := Sync.resume_turn hm.orderly.claimed t
  rw [onSync_of_ok hrun]
  refine ⟨result, rfl, ?_⟩
  obtain ⟨r, hr, halive, hstack⟩ := hm.home
  rcases hcases with ⟨rfl, rfl, hnone⟩ | ⟨r', p, n, n', s, hr', hp, hresult, hturn⟩
  · have hself : ∀ u ∈ t :: free, ∃ r, Sync.Free m.arena u r := by
      intro u hu
      rcases List.mem_cons.1 hu with rfl | hu
      · exact ⟨r, hr, hnone r hr, halive⟩
      · exact hm.free u hu
    exact ⟨hm.toBalanced, hself, hm.home⟩
  · have hobject : ∀ q, r'.pending = some q → q.object = p.object := by
      intro q hq
      rw [hp] at hq
      cases hq
      rfl
    refine hm.turn hr' hobject hturn ((Sync.resume_tame t m.arena).of_ok hrun)
      ((Sync.resume_firm t m.arena).of_ok hrun) (hm.levels_of_stake (Sync.resume_stake hm.orderly hrun))
      hm.bodies_active fun u hu => ?_
    have hother : u ∈ free → u ≠ t ∧ u ∈ free := fun hu => ⟨fun he => hnot (he ▸ hu), hu⟩
    split at hu
    · exact .inr (hother hu)
    · next hgo =>
      rcases List.mem_cons.1 hu with rfl | hu
      · exact .inl ⟨rfl, by simpa using hgo⟩
      · exact .inr (hother hu)

theorem resume_same (hk : k.Fair l) (hl : look.Silent) (hnot : t ∉ free) (budget : Nat)
    (hm : Poised (some t) free m) :
    Same (resume k t budget) (Watched.resume look l t budget) m (SliceEnd.Stops t free)
      (Trap.Leaves fun _ => False) := by
  unfold resume Watched.resume
  refine (Same.of_ends (resume_poised hm hnot)).bind fun result m₁ hresumed => ?_
  obtain ⟨outcome, rfl, h₁⟩ := hresumed
  have hexecute : ∀ m', Poised (some t) (t :: free) m' →
      Same (execute k t budget) (Watched.execute look l t budget) m' (SliceEnd.Stops t free)
        (Trap.Leaves fun _ => False) := fun m' h' => execute_same hk hl hnot budget h'
  cases outcome with
  | blocked => exact .of_ends h₁
  | running | reacquired reason =>
    have h₁ : Poised (some t) (t :: free) m₁ := h₁
    have htaken := (takeParkedInterrupt_poised h₁ t).mono (fun _ _ h => h)
      fun e m' (h : False) => (h.elim : e.Leaves (fun _ => False) m')
    refine (Same.of_ends htaken).bind fun interrupted m₂ h₂ => ?_
    cases interrupted with
    | false => exact hexecute m₂ h₂
    | true =>
      have hraise := raise_poised (α := Unit) h₂ CoreName.interrupted none (Q := fun _ _ => False)
      refine (Same.of_ends hraise).attempt.bind fun result m₃ h₃ => ?_
      cases result with
      | ok u => exact (h₃ : False).elim
      | error trap => exact handled_same h₃ hnot hexecute

theorem get?_saveStack {r : Thread FrameStack} (hr : m.scheduler.get? t = some r) :
    (saveStack t m).scheduler.get? t = some { r with stack := m.active } := by
  have hget := get?_restack hr m.active [] t
  rwa [if_pos rfl] at hget

/-- The record of the running thread after its frames are back. -/
theorem Poised.saved (h : Poised (some t) free m) :
    ∃ r, (Machine.saveStack t m).scheduler.get? t = some r ∧ r.isAlive = true ∧ r.stack = m.active := by
  obtain ⟨r, hr, halive, _⟩ := h.home
  exact ⟨_, get?_saveStack hr, halive, rfl⟩

theorem Poised.spent_saveStack (h : Poised (some t) (t :: free) m) (hactive : m.active = []) :
    Spent t free (Machine.saveStack t m) := by
  obtain ⟨r, hr, _, hstack⟩ := h.saved
  exact ⟨h.saveStack, (framesOf_record (by simp) hr).trans (hstack.trans hactive)⟩

theorem SliceEnd.Stops.rests {ended : SliceEnd} (h : ended.Stops t free m) :
    ended.Rests t free (saveStack t m) := by
  have hgoes : Poised (some t) free m → (saveStack t m).Poised none free ∧
      ∃ r, (saveStack t m).scheduler.get? t = some r ∧ r.isAlive = true := by
    intro h
    obtain ⟨r, hr, halive, _⟩ := h.saved
    exact ⟨h.saveStack, r, hr, halive⟩
  cases ended with
  | yielded => exact hgoes h
  | blocked => exact hgoes h
  | finished v => exact h.1.spent_saveStack h.2
  | uncaught exception => exact h.1.spent_saveStack h.2

theorem runSlice_same (hk : k.Fair l) (hl : look.Silent) (hnot : t ∉ free) (hm : Poised none free m)
    {r : Thread FrameStack} (hr : m.scheduler.get? t = some r) (halive : r.isAlive = true) :
    Same (runSlice k t) (Watched.runSlice look l t) m (SliceEnd.Rests t free)
      (Trap.Leaves fun _ => False) := by
  have h₁ : Poised none free { m with yieldRequested := false } :=
    hm.congr rfl rfl rfl (fun hc => hc) rfl
  have htaken := h₁.takeStack hr halive
  have hslice := (resume_same hk hl hnot m.config.sliceCycles.toNat htaken).ensuring
    (g := saveStack t) (R := SliceEnd.Rests t free) (F := Trap.Leaves fun _ => False)
    (fun _ _ h => SliceEnd.Stops.rests h) fun e m' h => by cases e <;> exact h
  unfold runSlice Watched.runSlice
  refine Same.modify (Same.get ?_)
  rw [show ({ m with yieldRequested := false } : Machine).scheduler.get? t = some r from hr]
  exact Same.modify hslice

end Slices

end Machine

end ClassMachine

/-!
Whole runs in a balanced machine. A thread made for a call is driven slice by slice until it has no
frames left, and only then taken out; calls that nest are settled by induction on how deeply they may.
-/
namespace ClassMachine

namespace Machine
open Stateful

/-- Initializers that fail do so with the frames in place, as those of the calls tracked do. -/
structure Nested.Steady (k : Nested) : Prop where
  tracked : ∃ s : Nested, s.Quiet ∧ Nested.Tracks k s

theorem nested_steady (fuel : Nat) : Nested.Steady (nested fuel) := ⟨⟨sheltered fuel, sheltered_spec fuel⟩⟩

section Driving

variable {α : Type} {t : ThreadId} {free : List ThreadId} {m : Machine} {k l : Nested} {look : Observer}

theorem Poised.spent (h : Poised (some t) (t :: free) m) (hactive : m.active = []) : Spent t free m := by
  obtain ⟨r, hr, _, hstack⟩ := h.home
  exact ⟨h.rests hactive, (framesOf_record (by simp) hr).trans hstack⟩

theorem Spent.starts (h : Spent t free m) : Poised (some t) (t :: free) m := by
  obtain ⟨r, hr⟩ := h.free t List.mem_cons_self
  exact h.toPoised.starts hr.record hr.alive ((framesOf_record (by simp) hr.record).symm.trans h.frames)

/-- What starts with no frames leaves none. -/
theorem onFreshStack_same {x y : MachineM α} {P R : Machine → Prop} (hactive : m.active = [])
    (hx : Same x y m (fun _ m' => P m') (Trap.Leaves R)) (hP : ∀ m', P m' → m'.active = [])
    (hR : ∀ m', R m' → m'.active = []) :
    Same (onFreshStack x) (onFreshStack y) m (fun _ m' => P m') (Trap.Leaves R) := by
  have hsame : ({ m with active := [] } : Machine) = m := by rw [← hactive]
  have hback : ∀ m' : Machine, m'.active = [] → ({ m' with active := m.active } : Machine) = m' := by
    intro m' h
    rw [hactive, ← h]
  have hensured := hx.ensuring (g := fun n => { n with active := m.active }) (R := fun _ m' => P m')
    (F := Trap.Leaves R) (fun _ m' h => by rw [hback m' (hP m' h)]; exact h) fun e m' h => by
      cases e with
      | exception r => exact (congrArg R (hback m' (hR m' h))).mpr h
      | fatal error => trivial
      | outOfFuel => trivial
  refine ⟨?_, ?_⟩
  · show ensuring y _ { m with active := [] } = ensuring x _ { m with active := [] }
    rw [hsame]
    exact hensured.eq
  · show Ends (ensuring x _ { m with active := [] }) _ _
    rw [hsame]
    exact hensured.ends

/-- A class that cannot be initialized leaves the frames alone. -/
theorem ensureInitialized_spent (hk : k.Fair l) (hs : Nested.Steady k) (hm : Poised (some t) (t :: free) m)
    (hactive : m.active = []) (id : ClassId) :
    Same (ensureInitialized k t id) (ensureInitialized l t id) m
      (fun _ m' => Poised (some t) (t :: free) m' ∧ m'.active = []) (Trap.Leaves (Spent t free)) := by
  obtain ⟨s, hquiet, htracks⟩ := hs.tracked
  have hsame := ensureInitialized_agree hk (List.mem_cons_self (a := t) (l := free)) id m hm
  have hkeeps := (ensureInitialized_tracks htracks id).ends (ensureInitialized_quiet hquiet id m hm.known)
  refine ⟨hsame.eq, ?_⟩
  cases hrun : ensureInitialized k t id m with
  | ok u m' => exact ⟨hsame.ends.of_ok hrun, ((hkeeps.of_ok hrun).active).trans hactive⟩
  | error e m' =>
    have hleaves := hsame.ends.of_error hrun
    cases e with
    | exception r => exact Poised.spent hleaves (((hkeeps.of_error hrun).active).trans hactive)
    | fatal error => trivial
    | outOfFuel => trivial

/-- A call that fails leaves the frames alone. -/
theorem invokeMethod_spent (hk : k.Fair l) (hs : Nested.Steady k) (hnot : t ∉ free)
    (hm : Poised (some t) (t :: free) m) (hactive : m.active = []) (method : MethodId) (args : List Value) :
    Same (invokeMethod k t method args) (invokeMethod l t method args) m (Flow.Goes t free)
      (Trap.Leaves (Spent t free)) := by
  obtain ⟨s, hquiet, htracks⟩ := hs.tracked
  have hsame := invokeMethod_same hk hm hnot method args
  have hkeeps := (invokeMethod_tracks htracks method args).ends
    (invokeMethod_invokes hquiet method args m hm.known)
  refine ⟨hsame.eq, ?_⟩
  cases hrun : invokeMethod k t method args m with
  | ok flow m' => exact hsame.ends.of_ok hrun
  | error e m' =>
    have hleaves := hsame.ends.of_error hrun
    cases e with
    | exception r => exact Poised.spent hleaves (((hkeeps.of_error hrun).active).trans hactive)
    | fatal error => trivial
    | outOfFuel => trivial

theorem awaitDeadline_poised (hm : Poised none free m) {r : Thread FrameStack}
    (hr : m.scheduler.get? t = some r) (halive : r.isAlive = true) (method : MethodId) :
    Ends (awaitDeadline t method m)
      (fun _ m' => Poised none free m' ∧ ∃ r, m'.scheduler.get? t = some r ∧ r.isAlive = true)
      (Trap.Leaves (Spent t free)) := by
  unfold awaitDeadline
  rw [bind_get, hr, Option.map_some]
  cases r.state with
  | ready => exact ⟨hm, r, hr, halive⟩
  | detached => trivial
  | terminated => trivial
  | detachedUntil deadline =>
    have hidle : m.scheduler.Wakes (m.scheduler.idleUntil deadline) :=
      Scheduler.pointwise_of_threads_eq Thread.Woken.refl rfl rfl
    have hcalm : m.scheduler.Pointwise Thread.Calm (m.scheduler.idleUntil deadline).wakeExpired.2 :=
      wakes_calm (hidle.trans (Scheduler.wakeExpired_wakes _))
    refine ⟨hm.calm hcalm (Scheduler.attachAll_rotates _ hm.orderly.rotates), ?_⟩
    obtain ⟨r', hr', hc⟩ := hcalm.exists_of_some hr
    exact ⟨r', hr', hc.alive.trans halive⟩

theorem driveSlices_same (hk : k.Fair l) (hl : look.Silent) (hnot : t ∉ free) (method : MethodId)
    (fuel : Nat) (hm : Poised none free m) {r : Thread FrameStack} (hr : m.scheduler.get? t = some r)
    (halive : r.isAlive = true) :
    Same (driveSlices k t method fuel) (Watched.driveSlices look l t method fuel) m
      (fun _ m' => Spent t free m') (Trap.Leaves (Spent t free)) := by
  induction fuel generalizing m r with
  | zero => exact .of_ends trivial
  | succ fuel ih =>
    unfold driveSlices Watched.driveSlices
    have hslice := (runSlice_same hk hl hnot hm hr halive).mono (fun _ _ h => h)
      fun e m' h => h.mono (Q := Spent t free) fun _ => False.elim
    refine hslice.bind fun ended m₁ h₁ => ?_
    cases ended with
    | yielded =>
      obtain ⟨h₁, r₁, hr₁, halive₁⟩ := h₁
      exact Same.watch (ih h₁ hr₁ halive₁) hl h₁
    | blocked =>
      obtain ⟨h₁, r₁, hr₁, halive₁⟩ := h₁
      refine Same.watch ?_ hl h₁
      refine (Same.of_ends (awaitDeadline_poised h₁ hr₁ halive₁ method)).bind fun _ m₂ h₂ => ?_
      obtain ⟨h₂, r₂, hr₂, halive₂⟩ := h₂
      exact ih h₂ hr₂ halive₂
    | finished v => exact Same.watch (.of_ends h₁) hl h₁.toPoised
    | uncaught exception => exact Same.watch (.of_ends h₁) hl h₁.toPoised

theorem drive_same (hk : k.Fair l) (hs : Nested.Steady k) (hl : look.Silent) (hnot : t ∉ free)
    (fuel : Nat) (method : MethodId) (args : List Value) (hm : Spent t free m) :
    Same (drive k fuel t method args) (Watched.drive look l fuel t method args) m
      (fun _ m' => Spent t free m') (Trap.Leaves (Spent t free)) := by
  unfold drive Watched.drive
  refine onFreshStack_same hm.home ?_ (fun _ h => h.home) fun _ h => h.home
  refine (ensureInitialized_spent hk hs hm.starts hm.home method.owner).bind fun _ m₁ ⟨h₁, hactive₁⟩ => ?_
  refine (invokeMethod_spent hk hs hnot h₁ hactive₁ method args).bind fun flow m₂ h₂ => ?_
  have hgoOn : Poised (some t) free m₂ →
      Same (modify (saveStack t) >>= fun _ => driveSlices k t method fuel)
        (modify (saveStack t) >>= fun _ => Watched.driveSlices look l t method fuel) m₂
        (fun _ m' => Spent t free m') (Trap.Leaves (Spent t free)) := by
    intro h₂
    obtain ⟨r, hr, halive, _⟩ := h₂.saved
    exact Same.modify (driveSlices_same hk hl hnot method fuel h₂.saveStack hr halive)
  cases flow with
  | finished v => exact .of_ends (Poised.spent h₂.1 h₂.2)
  | next => exact hgoOn (Poised.forget h₂)
  | pause => exact hgoOn h₂

/-- A thread that is spent is ended and its record taken out. -/
theorem Spent.retire (h : Spent t free m) (hnot : t ∉ free) :
    Poised none free { m with scheduler := ((m.scheduler.terminate t).2.remove t).2 } := by
  have hended := h.toPoised.terminate (by simp) hnot h.frames
  obtain ⟨r, hr⟩ := h.free t List.mem_cons_self
  have hundisturbed := Arena.terminate_undisturbed hr.record hr.pending
  obtain ⟨r', hr', hpending⟩ := hundisturbed.exists_of_some hr.record
  obtain ⟨r₀, hr₀, halike⟩ := (m.scheduler.terminate_alike t).exists_of_some' hr'
  have hstack : r'.stack = [] := halike.stack.trans ((framesOf_record (by simp) hr₀).symm.trans h.frames)
  exact hended.remove (by simp) hnot hr' (hpending.pending.trans hr.pending) hstack

theorem runSynthetic_same (hk : k.Fair l) (hs : Nested.Steady k) (hl : look.Silent) (fuel : Nat)
    (method : MethodId) (args : List Value) (hm : Poised none free m) :
    Same (runSynthetic k fuel method args) (Watched.runSynthetic look l fuel method args) m
      (fun _ m' => Poised none free m') (Trap.Leaves (Poised none free)) := by
  unfold runSynthetic Watched.runSynthetic
  refine Same.get ?_
  have hspawn := (spawnThread_poised hm .null).mono (fun _ _ h => h)
    fun e m' (h : e.Leaves (fun _ => False) m') => h.mono (Q := Poised none free) fun _ => False.elim
  refine (Same.of_ends hspawn).bind fun thread m₁ ⟨hnew, h₁, hframes, _⟩ => ?_
  have hnot : thread ∉ free := hnew ▸ hm.nextId_not_mem
  have hmarked : Spent thread free { m₁ with
      scheduler := m₁.scheduler.update thread fun t => { t with synthetic := true } } := by
    refine ⟨Fair.updateThread (u := thread) (f := fun t => { t with synthetic := true })
      (fun _ => ⟨rfl, rfl, rfl⟩) m₁ h₁, ?_⟩
    obtain ⟨r, hr⟩ := h₁.free thread List.mem_cons_self
    rw [framesOf_record (by simp) hr.record] at hframes
    refine (framesOf_record (r := { r with synthetic := true }) (by simp) ?_).trans hframes
    show (m₁.scheduler.update thread _).get? thread = _
    rw [Scheduler.get?_update, if_pos rfl, show m₁.scheduler.get? thread = some r from hr.record]
    rfl
  refine Same.modify ((drive_same hk hs hl hnot fuel method args hmarked).ensuring
    (fun _ m' h => ?_) fun e m' h => ?_)
  · exact (h.retire hnot).congr rfl rfl rfl (fun hc => hc) rfl
  · cases e with
    | exception r => exact (h.retire hnot).congr rfl rfl rfl (fun hc => hc) rfl
    | fatal error => trivial
    | outOfFuel => trivial

theorem enterThread_same (hk : k.Fair l) (hs : Nested.Steady k) (hnot : t ∉ free) (method : MethodId)
    (args : List Value) (hm : Spent t free m) :
    Same (enterThread k t method args) (enterThread l t method args) m (fun _ m' => Poised none free m')
      (Trap.Leaves (Spent t free)) := by
  unfold enterThread
  refine onFreshStack_same hm.home ?_ (fun _ h => h.home) fun _ h => h.home
  refine (ensureInitialized_spent hk hs hm.starts hm.home method.owner).bind fun _ m₁ hinit => ?_
  obtain ⟨h₁, hactive₁⟩ := hinit
  have hsaved := (invokeMethod_spent hk hs hnot h₁ hactive₁ method args).ensuring (g := saveStack t)
    (R := Flow.Enters t free) (F := Trap.Leaves (Spent t free)) (fun flow m' h => by
      cases flow with
      | finished v => exact h.1.spent_saveStack h.2
      | next => exact (Poised.forget h).saveStack
      | pause => exact Poised.saveStack h) fun e m' h => by
      cases e with
      | exception r => exact Poised.spent_saveStack (Spent.starts h) (h : Spent t free m').home
      | fatal error => trivial
      | outOfFuel => trivial
  refine hsaved.bind fun flow m₂ h₂ => ?_
  cases flow with
  | finished v => exact .of_ends (h₂.toPoised.terminate (by simp) hnot h₂.frames)
  | next => exact .of_ends h₂
  | pause => exact .of_ends h₂

theorem nested_fair (hl : look.Silent) (fuel : Nat) : (nested fuel).Fair (Watched.nested look fuel) := by
  induction fuel with
  | zero => exact ⟨fun _ _ _ _ _ => .of_ends trivial, fun _ _ _ _ _ _ _ _ => .of_ends trivial⟩
  | succ fuel ih =>
    refine ⟨fun free method args m hm => ?_, fun free started method args m hm hnot hframes => ?_⟩
    · exact runSynthetic_same ih (nested_steady fuel) hl fuel method args hm
    · refine (enterThread_same ih (nested_steady fuel) hnot method args ⟨hm, hframes⟩).mono
        (fun _ _ h => h) fun e m' h => h.mono fun m' h => ⟨h.toPoised, h.frames⟩

end Driving

section Steps

variable {m : Machine} {look : Observer}

/-- A change of the scheduler that leaves the records alone. -/
theorem Poised.withScheduler {running : Option ThreadId} {free : List ThreadId}
    (h : Poised running free m) {s : Scheduler FrameStack} (hs : s.threads = m.scheduler.threads)
    (hn : s.nextId = m.scheduler.nextId) (hr : s.ready = m.scheduler.ready) :
    Poised running free { m with scheduler := s } := by
  have hsame : m.scheduler.Wakes s := Scheduler.pointwise_of_threads_eq Thread.Woken.refl hs hn
  exact h.calm (wakes_calm hsame) (hsame.rotates h.orderly.rotates hr)

/-- The clock, the requests and the thread at work are no part of the balance. -/
theorem SliceEnd.Rests.endSlice {t : ThreadId} {free : List ThreadId} {ended : SliceEnd}
    (h : ended.Rests t free m) : ended.Rests t free { m with scheduler := m.scheduler.endSlice } := by
  cases ended with
  | yielded => exact ⟨h.1.withScheduler rfl rfl rfl, h.2⟩
  | blocked => exact ⟨h.1.withScheduler rfl rfl rfl, h.2⟩
  | finished v => exact ⟨h.toPoised.withScheduler rfl rfl rfl, h.frames⟩
  | uncaught exception => exact ⟨h.toPoised.withScheduler rfl rfl rfl, h.frames⟩

theorem step_same (hl : look.Silent) (fuel : Nat) (hm : Poised none [] m) :
    Same (step fuel) (Watched.step look fuel) m (fun _ m' => Poised none [] m')
      (Trap.Leaves (Poised none [])) := by
  unfold step Watched.step
  refine Same.watch ?_ hl hm
  have hpicked := Scheduler.next_rotates hm.orderly.rotates
  have hnext : Poised none [] { m with scheduler := m.scheduler.next.2 } :=
    hm.calm (wakes_calm m.scheduler.next_wakes) hpicked.1
  have hpick : Ends (onScheduler Scheduler.next m)
      (fun picked m' => Poised none [] m' ∧
        ∀ t, picked = some t → ∃ r, m'.scheduler.get? t = some r ∧ r.isAlive = true)
      (Trap.Leaves (Poised none [])) := by
    refine ⟨hnext, fun t ht => ?_⟩
    obtain ⟨r, hr, hready⟩ := hpicked.1 t (hpicked.2 t ht)
    exact ⟨r, hr, by unfold Thread.isAlive; rw [hready]; rfl⟩
  refine (Same.of_ends hpick).bind fun picked m₁ ⟨h₁, hrecord⟩ => ?_
  cases picked with
  | none => exact .of_ends h₁
  | some thread =>
    obtain ⟨r, hr, halive⟩ := hrecord thread rfl
    have hslice := (runSlice_same (nested_fair hl fuel) hl (by simp) h₁ hr halive).ensuring
      (g := fun m => { m with scheduler := m.scheduler.endSlice }) (R := SliceEnd.Rests thread [])
      (F := Trap.Leaves (Poised none [])) (fun _ _ h => SliceEnd.Rests.endSlice h)
      fun e m' h => by
        cases e with
        | exception r => exact (h : False).elim
        | fatal error => trivial
        | outOfFuel => trivial
    refine hslice.bind fun ended m₂ h₂ => ?_
    cases ended with
    | yielded => exact Same.watch (.of_ends h₂.1) hl h₂.1
    | blocked => exact Same.watch (.of_ends h₂.1) hl h₂.1
    | finished v =>
      refine Same.watch (.of_ends ?_) hl h₂.toPoised
      exact h₂.toPoised.terminate (by simp) (by simp) h₂.frames
    | uncaught exception =>
      refine Same.watch (.of_ends ?_) hl h₂.toPoised
      exact (threadDied_poised h₂.toPoised (by simp) (by simp) h₂.frames exception).bind fun _ _ h => h

theorem runSlices_same (hl : look.Silent) (fuel slices : Nat) (hm : Poised none [] m) :
    Same (runSlices fuel slices) (Watched.runSlices look fuel slices) m (fun _ m' => Poised none [] m')
      (Trap.Leaves (Poised none [])) := by
  induction slices generalizing m with
  | zero => exact .of_ends trivial
  | succ slices ih =>
    unfold runSlices Watched.runSlices
    have hdrain : Fair none [] (onScheduler Scheduler.drain) :=
      .onScheduler (fun s => wakes_calm s.drain_wakes) fun _ hs => Scheduler.drain_rotates hs
    refine (Same.of_ends (hdrain m hm)).bind fun stopped m₁ h₁ => ?_
    cases stopped with
    | true => exact .of_ends h₁
    | false =>
      refine Same.get ?_
      split
      · exact .of_ends h₁
      · refine (step_same hl fuel h₁).bind fun picked m₂ h₂ => ?_
        cases picked with
        | some t => exact ih h₂
        | none =>
          refine Same.get ?_
          cases m₂.scheduler.nextDeadline? with
          | none => exact .of_ends h₂
          | some deadline => exact Same.modify (ih (h₂.withScheduler rfl rfl rfl))

end Steps

end Machine

end ClassMachine
