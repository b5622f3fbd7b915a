import ClassMachine.Proofs.Machine.BalanceSteps
import ClassMachine.Proofs.Machine.Shifts
import ClassMachine.Proofs.Sync.Claims

/-!
Monitors in a balanced machine. A call of a synchronized method enters a monitor and puts the frame in
front that stands for it; a return and an exception leave both. Waiting and coming back from it keep
the level a thread had.
-/
namespace ClassMachine

/-- How a thread stands after an instruction that gave a flow. One that pauses may have a monitor
pending; one that has finished has no frames. -/
def Flow.Goes (t : ThreadId) (free : List ThreadId) : Flow → Machine → Prop
  | .next, m => m.Poised (some t) (t :: free)
  | .pause, m => m.Poised (some t) free
  | .finished _, m => m.Poised (some t) (t :: free) ∧ m.active = []

namespace Machine
open Stateful

section Turns

variable {t : ThreadId} {free : List ThreadId} {m : Machine}

/-- The running thread takes a turn at a monitor, and its frames are changed to match. -/
theorem Poised.turn (h : Poised (some t) free m) {r : Thread FrameStack}
    (hr : m.scheduler.get? t = some r) {a' : Arena FrameStack} {o : Ref} {goesOn : Bool}
    {next : Option WaitToken} {n n' : Monitor} {r' : Thread FrameStack}
    (hp : ∀ p, r.pending = some p → p.object = o)
    (hturn : Arena.Turn m.arena a' t o goesOn next n n' r')
    (hspares : m.scheduler.Spares (fun _ => True) a'.scheduler)
    (hnext : a'.heap.nextHandle = m.heap.nextHandle) {frames : FrameStack} {free' : List ThreadId}
    (heven : ∀ u j, a'.stake u j = levels (if u = t then frames else m.framesOf (some t) u) j)
    (hbodies : ∀ f ∈ frames, f.code.isUnmonitored = true)
    (hfree : ∀ u ∈ free', u = t ∧ goesOn = true ∨ u ≠ t ∧ u ∈ free) :
    Poised (some t) free' { m with heap := a'.heap, scheduler := a'.scheduler, active := frames } := by
  have hleaves := hturn.leaves
  have hframes : ∀ u, ({ m with heap := a'.heap, scheduler := a'.scheduler, active := frames } : Machine).framesOf
      (some t) u = if u = t then frames else m.framesOf (some t) u := by
    intro u
    by_cases hu : u = t
    · subst hu
      rw [framesOf_running, if_pos rfl]
    · rw [if_neg hu]
      unfold framesOf
      rw [if_neg (by simpa using Ne.symm hu), if_neg (by simpa using Ne.symm hu)]
      exact congrArg (Option.getD · [])
        (Scheduler.map_eq_of_rel (fun _ _ hw => hw.stack) (hleaves.others u hu))
  have haddressed : a'.heap.Addressed := hturn.addressed h.addressed hnext
  refine ⟨⟨h.orderly.turn hr hp hturn, fun u j => ?_, fun u s hs hdead => ?_, haddressed, fun u f hf => ?_,
    h.classes, h.noHost⟩, fun u hu => ?_, ?_⟩
  · rw [hframes]
    exact heven u j
  · by_cases hu : u = t
    · subst hu
      rw [show a'.scheduler.get? u = some r' from hleaves.self] at hs
      cases hs
      exact absurd (hturn.alive.symm.trans hdead) (by simp)
    · obtain ⟨s₀, hs₀, hw⟩ := hleaves.exists_before hu hs
      exact hw.stack.trans (h.ended u s₀ hs₀ (hw.heeds.alive ▸ hdead))
  · rw [hframes] at hf
    split at hf
    · exact hbodies f hf
    · exact h.bodies u f hf
  · rcases hfree u hu with ⟨rfl, hgo⟩ | ⟨hne, hu⟩
    · exact ⟨r', hleaves.self, hturn.unparked hgo, hturn.alive⟩
    · obtain ⟨s, hs⟩ := h.free u hu
      obtain ⟨s', hs', hw⟩ := hleaves.exists_after hne hs.record
      exact ⟨s', hs', hw.pending.trans hs.pending, hw.heeds.alive.trans hs.alive⟩
  · obtain ⟨r₀, hr₀, _, hstack⟩ := h.home
    have hrel := hspares.record t (h.orderly.numbered t r₀ hr₀) trivial
    rw [hr₀, show a'.scheduler.get? t = some r' from hleaves.self] at hrel
    cases hrel with
    | some hintact => exact ⟨r', hleaves.self, hturn.alive, hintact.stack.trans hstack⟩

/-- The balance after a turn that changes no stake. -/
theorem Poised.levels_of_stake (h : Poised (some t) free m) {a' : Arena FrameStack}
    (hstake : ∀ u j, a'.stake u j = m.arena.stake u j) (u : ThreadId) (j : Ref) :
    a'.stake u j = levels (if u = t then m.active else m.framesOf (some t) u) j := by
  rw [hstake, h.even]
  split
  · next hu => rw [hu, framesOf_running]
  · rfl

theorem Poised.bodies_active (h : Poised (some t) free m) :
    ∀ f ∈ m.active, f.code.isUnmonitored = true := by
  have hbodies := h.bodies t
  rwa [framesOf_running] at hbodies

/-- The others stay free, and so does the thread itself if it goes on. -/
theorem stays_free {u : ThreadId} (hnot : t ∉ free) (hu : u ∈ t :: free) :
    u = t ∧ true = true ∨ u ≠ t ∧ u ∈ t :: free := by
  rcases List.mem_cons.1 hu with rfl | hmem
  · exact .inl ⟨rfl, rfl⟩
  · exact .inr ⟨fun he => hnot (he ▸ hmem), hu⟩

theorem others_free {u : ThreadId} {goesOn : Bool} (hnot : t ∉ free) (hu : u ∈ free) :
    u = t ∧ goesOn = true ∨ u ≠ t ∧ u ∈ t :: free :=
  .inr ⟨fun he => hnot (he ▸ hu), List.mem_cons_of_mem t hu⟩

end Turns

section Operations

variable {α : Type} {t : ThreadId} {free : List ThreadId} {m : Machine}

theorem onSync_of_ok {x : SyncM FrameStack α} {v : α} {a' : Arena FrameStack}
    (h : x m.arena = .ok v a') :
    onSync x m = .ok (.ok v) { m with heap := a'.heap, scheduler := a'.scheduler } := by
  unfold onSync
  rw [show x ⟨m.heap, m.scheduler⟩ = .ok v a' from h]

theorem onSync_of_error {x : SyncM FrameStack α} {e : SyncError} {a' : Arena FrameStack}
    (h : x m.arena = .error e a') :
    onSync x m = .ok (.error e) { m with heap := a'.heap, scheduler := a'.scheduler } := by
  unfold onSync
  rw [show x ⟨m.heap, m.scheduler⟩ = .error e a' from h]

/-- A refused operation is an exception that changes nothing. -/
theorem synchronize_poised {running : Option ThreadId} {x : SyncM FrameStack α} (hx : Sync.Modest x)
    (hm : Poised running free m) {Q : α → Machine → Prop}
    (hok : ∀ v a', x m.arena = .ok v a' → Q v { m with heap := a'.heap, scheduler := a'.scheduler }) :
    Ends (synchronize x m) Q (Trap.Leaves (Poised running free)) := by
  unfold synchronize
  cases hrun : x m.arena with
  | ok v a' =>
    rw [bind_of_ok (onSync_of_ok hrun)]
    exact hok v a' hrun
  | error e a' =>
    rw [bind_of_ok (onSync_of_error hrun)]
    cases e with
    | fatal error => trivial
    | monitor error =>
      have hsame := (hx m.arena).of_error hrun error rfl
      subst hsame
      exact raiseSync_poised hm (.monitor error)

theorem notify_poised (hm : Poised (some t) (t :: free) m) (hnot : t ∉ free) (object : Ref) :
    Ends (synchronize (Sync.notify t object) m) (fun _ m' => Poised (some t) (t :: free) m')
      (Trap.Leaves (Poised (some t) (t :: free))) := by
  obtain ⟨r, hr⟩ := hm.free t List.mem_cons_self
  refine synchronize_poised (Sync.notify_modest t object) hm fun v a' hrun => ?_
  obtain ⟨_, _, _, _, hturn⟩ := Sync.notify_turn hm.orderly.claimed hr hrun
  exact hm.turn hr.record hr.elsewhere hturn ((Sync.notify_tame t object m.arena).of_ok hrun)
    ((Sync.notify_modest t object m.arena).of_ok hrun)
    (hm.levels_of_stake (Sync.notify_stake hm.orderly hr hrun)) hm.bodies_active
    fun _ hu => stays_free hnot hu

theorem notifyAll_poised (hm : Poised (some t) (t :: free) m) (hnot : t ∉ free) (object : Ref) :
    Ends (synchronize (Sync.notifyAll t object) m) (fun _ m' => Poised (some t) (t :: free) m')
      (Trap.Leaves (Poised (some t) (t :: free))) := by
  obtain ⟨r, hr⟩ := hm.free t List.mem_cons_self
  refine synchronize_poised (Sync.notifyAll_modest t object) hm fun v a' hrun => ?_
  obtain ⟨_, _, _, _, hturn⟩ := Sync.notifyAll_turn hm.orderly.claimed hr hrun
  exact hm.turn hr.record hr.elsewhere hturn ((Sync.notifyAll_tame t object m.arena).of_ok hrun)
    ((Sync.notifyAll_modest t object m.arena).of_ok hrun)
    (hm.levels_of_stake (Sync.notifyAll_stake hm.orderly hr hrun)) hm.bodies_active
    fun _ hu => stays_free hnot hu

/-- A thread that goes on, or one that was parked while it has frames and is out of the rotation. -/
def Parks (t : ThreadId) (free : List ThreadId) (m : Machine) : Prop :=
  Poised (some t) (t :: free) m ∨
    Poised (some t) free m ∧ m.active ≠ [] ∧ ∃ r, m.scheduler.get? t = some r ∧ r.isDetached = true

/-- A thread that waits keeps its levels, and has some. -/
theorem wait_parks (hm : Poised (some t) (t :: free) m) (hnot : t ∉ free) (object : Ref)
    (timeout : Timeout) :
    Ends (synchronize (Sync.wait t object timeout) m)
      (fun _ m' => Poised (some t) free m' ∧ m'.active ≠ [] ∧
        ∃ r, m'.scheduler.get? t = some r ∧ r.isDetached = true)
      (Trap.Leaves (Poised (some t) (t :: free))) := by
  obtain ⟨r, hr⟩ := hm.free t List.mem_cons_self
  refine synchronize_poised (Sync.wait_modest t object timeout) hm fun v a' hrun => ?_
  obtain ⟨_, _, _, _, hturn⟩ := Sync.wait_turn hm.orderly.claimed hr hrun
  refine ⟨?_, fun hempty => ?_, Sync.wait_detached hr hrun hm.orderly⟩
  · exact hm.turn hr.record hr.elsewhere hturn ((Sync.wait_tame t object timeout m.arena).of_ok hrun)
      ((Sync.wait_modest t object timeout m.arena).of_ok hrun)
      (hm.levels_of_stake (Sync.wait_stake hm.orderly hr hrun)) hm.bodies_active
      fun _ hu => others_free hnot hu
  · have hpos := Sync.stake_pos_of_wait hr hrun
    rw [hm.even, framesOf_running, show m.active = [] from hempty] at hpos
    exact Nat.lt_irrefl 0 hpos

theorem setInterruptible_parks (hm : Poised (some t) free m) (hactive : m.active ≠ [])
    (hdetached : ∃ r, m.scheduler.get? t = some r ∧ r.isDetached = true) :
    Ends (setInterruptible t m) (fun _ m' => Parks t free m')
      (Trap.Leaves (Poised (some t) (t :: free))) := by
  obtain ⟨r, hr, hd⟩ := hdetached
  refine .inr ⟨setInterruptible_fair t m hm, hactive, { r with interruptible := true }, ?_, hd⟩
  show (m.scheduler.update t _).get? t = _
  rw [Scheduler.get?_update, if_pos rfl, hr]
  rfl

theorem objectWait_parks (hm : Poised (some t) (t :: free) m) (hnot : t ∉ free) (object : Ref)
    (millis : Int64) (nanos : Int32) :
    Ends (objectWait t object millis nanos m) (fun _ m' => Parks t free m')
      (Trap.Leaves (Poised (some t) (t :: free))) := by
  unfold objectWait
  split
  · exact raise_poised hm _ _
  · split
    · exact raise_poised hm _ _
    · rw [bind_get]
      split
      · exact raise_poised hm _ _
      · refine (checkInterrupt_fair t m hm).bind fun _ m₁ h₁ => ?_
        refine (wait_parks h₁ hnot object _).bind fun _ m₂ ⟨h₂, hactive, hdetached⟩ => ?_
        exact setInterruptible_parks h₂ hactive hdetached

/-- The monitor of a synchronized method is entered, at once or after a while, and its frame is marked
with it. -/
theorem enterMonitor_goes (hm : Poised (some t) (t :: free) m) (hnot : t ∉ free) {f : Frame}
    {rest : FrameStack} (hactive : m.active = f :: rest) (hf : f.monitor = none) (object : Ref) :
    Ends (enterMonitor t object m) (Flow.Goes t free) (Trap.Leaves (Poised (some t) (t :: free))) := by
  obtain ⟨r, hr⟩ := hm.free t List.mem_cons_self
  have hbodies := hm.bodies_active
  rw [hactive] at hbodies
  unfold enterMonitor
  cases hrun : Sync.enter t object m.arena with
  | ok outcome a' =>
    rw [bind_of_ok (onSync_of_ok hrun)]
    have htop : onTop (modify fun f => { f with monitor := some object })
        { m with heap := a'.heap, scheduler := a'.scheduler } =
        .ok () { m with
          heap := a'.heap
          scheduler := a'.scheduler
          active := { f with monitor := some object } :: rest } := by
      unfold onTop
      rw [show ({ m with heap := a'.heap, scheduler := a'.scheduler } : Machine).active = f :: rest from hactive]
      rfl
    dsimp only
    rw [bind_of_ok htop]
    obtain ⟨_, _, _, _, hturn⟩ := Sync.enter_turn hm.orderly.claimed hr hrun
    have heven : ∀ u j, a'.stake u j = levels (if u = t then { f with monitor := some object } :: rest
        else m.framesOf (some t) u) j := by
      intro u j
      rw [Sync.enter_stake hm.orderly hr hrun, hm.even]
      by_cases hu : u = t
      · subst hu
        rw [if_pos rfl, framesOf_running, hactive, levels_cons, levels_cons, hf]
        simp [eq_comm]
      · rw [if_neg hu, if_neg fun hand => hu hand.1]
        rfl
    have hbodies' : ∀ g ∈ { f with monitor := some object } :: rest, g.code.isUnmonitored = true := by
      intro g hg
      rcases List.mem_cons.1 hg with rfl | hg
      · exact hbodies f List.mem_cons_self
      · exact hbodies g (List.mem_cons_of_mem f hg)
    have hafter : ∀ {free'}, _ → Poised (some t) free' _ := @fun _ => hm.turn hr.record hr.elsewhere
      hturn ((Sync.enter_tame t object m.arena).of_ok hrun)
      ((Sync.enter_modest t object m.arena).of_ok hrun) heven hbodies'
    cases outcome with
    | acquired => exact hafter fun _ hu => by simpa using stays_free hnot hu
    | blocked => exact hafter fun _ hu => others_free hnot hu
  | error e a' =>
    rw [bind_of_ok (onSync_of_error hrun)]
    cases e with
    | fatal error => trivial
    | monitor error =>
      have hsame := (Sync.enter_modest t object m.arena).of_error hrun error rfl
      subst hsame
      refine raiseSync_poised (m := { m with active := m.active.tail }) ?_ (.monitor error)
      refine hm.frames (fun o => ?_) (fun hold g hg => ?_) fun hnone => by cases hnone
      · rw [hactive, levels_cons, hf]
        simp
      · exact hold g (List.mem_of_mem_tail hg)

/-- A frame that is gone leaves its monitor, which its thread is in. -/
theorem Poised.leave (hm : Poised (some t) (t :: free) m) (hnot : t ∉ free) {f : Frame}
    {rest : FrameStack} (hactive : m.active = f :: rest) {object : Ref} (hf : f.monitor = some object) :
    ∃ a', Sync.exit t object m.arena = .ok () a' ∧ Poised (some t) (t :: free)
      { m with heap := a'.heap, scheduler := a'.scheduler, active := rest } := by
  obtain ⟨r, hr⟩ := hm.free t List.mem_cons_self
  have hlevels : ∀ j, levels m.active j = levels rest j + if object = j then 1 else 0 := by
    intro j
    rw [hactive, levels_cons, hf]
    simp
  have hpos : 0 < m.arena.stake t object := by
    rw [hm.even, framesOf_running, hlevels, if_pos rfl]
    exact Nat.succ_pos _
  obtain ⟨a', hrun⟩ := Sync.exit_of_stake hr hpos
  obtain ⟨_, _, _, _, hturn⟩ := Sync.exit_turn hm.orderly.claimed hr hrun
  refine ⟨a', hrun, hm.turn hr.record hr.elsewhere hturn ((Sync.exit_tame t object m.arena).of_ok hrun)
    ((Sync.exit_modest t object m.arena).of_ok hrun) (fun u j => ?_) (fun g hg => ?_)
    fun _ hu => stays_free hnot hu⟩
  · have hstake := Sync.exit_stake hm.orderly hr hrun u j
    rw [hm.even] at hstake
    by_cases hu : u = t
    · subst hu
      rw [framesOf_running, hlevels] at hstake
      rw [if_pos rfl]
      simp only [true_and, eq_comm (a := j)] at hstake
      omega
    · rw [if_neg hu]
      rw [if_neg fun hand => hu hand.1] at hstake
      exact hstake.symm
  · exact hm.bodies_active g (hactive ▸ List.mem_cons_of_mem f hg)

/-- A frame without a monitor is simply gone. -/
theorem Poised.drop (hm : Poised (some t) free m) {f : Frame} {rest : FrameStack}
    (hactive : m.active = f :: rest) (hf : f.monitor = none) :
    Poised (some t) free { m with active := rest } := by
  refine hm.frames (fun o => ?_) (fun hold g hg => ?_) fun hnone => by cases hnone
  · rw [hactive, levels_cons, hf]
    simp
  · exact hold g (hactive ▸ List.mem_cons_of_mem f hg)

theorem deliver_goes (hm : Poised (some t) (t :: free) m) (result : Option Value) :
    Ends (deliver result m) (Flow.Goes t free) (Trap.Leaves (Poised (some t) (t :: free))) := by
  unfold deliver
  rw [bind_get]
  cases hactive : m.active with
  | nil => exact ⟨hm, hactive⟩
  | cons f rest =>
    cases result with
    | none => exact hm
    | some v => exact (Fair.onTop (Frame.push_bound v) m hm).bind fun _ _ h => h

/-- A return leaves the monitor of the frame in front together with it. -/
theorem returnFrom_goes (hm : Poised (some t) (t :: free) m) (hnot : t ∉ free) (result : Option Value) :
    Ends (returnFrom t result m) (Flow.Goes t free) (Trap.Leaves (Poised (some t) (t :: free))) := by
  unfold returnFrom
  rw [bind_get]
  cases hactive : m.active with
  | nil => trivial
  | cons f rest =>
    dsimp only
    unfold popFrame
    rw [bind_modify]
    have htail : ({ m with active := m.active.tail } : Machine) = { m with active := rest } := by
      rw [hactive]
      rfl
    rw [htail]
    cases hf : f.monitor with
    | none => exact deliver_goes (hm.drop hactive hf) result
    | some object =>
      obtain ⟨a', hrun, hleft⟩ := hm.leave hnot hactive hf
      have hexit : synchronize (Sync.exit t object) { m with active := rest } =
          .ok () { m with heap := a'.heap, scheduler := a'.scheduler, active := rest } := by
        unfold synchronize
        rw [bind_of_ok (onSync_of_ok (m := { m with active := rest }) hrun)]
        rfl
      dsimp only
      rw [bind_of_ok hexit]
      exact deliver_goes hleft result

theorem releaseMonitor_poised (hm : Poised (some t) (t :: free) m) (hnot : t ∉ free) {f : Frame}
    {rest : FrameStack} (hactive : m.active = f :: rest) :
    Ends (releaseMonitor t f { m with active := rest })
      (fun _ m' => Poised (some t) (t :: free) m' ∧ m'.active = rest) (Trap.Leaves fun _ => False) := by
  unfold releaseMonitor
  cases hf : f.monitor with
  | none => exact ⟨hm.drop hactive hf, rfl⟩
  | some object =>
    obtain ⟨a', hrun, hleft⟩ := hm.leave hnot hactive hf
    dsimp only
    rw [bind_of_ok (onSync_of_ok (m := { m with active := rest }) hrun)]
    exact ⟨hleft, rfl⟩

/-- A frame goes on at a handler of its own. -/
theorem Poised.handle (hm : Poised (some t) free m) {f : Frame} {rest : FrameStack}
    (hactive : m.active = f :: rest) (stack : List Value) (pc : Nat) :
    Poised (some t) free { m with active := { f with stack := stack, pc := pc } :: rest } := by
  refine hm.frames (fun o => ?_) (fun hold g hg => ?_) fun hnone => by cases hnone
  · rw [hactive, levels_cons, levels_cons]
  · rcases List.mem_cons.1 hg with rfl | hg
    · exact hold f (hactive ▸ List.mem_cons_self)
    · exact hold g (hactive ▸ List.mem_cons_of_mem f hg)

theorem handlerOf_keeps (thrown : ClassId) (f : Frame) (m : Machine) :
    Ends (handlerOf thrown f m) (fun _ m' => m.Keeps m') fun _ _ => False := by
  unfold handlerOf
  cases f.pc with
  | zero => exact .refl m
  | succ index =>
    exact (findHandler_ends thrown index f.code.handlers m).mono (fun _ _ h => h.1) fun _ _ h => h

/-- Unwinding leaves frame after frame with its monitor, until one has a handler or none is left. -/
theorem unwindFrames_poised (exception : Ref) (thrown : ClassId) (frames : FrameStack)
    (hm : Poised (some t) (t :: free) m) (hnot : t ∉ free) (hactive : m.active = frames) :
    Ends (unwindFrames t exception thrown frames m)
      (fun caught m' => Poised (some t) (t :: free) m' ∧ (caught = false → m'.active = []))
      (Trap.Leaves fun _ => False) := by
  induction frames generalizing m with
  | nil => exact ⟨hm, fun _ => hactive⟩
  | cons f rest ih =>
    have hfind : Ends (handlerOf thrown f m)
        (fun _ m' => Poised (some t) (t :: free) m' ∧ m'.active = f :: rest)
        (Trap.Leaves fun _ => False) := by
      have hfair := handlerOf_fair thrown f m hm
      have hkeeps := handlerOf_keeps thrown f m
      cases hrun : handlerOf thrown f m with
      | ok found m' => exact ⟨hfair.of_ok hrun, (hkeeps.of_ok hrun).active.trans hactive⟩
      | error e m' => exact (hkeeps.of_error hrun).elim
    unfold unwindFrames
    refine hfind.bind fun found m₁ ⟨h₁, hactive₁⟩ => ?_
    cases found with
    | some h => exact ⟨h₁.handle hactive₁ _ _, fun hcaught => by cases hcaught⟩
    | none =>
      dsimp only
      rw [bind_modify]
      refine (releaseMonitor_poised h₁ hnot hactive₁).bind fun _ m₂ ⟨h₂, hactive₂⟩ => ?_
      exact ih h₂ hactive₂

theorem handleTrap_poised {trap : Trap} (hm : trap.Leaves (Poised (some t) (t :: free)) m)
    (hnot : t ∉ free) :
    Ends (handleTrap t trap m)
      (fun ended m' => Poised (some t) (t :: free) m' ∧
        ∀ e, ended = some e → (∃ exception, e = .uncaught exception) ∧ m'.active = [])
      (Trap.Leaves fun _ => False) := by
  cases trap with
  | fatal error => trivial
  | outOfFuel => trivial
  | exception exception =>
    have hunwind : Ends (unwind t exception m)
        (fun caught m' => Poised (some t) (t :: free) m' ∧ (caught = false → m'.active = []))
        (Trap.Leaves fun _ => False) := by
      unfold unwind
      rw [bind_get]
      cases m.heap.get? exception with
      | none => trivial
      | some o => exact unwindFrames_poised exception o.type m.active hm hnot rfl
    unfold handleTrap
    refine hunwind.bind fun caught m₁ ⟨h₁, hgone⟩ => ?_
    cases caught with
    | true => exact ⟨h₁, fun e he => by cases he⟩
    | false =>
      refine ⟨h₁, fun e he => ?_⟩
      cases he
      exact ⟨⟨exception, rfl⟩, hgone rfl⟩

end Operations

end Machine

end ClassMachine
