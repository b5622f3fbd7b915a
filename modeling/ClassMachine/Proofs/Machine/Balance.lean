import ClassMachine.Proofs.Heap.Monitors
import ClassMachine.Proofs.Link.Unmonitored
import ClassMachine.Proofs.Machine.Closed
import ClassMachine.Proofs.Sync.Stakes

/-!
Frames and monitors in balance. Every frame of a synchronized method stands for one level of the
monitor it was entered with, so a thread's stake in a monitor is the number of its frames that are
left with it. Making objects, collecting, linking and scheduling keep that balance.
-/
namespace ClassMachine

/-- How many of the frames are left with the monitor of an object. -/
def levels (frames : FrameStack) (o : Ref) : Nat := frames.countP fun f => f.monitor = some o

@[simp] theorem levels_nil (o : Ref) : levels [] o = 0 := rfl

theorem levels_cons (f : Frame) (rest : FrameStack) (o : Ref) :
    levels (f :: rest) o = levels rest o + if f.monitor = some o then 1 else 0 := by
  unfold levels
  rw [List.countP_cons]
  simp only [decide_eq_true_eq]

theorem exists_frame_of_levels_pos {frames : FrameStack} {o : Ref} (h : 0 < levels frames o) :
    ∃ f ∈ frames, f.monitor = some o := by
  obtain ⟨f, hf, hm⟩ := List.countP_pos_iff.1 h
  exact ⟨f, hf, of_decide_eq_true hm⟩

namespace Arena

variable {σ : Type} {a : Arena σ} {s : Scheduler σ}

theorem Orderly.heeds (h : a.Orderly) (hs : a.scheduler.Pointwise Thread.Heeds s) (hr : s.Rotates) :
    ({ a with scheduler := s } : Arena σ).Orderly where
  sound := h.sound
  waits o m hm token htoken := by
    obtain ⟨r, hr, hp⟩ := h.waits o m hm token htoken
    obtain ⟨r', hr', hh⟩ := hs.exists_of_some hr
    exact ⟨r', hr', hh.pending.trans hp⟩
  queues o m hm token htoken := by
    obtain ⟨r, reason, hr, hp⟩ := h.queues o m hm token htoken
    obtain ⟨r', hr', hh⟩ := hs.exists_of_some hr
    exact ⟨r', reason, hr', hh.pending.trans hp⟩
  stands t r' p hr' hp := by
    obtain ⟨r, hr, hh⟩ := hs.exists_of_some' hr'
    have hp₀ := hh.pending.symm.trans hp
    obtain ⟨ht, ha, m, hm, hst⟩ := h.stands t r p hr hp₀
    refine ⟨ht, hh.alive.trans ha, m, hm, ?_⟩
    cases hst with
    | waiting hreason hwait => exact .waiting hreason hwait
    | queued hqueue => exact .queued hqueue
    | handed howner hcount hready =>
      exact .handed howner hcount (hh.ready (by rw [hp₀]; exact Option.some_ne_none p) hready)
  numbered := hs.numbered h.numbered
  rotates := hr

theorem pending?_of_heeds (hs : a.scheduler.Pointwise Thread.Heeds s) (t : ThreadId) :
    ({ a with scheduler := s } : Arena σ).pending? t = a.pending? t :=
  Scheduler.bind_eq_of_rel (fun _ _ hh => hh.pending) (hs.record t)

/-- The record of a thread with nothing pending is taken out. -/
theorem Orderly.remove (h : a.Orderly) {t : ThreadId} {r : Thread σ} (hr : a.scheduler.get? t = some r)
    (hp : r.pending = none) : ({ a with scheduler := (a.scheduler.remove t).2 } : Arena σ).Orderly := by
  have hget : ∀ u, (a.scheduler.remove t).2.get? u = if t = u then none else a.scheduler.get? u :=
    fun u => Scheduler.get?_remove ..
  have hwaiting : ∀ {u s p}, a.scheduler.get? u = some s → s.pending = some p →
      (a.scheduler.remove t).2.get? u = some s := by
    intro u s p hs hps
    rw [hget, if_neg]
    · exact hs
    · rintro rfl
      cases hr.symm.trans hs
      rw [hp] at hps
      cases hps
  have hleft : ∀ {u s}, (a.scheduler.remove t).2.get? u = some s → a.scheduler.get? u = some s := by
    intro u s hs
    rw [hget] at hs
    split at hs
    · cases hs
    · exact hs
  refine ⟨h.sound, fun o n hn token htoken => ?_, fun o n hn token htoken => ?_,
    fun u s p hs hps => h.stands u s p (hleft hs) hps, fun u s hs => h.numbered u s (hleft hs), ?_⟩
  · obtain ⟨s, hs, hps⟩ := h.waits o n hn token htoken
    exact ⟨s, hwaiting hs hps, hps⟩
  · obtain ⟨s, reason, hs, hps⟩ := h.queues o n hn token htoken
    exact ⟨s, reason, hwaiting hs hps, hps⟩
  · exact Scheduler.rotates_of_withoutReady h.rotates t rfl fun u hu => by rw [hget, if_neg hu]

end Arena

/-- As seen by the order, with the same frames. -/
structure Thread.Calm (r r' : Thread FrameStack) : Prop extends Thread.Heeds r r' where
  stack : r'.stack = r.stack

theorem Thread.Calm.refl (r : Thread FrameStack) : r.Calm r := ⟨.refl r, rfl⟩

theorem Thread.Woken.calm {r r' : Thread FrameStack} (h : r.Woken r') : r.Calm r' := ⟨h.heeds, h.stack⟩

namespace Machine

def arena (m : Machine) : Arena FrameStack := ⟨m.heap, m.scheduler⟩

/-- The frames of a thread; those of the running one are kept apart from its record. -/
def framesOf (running : Option ThreadId) (m : Machine) (t : ThreadId) : FrameStack :=
  if running = some t then m.active else ((m.scheduler.get? t).map (·.stack)).getD []

/-- Stakes in monitors agree with frames, while monitors are entered and left with frames alone. -/
structure Balanced (running : Option ThreadId) (m : Machine) : Prop where
  orderly : m.arena.Orderly
  even : ∀ t o, m.arena.stake t o = levels (m.framesOf running t) o
  ended : ∀ t r, m.scheduler.get? t = some r → r.isAlive = false → r.stack = []
  addressed : m.heap.Addressed
  bodies : ∀ t, ∀ f ∈ m.framesOf running t, f.code.isUnmonitored = true
  classes : m.classes.Unmonitored
  noHost : ∀ id, m.natives.get? id = none

/-- Where the running thread is: its record is there and has no frames. With no thread running there
are no frames outside the records. -/
def Home (m : Machine) : Option ThreadId → Prop
  | none => m.active = []
  | some t => ∃ r, m.scheduler.get? t = some r ∧ r.isAlive = true ∧ r.stack = []

/-- A balanced machine in which some threads are known to have nothing pending. -/
structure Poised (running : Option ThreadId) (free : List ThreadId) (m : Machine) : Prop
    extends Balanced running m where
  free : ∀ t ∈ free, ∃ r, Sync.Free m.arena t r
  home : m.Home running

section Frames

variable {running : Option ThreadId} {m : Machine} {t : ThreadId}

@[simp] theorem framesOf_running (m : Machine) (t : ThreadId) : m.framesOf (some t) t = m.active := by
  unfold framesOf
  rw [if_pos rfl]

theorem framesOf_record {r : Thread FrameStack} (hne : running ≠ some t)
    (hr : m.scheduler.get? t = some r) : m.framesOf running t = r.stack := by
  unfold framesOf
  rw [if_neg hne, hr]
  rfl

theorem framesOf_missing (hne : running ≠ some t) (hr : m.scheduler.get? t = none) :
    m.framesOf running t = [] := by
  unfold framesOf
  rw [if_neg hne, hr]
  rfl

/-- Frames are looked up in the records and among the active ones. -/
theorem framesOf_congr {m' : Machine} (ha : m'.active = m.active)
    (hs : (m'.scheduler.get? t).map (·.stack) = (m.scheduler.get? t).map (·.stack)) :
    m'.framesOf running t = m.framesOf running t := by
  unfold framesOf
  rw [ha, hs]

/-- A collection starts from the monitors of all frames and from all monitors that are pending. -/
theorem mem_roots_of_frame {f : Frame} {o : Ref} (hf : f ∈ m.framesOf running t)
    (ho : f.monitor = some o) (hnull : o.isNull = false) : o ∈ m.roots := by
  have hroots := (within_iff_roots (S := fun r => r.isNull = true ∨ r ∈ m.roots) (fun _ h => .inl h)
    (m := m)).2 fun _ h => .inr h
  have hframe : f.Within fun r => r.isNull = true ∨ r ∈ m.roots := by
    unfold framesOf at hf
    split at hf
    · exact hroots.2.1 f hf
    · cases hr : m.scheduler.get? t with
      | none =>
        rw [hr] at hf
        cases hf
      | some r =>
        rw [hr] at hf
        exact (hroots.1 t r hr).stack f hf
  refine (hframe.monitor o ho).resolve_left ?_
  rw [hnull]
  exact Bool.false_ne_true

theorem mem_roots_of_pending {r : Thread FrameStack} {p : PendingMonitor}
    (hr : m.scheduler.get? t = some r) (hp : r.pending = some p) (hnull : p.object.isNull = false) :
    p.object ∈ m.roots := by
  have hroots := (within_iff_roots (S := fun r => r.isNull = true ∨ r ∈ m.roots) (fun _ h => .inl h)
    (m := m)).2 fun _ h => .inr h
  refine ((hroots.1 t r hr).pending p hp).resolve_left ?_
  rw [hnull]
  exact Bool.false_ne_true

end Frames

section Changes

variable {running : Option ThreadId} {free : List ThreadId} {m : Machine}

/-- Only heap, records, active frames, classes and natives matter. -/
theorem Poised.congr (h : Poised running free m) {m' : Machine} (hheap : m'.heap = m.heap)
    (hs : m'.scheduler = m.scheduler) (ha : m'.active = m.active)
    (hc : m.classes.Unmonitored → m'.classes.Unmonitored) (hn : m'.natives = m.natives) :
    Poised running free m' := by
  have harena : m'.arena = m.arena := by
    unfold arena
    rw [hheap, hs]
  have hframes : ∀ t, m'.framesOf running t = m.framesOf running t := fun t =>
    framesOf_congr ha (by rw [hs])
  refine ⟨⟨harena ▸ h.orderly, fun t o => ?_, fun t r hr => ?_, hheap ▸ h.addressed, fun t => ?_,
    hc h.classes, hn ▸ h.noHost⟩, fun t ht => ?_, ?_⟩
  · rw [harena, hframes]
    exact h.even t o
  · rw [hs] at hr
    exact h.ended t r hr
  · rw [hframes]
    exact h.bodies t
  · rw [harena]
    exact h.free t ht
  · have hhome := h.home
    unfold Home at hhome ⊢
    rw [hs, ha]
    exact hhome

/-- Threads come, go and move their frames, as long as nothing pending and no frame gets lost. -/
theorem Poised.rearrange (h : Poised running free m) {s : Scheduler FrameStack} {active : FrameStack}
    {running' : Option ThreadId} {free' : List ThreadId}
    (horderly : (⟨m.heap, s⟩ : Arena FrameStack).Orderly)
    (hpending : ∀ t, (⟨m.heap, s⟩ : Arena FrameStack).pending? t = m.arena.pending? t)
    (hframes : ∀ t, ({ m with scheduler := s, active := active } : Machine).framesOf running' t =
      m.framesOf running t)
    (hended : ∀ t r, s.get? t = some r → r.isAlive = false → r.stack = [])
    (hfree : ∀ t ∈ free', ∃ r, Sync.Free (⟨m.heap, s⟩ : Arena FrameStack) t r)
    (hhome : ({ m with scheduler := s, active := active } : Machine).Home running') :
    Poised running' free' { m with scheduler := s, active := active } := by
  refine ⟨⟨horderly, fun t o => ?_, hended, h.addressed, fun t => ?_, h.classes, h.noHost⟩, hfree, hhome⟩
  · rw [hframes, ← h.even t o]
    exact Arena.stake_congr (hpending t) fun _ => rfl
  · rw [hframes]
    exact h.bodies t

/-- Records change as the order does not see. -/
theorem Poised.relocate (h : Poised running free m) {s : Scheduler FrameStack} {active : FrameStack}
    {running' : Option ThreadId} (hs : m.scheduler.Pointwise Thread.Heeds s) (hr : s.Rotates)
    (hframes : ∀ t, ({ m with scheduler := s, active := active } : Machine).framesOf running' t =
      m.framesOf running t)
    (hended : ∀ t r, s.get? t = some r → r.isAlive = false → r.stack = [])
    (hhome : ({ m with scheduler := s, active := active } : Machine).Home running') :
    Poised running' free { m with scheduler := s, active := active } := by
  refine h.rearrange (h.orderly.heeds hs hr) (Arena.pending?_of_heeds (a := m.arena) hs) hframes hended
    (fun t ht => ?_) hhome
  obtain ⟨r, hfree⟩ := h.free t ht
  obtain ⟨r', hr', hh⟩ := hs.exists_of_some hfree.record
  exact ⟨r', hr', hh.pending.trans hfree.pending, hh.alive.trans hfree.alive⟩

/-- Records change in ways that show neither in the order nor in the frames. -/
theorem Poised.calm (h : Poised running free m) {s : Scheduler FrameStack}
    (hs : m.scheduler.Pointwise Thread.Calm s) (hr : s.Rotates) :
    Poised running free { m with scheduler := s } := by
  refine h.relocate (hs.mono fun _ _ hc => hc.toHeeds) hr (fun t => ?_) (fun t r' hr' hdead => ?_) ?_
  · exact framesOf_congr rfl (Scheduler.map_eq_of_rel (fun _ _ hc => hc.stack) (hs.record t))
  · obtain ⟨r, hr, hc⟩ := hs.exists_of_some' hr'
    exact hc.stack.trans (h.ended t r hr (hc.alive ▸ hdead))
  · cases running with
    | none => exact h.home
    | some t =>
      obtain ⟨r, hr, halive, hstack⟩ := h.home
      obtain ⟨r', hr', hc⟩ := hs.exists_of_some hr
      exact ⟨r', hr', hc.alive.trans halive, hc.stack.trans hstack⟩

theorem Balanced.isNull_eq_false (h : Balanced running m) {o : Ref} {n : Monitor}
    (hn : m.heap.monitor? o = some n) : o.isNull = false := by
  cases hnull : o.isNull with
  | false => rfl
  | true =>
    have ho : o = .null := by
      cases o
      simpa [Ref.isNull, Ref.null] using hnull
    subst ho
    unfold Heap.monitor? at hn
    rw [h.addressed.null] at hn
    cases hn

/-- An object that is gone was in the monitor of no frame. -/
theorem Balanced.depth_of_respects (h : Balanced running m) {heap : Heap}
    (hr : m.heap.Respects m.roots heap) {t : ThreadId} {o : Ref}
    (haway : ∀ p, m.arena.pending? t = some p → p.object ≠ o) :
    (⟨heap, m.scheduler⟩ : Arena FrameStack).depth t o = m.arena.depth t o := by
  show ((heap.monitor? o).map (·.depth t)).getD 0 = ((m.heap.monitor? o).map (·.depth t)).getD 0
  cases hafter : heap.monitor? o with
  | some n =>
    rcases hr.others o n hafter with hbefore | ⟨hbefore, rfl⟩
    · rw [hbefore]
    · rw [hbefore]
      rfl
  | none =>
    cases hbefore : m.heap.monitor? o with
    | none => rfl
    | some n =>
      have hzero : m.arena.depth t o = 0 := by
        by_contra hpos
        rw [← Arena.stake_of_elsewhere haway, h.even t o] at hpos
        obtain ⟨f, hf, hmonitor⟩ := exists_frame_of_levels_pos (Nat.pos_of_ne_zero hpos)
        have hroot := mem_roots_of_frame hf hmonitor (h.isNull_eq_false hbefore)
        have hkept := hr.kept o hroot n hbefore
        rw [hafter] at hkept
        cases hkept
      rw [← hbefore]
      exact hzero.symm

theorem Balanced.orderly_of_respects (h : Balanced running m) {heap : Heap}
    (hr : m.heap.Respects m.roots heap) : (⟨heap, m.scheduler⟩ : Arena FrameStack).Orderly := by
  have hsame : ∀ o n, heap.monitor? o = some n → m.heap.monitor? o = some n ∨ n = {} := by
    intro o n hn
    rcases hr.others o n hn with hbefore | ⟨_, hfresh⟩
    · exact .inl hbefore
    · exact .inr hfresh
  refine ⟨fun o n hn => ?_, fun o n hn token htoken => ?_, fun o n hn token htoken => ?_,
    fun t r p hrec hp => ?_, h.orderly.numbered, h.orderly.rotates⟩
  · rcases hsame o n hn with hbefore | rfl
    · exact h.orderly.sound o n hbefore
    · exact Monitor.sound_fresh
  · rcases hsame o n hn with hbefore | rfl
    · exact h.orderly.waits o n hbefore token htoken
    · cases htoken
  · rcases hsame o n hn with hbefore | rfl
    · exact h.orderly.queues o n hbefore token htoken
    · cases htoken
  · obtain ⟨hthread, halive, n, hn, hstands⟩ := h.orderly.stands t r p hrec hp
    have hroot := mem_roots_of_pending hrec hp (h.isNull_eq_false hn)
    exact ⟨hthread, halive, n, hr.kept p.object hroot n hn, hstands⟩

/-- A change of the heap that spares the monitors of what the machine holds on to. -/
theorem Poised.heap (h : Poised running free m) {heap : Heap} (hr : m.heap.Respects m.roots heap) :
    Poised running free { m with heap := heap } := by
  refine ⟨⟨h.orderly_of_respects hr, fun t o => ?_, h.ended, hr.addressed h.addressed, h.bodies,
    h.classes, h.noHost⟩, fun t ht => ?_, h.home⟩
  · have hstake : (⟨heap, m.scheduler⟩ : Arena FrameStack).stake t o = m.arena.stake t o :=
      Arena.stake_congr rfl fun haway => h.depth_of_respects hr haway
    exact hstake.trans (h.even t o)
  · obtain ⟨r, hfree⟩ := h.free t ht
    exact ⟨r, hfree.record, hfree.pending, hfree.alive⟩

/-- The active frames change, and none of them gets or loses a monitor. -/
theorem Poised.frames (h : Poised running free m) {frames : FrameStack}
    (hlevels : ∀ o, levels frames o = levels m.active o)
    (hbodies : (∀ f ∈ m.active, f.code.isUnmonitored = true) →
      ∀ f ∈ frames, f.code.isUnmonitored = true)
    (hempty : running = none → m.active = [] → frames = []) :
    Poised running free { m with active := frames } := by
  refine ⟨⟨h.orderly, fun t o => ?_, h.ended, h.addressed, fun t => ?_, h.classes, h.noHost⟩, h.free, ?_⟩
  · have heven := h.even t o
    unfold framesOf at heven ⊢
    split
    · next hrun =>
      rw [if_pos hrun] at heven
      rw [hlevels]
      exact heven
    · next hrun =>
      rw [if_neg hrun] at heven
      exact heven
  · have hold := h.bodies t
    unfold framesOf at hold ⊢
    split
    · next hrun =>
      rw [if_pos hrun] at hold
      exact hbodies hold
    · next hrun =>
      rw [if_neg hrun] at hold
      exact hold
  · cases running with
    | none => exact hempty rfl h.home
    | some t => exact h.home

/-- Fewer threads are asked to be free. -/
theorem Poised.forget {t : ThreadId} (h : Poised running (t :: free) m) : Poised running free m :=
  ⟨h.toBalanced, fun u hu => h.free u (List.mem_cons_of_mem t hu), h.home⟩

end Changes

section Stacks

variable {free : List ThreadId} {m : Machine} {t : ThreadId}

/-- The machine with frames put into a record and others out of the records. -/
def restack (t : ThreadId) (stored active : FrameStack) (m : Machine) : Machine :=
  { m with
    scheduler := m.scheduler.update t fun r => { r with stack := stored }
    active := active }

theorem get?_restack {r : Thread FrameStack} (hr : m.scheduler.get? t = some r)
    (stored active : FrameStack) (u : ThreadId) :
    (restack t stored active m).scheduler.get? u =
      if t = u then some { r with stack := stored } else m.scheduler.get? u := by
  show (m.scheduler.update t _).get? u = _
  rw [Scheduler.get?_update]
  split
  · next hu => rw [← hu, hr]; rfl
  · rfl

/-- The frames of one live thread are moved. -/
theorem Poised.restack {running running' : Option ThreadId} (h : Poised running free m)
    {r : Thread FrameStack} (hr : m.scheduler.get? t = some r) (halive : r.isAlive = true)
    {stored active : FrameStack}
    (hrunning : ∀ u, u ≠ t → running ≠ some u ∧ running' ≠ some u)
    (hself : (Machine.restack t stored active m).framesOf running' t = m.framesOf running t)
    (hhome : (Machine.restack t stored active m).Home running') :
    Poised running' free (Machine.restack t stored active m) := by
  have hheeds : m.scheduler.Pointwise Thread.Heeds
      (m.scheduler.update t fun r => { r with stack := stored }) :=
    m.scheduler.update_pointwise Thread.Heeds.refl t fun _ => ⟨rfl, rfl, fun _ h => h⟩
  refine h.relocate hheeds (Scheduler.update_rotates h.orderly.rotates t fun _ => rfl) (fun u => ?_)
    (fun u r' hr' hdead => ?_) hhome
  · by_cases hu : u = t
    · subst hu
      exact hself
    · obtain ⟨hne, hne'⟩ := hrunning u hu
      unfold framesOf
      rw [if_neg hne, if_neg hne']
      have hget := get?_restack hr stored active u
      rw [if_neg (Ne.symm hu)] at hget
      exact congrArg (fun o : Option (Thread FrameStack) => (o.map (·.stack)).getD []) hget
  · have hget := get?_restack hr stored active u
    rw [show (Machine.restack t stored active m).scheduler.get? u = some r' from hr'] at hget
    split at hget
    · cases hget
      exact absurd (halive.symm.trans hdead) (by simp)
    · exact h.ended u r' hget.symm hdead

/-- The frames of the running thread go into its record. -/
theorem Poised.saveStack (h : Poised (some t) free m) : Poised none free (saveStack t m) := by
  obtain ⟨r, hr, halive, _⟩ := h.home
  refine h.restack hr halive (fun u hu => ⟨by simpa using Ne.symm hu, by simp⟩) ?_ rfl
  have hget := get?_restack hr m.active [] t
  rw [if_pos rfl] at hget
  rw [framesOf_running, framesOf_record (by simp) hget]

theorem takeStack_eq {r : Thread FrameStack} (hr : m.scheduler.get? t = some r) :
    takeStack t m = restack t [] r.stack m := by
  unfold takeStack
  rw [hr]
  rfl

theorem get?_takeStack {r : Thread FrameStack} (hr : m.scheduler.get? t = some r) :
    (takeStack t m).scheduler.get? t = some { r with stack := [] } := by
  rw [takeStack_eq hr, get?_restack hr, if_pos rfl]

/-- The frames of a thread come out of its record. -/
theorem Poised.takeStack (h : Poised none free m) {r : Thread FrameStack}
    (hr : m.scheduler.get? t = some r) (halive : r.isAlive = true) :
    Poised (some t) free (takeStack t m) := by
  have hget := get?_takeStack hr
  rw [takeStack_eq hr] at hget ⊢
  refine h.restack hr halive (fun u hu => ⟨by simp, by simpa using Ne.symm hu⟩) ?_ ⟨_, hget, halive, rfl⟩
  rw [framesOf_running, framesOf_record (by simp) hr]
  rfl

/-- A record that changes places with the running thread's frames takes them in, or gives its own. -/
theorem swapStack_of_running (h : Poised (some t) free m) : swapStack t m = saveStack t m := by
  obtain ⟨r, hr, _, hstack⟩ := h.home
  unfold swapStack saveStack
  rw [hr]
  dsimp only
  rw [hstack]

theorem swapStack_of_idle (h : Poised none free m) : swapStack t m = takeStack t m := by
  have hactive : m.active = [] := h.home
  unfold swapStack takeStack
  rw [hactive]

theorem framesOf_start {r : Thread FrameStack} (hr : m.scheduler.get? t = some r)
    (hsame : m.active = r.stack) (u : ThreadId) : m.framesOf (some t) u = m.framesOf none u := by
  by_cases hu : u = t
  · subst hu
    rw [framesOf_running, framesOf_record (by simp) hr, hsame]
  · unfold framesOf
    rw [if_neg (by simpa using Ne.symm hu), if_neg (by simp)]

/-- A thread without frames may be taken to run, and not to run. -/
theorem Poised.starts (h : Poised none free m) {r : Thread FrameStack}
    (hr : m.scheduler.get? t = some r) (halive : r.isAlive = true) (hstack : r.stack = []) :
    Poised (some t) free m :=
  h.relocate (.refl Thread.Heeds.refl _) h.orderly.rotates
    (framesOf_start hr ((show m.active = [] from h.home).trans hstack.symm)) h.ended
    ⟨r, hr, halive, hstack⟩

theorem Poised.rests (h : Poised (some t) free m) (hactive : m.active = []) : Poised none free m := by
  obtain ⟨r, hr, _, hstack⟩ := h.home
  exact h.relocate (.refl Thread.Heeds.refl _) h.orderly.rotates
    (fun u => (framesOf_start hr (hactive.trans hstack.symm) u).symm) h.ended hactive

end Stacks

section Threads

variable {running : Option ThreadId} {free : List ThreadId} {m : Machine} {t : ThreadId}

theorem Poised.running_ne (h : Poised running free m) (ht : m.scheduler.get? t = none) :
    running ≠ some t := by
  rintro rfl
  obtain ⟨r, hr, _⟩ := h.home
  rw [ht] at hr
  cases hr

theorem Poised.get?_nextId (h : Poised running free m) : m.scheduler.get? m.scheduler.nextId = none := by
  cases hr : m.scheduler.get? m.scheduler.nextId with
  | none => rfl
  | some r => exact absurd (h.orderly.numbered _ r hr) (by simp [arena])

/-- A new thread has no frames and owns nothing. -/
theorem Poised.spawn (h : Poised running free m) (hn : m.scheduler.nextId ≠ 0xffffffff) (object : Ref) :
    Poised running (m.scheduler.nextId :: free)
      { m with scheduler := (m.scheduler.spawn object []).2 } := by
  have hnone := h.get?_nextId
  have hget : ∀ u, (m.scheduler.spawn object []).2.get? u =
      if m.scheduler.nextId = u then some { id := m.scheduler.nextId, object := object, stack := [] }
      else m.scheduler.get? u := fun u => Scheduler.get?_spawn ..
  have hold : ∀ {u r}, m.scheduler.get? u = some r →
      (m.scheduler.spawn object []).2.get? u = some r := by
    intro u r hr
    rw [hget, if_neg]
    · exact hr
    · rintro rfl
      rw [hnone] at hr
      cases hr
  refine h.rearrange (h.orderly.spawn hn object []) (fun u => ?_) (fun u => ?_) (fun u r hr hdead => ?_)
    (fun u hu => ?_) ?_
  · unfold Arena.pending?
    show ((m.scheduler.spawn object []).2.get? u).bind _ = (m.scheduler.get? u).bind _
    rw [hget]
    split
    · next hu => rw [← hu, hnone]; rfl
    · rfl
  · by_cases hu : m.scheduler.nextId = u
    · subst hu
      have hrec := (hget m.scheduler.nextId).trans (if_pos rfl)
      rw [framesOf_missing (h.running_ne hnone) hnone]
      exact framesOf_record (m := { m with scheduler := (m.scheduler.spawn object []).2 })
        (h.running_ne hnone) hrec
    · refine framesOf_congr rfl ?_
      show ((m.scheduler.spawn object []).2.get? u).map _ = _
      rw [hget, if_neg hu]
  · rw [hget] at hr
    split at hr
    · cases hr
      rfl
    · exact h.ended u r hr hdead
  · rcases List.mem_cons.1 hu with rfl | hu
    · exact ⟨{ id := m.scheduler.nextId, object := object, stack := [] },
        (hget m.scheduler.nextId).trans (if_pos rfl), rfl, rfl⟩
    · obtain ⟨r, hfree⟩ := h.free u hu
      exact ⟨r, hold hfree.record, hfree.pending, hfree.alive⟩
  · cases running with
    | none => exact h.home
    | some u =>
      obtain ⟨r, hr, halive, hstack⟩ := h.home
      exact ⟨r, hold hr, halive, hstack⟩

/-- A thread that has come to the end of its frames is ended. -/
theorem Poised.terminate (h : Poised running (t :: free) m) (hne : running ≠ some t) (hnot : t ∉ free)
    (hstack : m.framesOf running t = []) :
    Poised running free { m with scheduler := (m.scheduler.terminate t).2 } := by
  obtain ⟨r, hself⟩ := h.free t List.mem_cons_self
  have hundisturbed := Arena.terminate_undisturbed hself.record hself.pending
  have hstacks := m.scheduler.terminate_alike t
  refine h.rearrange (h.orderly.undisturbed hundisturbed (Scheduler.terminate_rotates h.orderly.rotates t))
    (fun u => ?_) (fun u => ?_) (fun u r' hr' hdead => ?_) (fun u hu => ?_) ?_
  · exact Scheduler.bind_eq_of_rel (fun _ _ hu => hu.pending) (hundisturbed.record u)
  · exact framesOf_congr rfl (Scheduler.map_eq_of_rel (fun _ _ ha => ha.stack) (hstacks.record u))
  · by_cases hu : u = t
    · subst hu
      obtain ⟨r₀, hr₀, ha⟩ := hstacks.exists_of_some' hr'
      rw [framesOf_record hne hr₀] at hstack
      exact ha.stack.trans hstack
    · obtain ⟨r₀, hr₀, hw⟩ := m.scheduler.terminate_others' hu hr'
      exact hw.stack.trans (h.ended u r₀ hr₀ (hw.heeds.alive ▸ hdead))
  · have hu' : u ≠ t := by
      rintro rfl
      exact hnot hu
    obtain ⟨r₀, hfree⟩ := h.free u (List.mem_cons_of_mem t hu)
    obtain ⟨r', hr', hw⟩ := m.scheduler.terminate_others hu' hfree.record
    exact ⟨r', hr', hw.pending.trans hfree.pending, hw.heeds.alive.trans hfree.alive⟩
  · cases running with
    | none => exact h.home
    | some u =>
      obtain ⟨r₀, hr₀, halive, hempty⟩ := h.home
      have hu : u ≠ t := by simpa using hne
      obtain ⟨r', hr', hw⟩ := m.scheduler.terminate_others hu hr₀
      exact ⟨r', hr', hw.heeds.alive.trans halive, hw.stack.trans hempty⟩

/-- A record without frames, with nothing pending, is taken out. -/
theorem Poised.remove (h : Poised running free m) (hne : running ≠ some t) (hnot : t ∉ free)
    {r : Thread FrameStack} (hr : m.scheduler.get? t = some r) (hp : r.pending = none)
    (hstack : r.stack = []) : Poised running free { m with scheduler := (m.scheduler.remove t).2 } := by
  have hget : ∀ u, (m.scheduler.remove t).2.get? u = if t = u then none else m.scheduler.get? u :=
    fun u => Scheduler.get?_remove ..
  have hkept : ∀ {u s}, t ≠ u → m.scheduler.get? u = some s →
      (m.scheduler.remove t).2.get? u = some s := by
    intro u s hu hs
    rw [hget, if_neg hu]
    exact hs
  refine h.rearrange (h.orderly.remove hr hp) (fun u => ?_) (fun u => ?_) (fun u s hs hdead => ?_)
    (fun u hu => ?_) ?_
  · unfold Arena.pending?
    show ((m.scheduler.remove t).2.get? u).bind _ = (m.scheduler.get? u).bind _
    rw [hget]
    split
    · next hu => rw [← hu, hr]; exact hp.symm
    · rfl
  · by_cases hu : t = u
    · subst hu
      have hrec := hget t
      rw [if_pos rfl] at hrec
      rw [framesOf_record hne hr, hstack]
      exact framesOf_missing hne hrec
    · refine framesOf_congr rfl ?_
      show ((m.scheduler.remove t).2.get? u).map _ = _
      rw [hget, if_neg hu]
  · rw [hget] at hs
    split at hs
    · cases hs
    · exact h.ended u s hs hdead
  · have hu' : t ≠ u := by
      rintro rfl
      exact hnot hu
    obtain ⟨s, hfree⟩ := h.free u hu
    exact ⟨s, hkept hu' hfree.record, hfree.pending, hfree.alive⟩
  · cases running with
    | none => exact h.home
    | some u =>
      obtain ⟨s, hs, halive, hempty⟩ := h.home
      have hu : t ≠ u := by
        rintro rfl
        exact hne rfl
      exact ⟨s, hkept hu hs, halive, hempty⟩

end Threads

end Machine

end ClassMachine
