import ClassMachine.Proofs.Machine.Creation
import ClassMachine.Proofs.Machine.LifeRuns
import ClassMachine.Proofs.Machine.Unwinding

/-!
Interrupts, whatever a host asks for. A mark that reaches a thread stays until it is raised: where the thread
is parked, when it is let run again, or else where it is about to park itself the next time. It is raised once,
and only where it was set.
-/
namespace ClassMachine

namespace Machine
open Stateful

variable {α β : Type} {m m' : Machine} {t : ThreadId}

section Hosts

variable {fuel : Nat}

/-- The scheduler turns to something else, which is nothing to threads. -/
theorem Governed.turned (h : Governed m) {s : Scheduler FrameStack} (ht : s.threads = m.scheduler.threads)
    (hn : s.nextId = m.scheduler.nextId) (hr : s.ready = m.scheduler.ready) :
    Governed { m with scheduler := s } ∧ Passive none m { m with scheduler := s } := by
  have hsame : m.scheduler.Wakes s := Scheduler.pointwise_of_threads_eq Thread.Woken.refl ht hn
  exact h.does (r := none) (by simp) (.one (.turn ht hn (hr ▸ .refl _)))
    (hsame.mono fun _ _ => Thread.Woken.heeds) (hsame.rotates h.claimed.rotates hr)

theorem Governed.turns (h : Governed m) {s : Scheduler FrameStack} (ht : s.threads = m.scheduler.threads)
    (hn : s.nextId = m.scheduler.nextId) (hr : s.ready = m.scheduler.ready) :
    Lives m { m with scheduler := s } := (h.turned ht hn hr).2.lives (h.turned ht hn hr).1

/-- A scheduler may wake threads, and interrupt them. -/
theorem Governed.wakes (h : Governed m) {s : Scheduler FrameStack} (hd : m.scheduler.Deeds none s)
    (hw : m.scheduler.Wakes s) (hr : s.Rotates) : Lives m { m with scheduler := s } := by
  obtain ⟨hg, hp⟩ := h.does (by simp) hd (hw.mono fun _ _ => Thread.Woken.heeds) hr
  exact hp.lives hg

/-- A thread that has lived on from slice to slice, as have all others. -/
theorem Lived.lives (h : Lived t (.resting, m) (.resting, m')) (ht : Able t m) (ht' : Able t m') : Lives m m' := by
  refine Spell.lives (t := t) ?_ h.toGoverned
  rw [ht.standing, ht'.standing]
  exact h.spell

/-- The slice is given back, which is nothing to threads. -/
theorem Lived.turns {a : Posture × Machine} {p : Posture} (h : Lived t a (p, m)) (hp : p.Waits) (ht : Able t m) :
    Able t { m with scheduler := m.scheduler.endSlice } ∧
      Lived t a (p, { m with scheduler := m.scheduler.endSlice }) := by
  have hm : Governed m := h.toGoverned
  obtain ⟨hg, hpassive⟩ := hm.turned (s := m.scheduler.endSlice) rfl rfl rfl
  exact ⟨ht.bides (hpassive.bides t (by simp)), hg, h.spell.trans (hpassive.spell hp)⟩

end Hosts

section Marks

variable {a b : Posture × Machine} {u : Thread FrameStack}

theorem flagged_iff (hu : m.scheduler.get? t = some u) : Flagged t m ↔ u.interrupted = true := by
  rw [← not_iff_not, not_flagged_iff hu, Bool.not_eq_true]

theorem Flagged.of_scheduler_eq (h : Flagged t m) (hs : m'.scheduler = m.scheduler) : Flagged t m' := by
  unfold Flagged
  rwa [hs]

/-- Once it is raised the mark is gone. -/
theorem Delivers.clear (h : Delivers t a b) : ¬Flagged t b.2 := by
  cases h with
  | throws hu halive h hraise hthrows hclear => exact hclear
  | checks hx hrun hflag hcheck hthrows h hclear => exact hclear

/-- To put frames away does nothing to the marks of a thread. -/
theorem Emptied.record (h : Emptied t m m') : ∃ f : Thread FrameStack → Thread FrameStack,
    m'.scheduler.get? t = (m.scheduler.get? t).map f ∧
      ∀ u, (f u).interrupted = u.interrupted ∧ (f u).interruptible = u.interruptible := by
  cases h with
  | dropped hs =>
    refine ⟨fun u => u, ?_, fun _ => ⟨rfl, rfl⟩⟩
    rw [hs]
    cases m.scheduler.get? t <;> rfl
  | saved =>
    refine ⟨fun u => { u with stack := m.active }, ?_, fun _ => ⟨rfl, rfl⟩⟩
    exact (Scheduler.get?_update _ _ _ _).trans (if_pos rfl)

theorem Emptied.flagged (h : Emptied t m m') (hflag : Flagged t m) : Flagged t m' := by
  obtain ⟨f, hf, hsame⟩ := h.record
  obtain ⟨u, hu, hmark⟩ := hflag
  rw [hu] at hf
  exact ⟨f u, hf, (hsame u).1.trans hmark⟩

/-- A mark stays, unless it is raised or the thread ends. -/
theorem Fares.flagged (h : Fares t a b) (hflag : Flagged t a.2) :
    Flagged t b.2 ∨ Delivers t a b ∨ b.1 = .over ∧ Ending t a.2 b.2 := by
  cases h with
  | delivers h => exact .inr (.inl h)
  | ends h => exact .inr (.inr ⟨rfl, h⟩)
  | works hx hrun h hkeeps => exact .inl (hkeeps hflag)
  | traps hx hrun hu hunparked hkeeps => exact .inl (hkeeps hflag)
  | handles h hkeeps => exact .inl (hkeeps hflag)
  | stops hx hrun hu hunparked hkeeps => exact .inl (hkeeps hflag)
  | enters hu hstack h => exact .inl hflag
  | starves h => exact .inl hflag
  | stays hfinal => exact .inl hflag
  | givesUp h => exact .inl hflag
  | rests hp => exact .inl (Emptied.saved.flagged hflag)
  | empties h => exact .inl (h.flagged hflag)
  | ceases hp h => exact .inl (h.flagged hflag)
  | parks h =>
    cases h with
    | intro hx hclear => exact absurd hflag hclear
  | @bides p m m' hp h =>
    obtain ⟨u, hu, hmark⟩ := hflag
    rw [hu] at h
    generalize hafter : m'.scheduler.get? t = after at h
    cases h with
    | some hbides => exact .inl ⟨_, hafter, hbides.interrupted hmark⟩
  | born hnext hnone hmade h hclear =>
    obtain ⟨u, hu, -⟩ := hflag
    cases hnone.symm.trans hu
  | goesOn hu halive h =>
    have hmark := (flagged_iff hu).1 hflag
    have hreached := h.reached
    rw [hmark, Bool.and_true] at hreached
    refine .inl ((flagged_iff h.record).2 ?_)
    rw [hmark, ← hreached]
    rfl

/-- A marked thread lives on with the mark, until that is raised or the thread ends. -/
theorem Life.marked (h : Life t a b) (hflag : Flagged t a.2) :
    ∃ c, Relation.ReflTransGen (fun c d => Fares t c d ∧ Flagged t d.2) a c ∧ Flagged t c.2 ∧
      (c = b ∨ ∃ d, Fares t c d ∧ (Delivers t c d ∨ d.1 = .over ∧ Ending t c.2 d.2) ∧ Life t d b) := by
  induction h using Relation.ReflTransGen.head_induction_on with
  | refl => exact ⟨b, .refl, hflag, .inl rfl⟩
  | head hfares hlife ih =>
    rcases hfares.flagged hflag with hnext | hdone
    · obtain ⟨c, hpath, hmark, hend⟩ := ih hnext
      exact ⟨c, .head ⟨hfares, hnext⟩ hpath, hmark, hend⟩
    · exact ⟨_, .refl, hflag, .inr ⟨_, hfares, hdone, hlife⟩⟩

/-- A thread that has ended does nothing any more. -/
theorem Life.over (h : Life t a b) (hover : a.1 = .over) : b.1 = .over := by
  induction h with
  | refl => exact hover
  | @tail b c _ hfares ih =>
    obtain ⟨p, n⟩ := b
    cases ih
    cases hfares with
    | bides hp h => rfl
    | rests hp => exact hp.elim
    | ceases hp h => exact hp.elim
    | delivers h => cases h

/-- A mark is there still, unless it was raised meanwhile or the thread has ended. -/
theorem Life.flagged (h : Life t a b) (hflag : Flagged t a.2) :
    Flagged t b.2 ∨ b.1 = .over ∨ ∃ c d, Life t a c ∧ Flagged t c.2 ∧ Delivers t c d ∧ Life t d b := by
  obtain ⟨c, hpath, hmark, rfl | ⟨d, -, hdelivers | ⟨hover, -⟩, hlife⟩⟩ := h.marked hflag
  · exact .inl hmark
  · exact .inr (.inr ⟨c, d, Relation.ReflTransGen.mono (fun _ _ h => h.1) _ _ hpath, hmark, hdelivers, hlife⟩)
  · exact .inr (.inl (hlife.over hover))

end Marks

section Parking

variable {a b c : Posture × Machine} {u : Thread FrameStack}

/-- How a parked thread with the record `u` is let run: it goes on after its call, or it raises there that it
was interrupted. -/
inductive LetRun (t : ThreadId) (u : Thread FrameStack) (m : Machine) : Posture × Machine → Prop
  | goesOn {m' : Machine} (hclear : u.interrupted = false) (h : LetOn t u m false m') : LetRun t u m (.running, m')
  | throws {m₁ m' : Machine} {trap : Trap} (hmark : u.interrupted = true) (h : LetOn t u m true m₁)
      (hraise : raise CoreName.interrupted none m₁ = (.error trap m' : EStateM.Result Trap Machine Unit))
      (hthrows : m₁.Throws CoreName.interrupted none (.error trap m' : EStateM.Result Trap Machine Unit))
      (hclear : ¬Flagged t m') : LetRun t u m (.trapped trap, m')

/-- What can come next for a parked thread. -/
theorem Fares.parked (h : Fares t (.resting, m) c) (hu : m.scheduler.get? t = some u) (hparked : u.interruptible = true) :
    (∃ m' u', c = (.resting, m') ∧ m'.scheduler.get? t = some u' ∧ Scheduler.Bides u u') ∨
      LetRun t u m c ∨ c = (.spent, m) ∧ GivesUp t m := by
  have hasleep : ¬Awake t m := by
    rintro ⟨w, hw, -, -, hunparked⟩
    cases hu.symm.trans hw
    exact absurd (hparked.symm.trans hunparked) (by simp)
  cases h with
  | @bides _ _ m' hp h =>
    rw [hu] at h
    generalize hafter : m'.scheduler.get? t = after at h
    cases h with
    | some hbides => exact .inl ⟨_, _, rfl, hafter, hbides⟩
  | enters hv hstack h => exact absurd h hasleep
  | starves h => exact absurd h.awake hasleep
  | goesOn hv halive h =>
    cases hu.symm.trans hv
    have hreached := h.reached
    rw [hparked, Bool.true_and] at hreached
    exact .inr (.inl (.goesOn hreached.symm h))
  | delivers h =>
    cases h with
    | throws hv halive h hraise hthrows hclear =>
      cases hu.symm.trans hv
      have hreached := h.reached
      rw [hparked, Bool.true_and] at hreached
      exact .inr (.inl (.throws hreached.symm h hraise hthrows hclear))
  | rests hp => exact hp.elim
  | ceases hp h => exact hp.elim
  | givesUp h => exact .inr (.inr ⟨rfl, h⟩)

/-- A parked thread stays as it is, but for marks, until it is let run, or the call that it was made for fails. -/
theorem Life.parked (h : Life t (.resting, m) b) (hu : m.scheduler.get? t = some u) (hparked : u.interruptible = true) :
    ∃ n u', Life t (.resting, m) (.resting, n) ∧ n.scheduler.get? t = some u' ∧ Scheduler.Bides u u' ∧
      (b = (.resting, n) ∨ (∃ c, LetRun t u' n c ∧ Life t c b) ∨ GivesUp t n ∧ Life t (.spent, n) b) := by
  generalize ha : (Posture.resting, m) = a at h
  induction h using Relation.ReflTransGen.head_induction_on generalizing m u with
  | refl => exact ⟨m, u, ha ▸ .refl, hu, .refl u, .inl ha.symm⟩
  | head hfares hlife ih =>
    subst ha
    rcases hfares.parked hu hparked with ⟨m', u', rfl, hu', hbides⟩ | hrun | ⟨rfl, hgives⟩
    · obtain ⟨n, v, hstays, hv, hbides', hrest⟩ := ih hu' (hbides.interruptible.trans hparked) rfl
      exact ⟨n, v, .head hfares hstays, hv, hbides.trans hbides', hrest⟩
    · exact ⟨m, u, .refl, hu, .refl u, .inr (.inl ⟨_, hrun, hlife⟩)⟩
    · exact ⟨m, u, .refl, hu, .refl u, .inr (.inr ⟨hgives, hlife⟩)⟩

/-- A thread that has parked itself rests with its frames. It has moved past a call, so the handlers that guard
it are those that guard the call; or it has no frames. -/
structure Sojourns (before : FrameStack) (u : Thread FrameStack) : Prop where
  isDetached : u.isDetached = true
  interruptible : u.interruptible = true
  interrupted : u.interrupted = false
  stack : before = [] ∧ u.stack = [] ∨ ∃ f rest i g, before = f :: rest ∧ f.code.get? f.pc = some i ∧
    i.isCall = true ∧ u.stack = g :: rest ∧ g.pc = f.pc + 1 ∧ ∀ table thrown, g.handler? table thrown =
      f.code.handlers.find? fun h => h.covers f.pc && h.catches.takes table thrown

theorem PastCall.handlers {before after : FrameStack} (h : PastCall before after) :
    ∃ f rest i g, before = f :: rest ∧ f.code.get? f.pc = some i ∧ i.isCall = true ∧ after = g :: rest ∧
      g.pc = f.pc + 1 ∧ ∀ table thrown, g.handler? table thrown =
        f.code.handlers.find? fun h => h.covers f.pc && h.catches.takes table thrown := by
  obtain ⟨f, rest, i, g, hbefore, hi, hcall, hafter, -, hcode, hpc⟩ := h
  refine ⟨f, rest, i, g, hbefore, hi, hcall, hafter, hpc, fun table thrown => ?_⟩
  unfold Frame.handler?
  rw [hpc, if_neg (Nat.succ_ne_zero _), Nat.add_sub_cancel, hcode]

theorem ParkingStep.rests {flow : Flow} (h : ParkingStep t m flow m') :
    ∃ u, (saveStack t m').scheduler.get? t = some u ∧ Sojourns m.active u := by
  cases h with
  | intro hx hclear hclear' h hrun hcall =>
    obtain ⟨u, hu, hdetached, hparked, hmark, -⟩ := h.record
    refine ⟨_, (get?_restack hu _ [] t).trans (if_pos rfl), hdetached, hparked, hmark, ?_⟩
    exact hcall.elim (fun h => .inr h.handlers) .inl

end Parking

section Handling

variable {e : Ref} {thrown : ClassId}

/-- Where an exception goes on: at the first handler that takes it, in the first frame that has one, with the
frames before that gone; or nowhere, if no frame has one. A frame cannot go when the object whose monitor is
held for it is no longer there. -/
inductive Lands (t : ThreadId) (e : Ref) (thrown : ClassId) (m : Machine) :
    EStateM.Result Trap Machine (Option SliceEnd) → Prop
  | caught {gone left : FrameStack} {f : Frame} {h : Handler} {c : ClassTable} (hactive : m.active = gone ++ f :: left)
      (hgone : ∀ g ∈ gone, m.Gives thrown g) (hf : f.handler? m.classes thrown = some h)
      (hc : m.classes.Concurs c) :
      Lands t e thrown m (.ok none (m.unwound t gone ({ f with stack := [.ref e], pc := h.target } :: left) c))
  | uncaught {c : ClassTable} (hall : ∀ f ∈ m.active, m.Gives thrown f) (hc : m.classes.Concurs c) :
      Lands t e thrown m (.ok (some (.uncaught e)) (m.unwound t m.active [] c))
  | held {gone left : FrameStack} {f : Frame} {r : Ref} {m' : Machine} (hactive : m.active = gone ++ f :: left)
      (hgone : ∀ g ∈ gone, m.Gives thrown g) (hf : f.handler? m.classes thrown = none) (hr : f.monitor = some r)
      (hdead : m.heap.get? r = none) :
      Lands t e thrown m (.error (.fatal (.inconsistent (.deadMonitor r))) m')

end Handling

section Unparked

variable {a b : Posture × Machine}

end Unparked

section Raising

end Raising

section Delivery

variable {n n' : Machine} {u : Thread FrameStack} {a b : Posture × Machine}

theorem Fares.handled {e : Ref} {d : Posture × Machine} (h : Fares t (.trapped (.exception e), m) d) :
    d = (.handled (handleTrap t (.exception e) m), final (handleTrap t (.exception e) m)) := by
  cases h with
  | delivers h => cases h
  | handles h hflag => rfl
  | rests hp => cases hp
  | ceases hp h => exact hp.elim
  | bides hp h => exact hp.elim

end Delivery

end Machine

end ClassMachine
