import ClassMachine.Proofs.Machine.Balance
import ClassMachine.Proofs.Machine.PassageRuns
import ClassMachine.Proofs.Machine.InStep
import ClassMachine.Proofs.Machine.Upholding
import ClassMachine.Proofs.Sync.Claims

/-!
The lives of threads. A thread is made, and from one moment to the next it is left alone, goes on, parks
itself in a call that an interrupt can end, or is let on again, with or without an exception; it ends when
its last frame is gone, or when the call it was made for has failed. A run tells the life of every thread at
once: of the one that acts, and of all others, among them those that are only made on the way.
-/
namespace ClassMachine

/-- An exception, which a handler may take. -/
def Trap.isException : Trap → Bool
  | .exception _ => true
  | _ => false

namespace Machine
open Stateful

variable {m m' m'' n : Machine} {t : ThreadId}

/-- A live thread that waits for nothing and is not parked in a call. -/
def Awake (t : ThreadId) (m : Machine) : Prop :=
  ∃ u, m.scheduler.get? t = some u ∧ u.isAlive = true ∧ u.pending = none ∧ u.interruptible = false

/-- A thread is marked as interrupted. -/
def Flagged (t : ThreadId) (m : Machine) : Prop :=
  ∃ u, m.scheduler.get? t = some u ∧ u.interrupted = true

/-- A thread parks itself where an interrupt reaches it: it sleeps, waits, or joins another. -/
inductive Parking (t : ThreadId) (m m' : Machine) : Prop
  | sleep (timeout : Timeout)
      (h : (onScheduler (·.detach t timeout) >>= fun _ => setInterruptible t) m = .ok () m')
  | wait (object : Ref) (timeout : Timeout)
      (h : (synchronize (Sync.wait t object timeout) >>= fun _ => setInterruptible t) m = .ok () m')
  | join (target : ThreadId) (h : (onScheduler (·.join t target) >>= fun joined =>
      if joined then setInterruptible t else pure ⟨⟩) m = .ok () m')

/-- What a thread parks itself with: its frames, and the monitor it has let go of, with the depth at which it
owned it. -/
structure ParkedFrom (t : ThreadId) (m m' : Machine) : Prop where
  parking : Parking t m m'
  active : m'.active = m.active
  record : ∃ u, m'.scheduler.get? t = some u ∧ u.isDetached = true ∧ u.interruptible = true ∧
    u.interrupted = false ∧ ∀ p, u.pending = some p → m.arena.Owns t p

/-- A thread with the record `u` is let on: it has its frames, owns the monitor it waited for, and is not parked
any more. What is told is whether a mark reached it while it was parked; such a mark is used up. -/
structure LetOn (t : ThreadId) (u : Thread FrameStack) (m : Machine) (interrupted : Bool) (m' : Machine) : Prop where
  resumed : ∃ outcome m₁, onSync (Sync.resume t) (takeStack t { m with yieldRequested := false }) =
    .ok (.ok outcome) m₁ ∧ outcome ≠ .blocked ∧ takeParkedInterrupt t m₁ = .ok interrupted m'
  reached : interrupted = (u.interruptible && u.interrupted)
  active : m'.active = u.stack
  record : m'.scheduler.get? t = some { u with
    stack := [], pending := none, interruptible := false, interrupted := u.interrupted && !u.interruptible }
  owns : ∀ p, u.pending = some p → m'.arena.Owns t p

/-- The frame in front stands at a call, and it has moved past that since. -/
def PastCall (before after : FrameStack) : Prop :=
  ∃ f rest i g, before = f :: rest ∧ f.code.get? f.pc = some i ∧ i.isCall = true ∧
    after = g :: rest ∧ g.method = f.method ∧ g.code = f.code ∧ g.pc = f.pc + 1

/-- A live thread that is to enter its first method. -/
def Newborn (t : ThreadId) (m : Machine) : Prop :=
  ∃ u, m.scheduler.get? t = some u ∧ u.isAlive = true ∧ u.pending = none ∧ u.interruptible = false ∧ u.stack = []

/-- What a thread is about. While it rests its frames are in its record. One that is trapped looks for a handler
next; one that has failed was about to enter its first method, and has no frames to look through. One that is
done has left its last frame; once its frames are out of the way it is spent, and has only to end. -/
inductive Posture where
  | unborn
  | resting
  | running
  | trapped (trap : Trap)
  | failed (trap : Trap)
  | stopped
  | done
  | spent
  | over

/-- What a thread is about between slices, as far as its record tells. -/
def standing (t : ThreadId) (m : Machine) : Posture :=
  match m.scheduler.get? t with
  | some u => if u.isAlive then .resting else .over
  | none => if t < m.scheduler.nextId then .over else .unborn

/-- What a running thread does as one, and what it is about if that fails: an instruction, or what its first
method begins with. -/
inductive Undertaking (fuel : Nat) (t : ThreadId) : (Trap → Posture) → MachineM Flow → Prop
  | performs : Undertaking fuel t .trapped (executeOne (nested fuel) t)
  | prepares (id : ClassId) :
      Undertaking fuel t .failed (ensureInitialized (nested fuel) t id >>= fun _ => pure .next)
  | calls (method : MethodId) (args : List Value) :
      Undertaking fuel t .failed (invokeMethod (nested fuel) t method args)

/-- Whether a thread may put its frames away and rest. One with an exception may not, before it is handled. -/
def Posture.Idles : Posture → Prop
  | .running | .stopped => True
  | .trapped trap => trap.isException = false
  | _ => False

/-- Whether a thread has nothing left to do. -/
def Posture.Ceases : Posture → Prop
  | .done | .failed _ => True
  | _ => False

/-- Whether others may act. -/
def Posture.Waits : Posture → Prop
  | .running | .trapped _ | .stopped | .done => False
  | _ => True

/-- What a thread is about after an instruction. -/
def Posture.after : Flow → Posture
  | .next => .running
  | .pause => .stopped
  | .finished _ => .done

/-- What a thread is about once a trap was handed to its frames. -/
def Posture.handled : EStateM.Result Trap Machine (Option SliceEnd) → Posture
  | .ok none _ => .running
  | .ok (some _) _ => .done
  | .error _ _ => .stopped

/-- An interrupt is raised in a thread that was marked for it, and the mark is gone. -/
inductive Delivers (t : ThreadId) : Posture × Machine → Posture × Machine → Prop
  /-- It reached the thread while that was parked, and is raised where the thread is parked. -/
  | throws {m m₁ m' : Machine} {u : Thread FrameStack} {trap : Trap} (hu : m.scheduler.get? t = some u)
      (halive : u.isAlive = true) (h : LetOn t u m true m₁)
      (hraise : raise CoreName.interrupted none m₁ = (.error trap m' : EStateM.Result Trap Machine Unit))
      (hthrows : m₁.Throws CoreName.interrupted none (.error trap m' : EStateM.Result Trap Machine Unit))
      (hclear : ¬Flagged t m') : Delivers t (.resting, m) (.trapped trap, m')
  /-- It came before, and is raised where the thread is about to park itself. -/
  | checks {fuel : Nat} {fails : Trap → Posture} {x : MachineM Flow} {m n m' : Machine} {trap : Trap}
      (hx : Undertaking fuel t fails x)
      (hrun : x m = .error trap m') (hflag : Flagged t n) (hcheck : checkInterrupt t n = .error trap m')
      (hthrows : Throws { n with scheduler := (n.scheduler.takeInterrupt t).2 } CoreName.interrupted none
        (.error trap m' : EStateM.Result Trap Machine Unit))
      (h : Awake t m') (hclear : ¬Flagged t m') : Delivers t (.running, m) (fails trap, m')

/-- A thread that is not marked parks itself. It is at a call, unless it has no frames, its first method being
native. -/
inductive ParkingStep (t : ThreadId) (m : Machine) : Flow → Machine → Prop
  | intro {fuel : Nat} {fails : Trap → Posture} {x : MachineM Flow} {n n' : Machine} {flow : Flow}
      {result : Option Value} (hx : Undertaking fuel t fails x) (hclear : ¬Flagged t m) (hclear' : ¬Flagged t n)
      (h : ParkedFrom t n n')
      (hrun : x m = .ok flow { n' with active := returned result n.active, yieldRequested := false })
      (hcall : PastCall m.active (returned result n.active) ∨ m.active = [] ∧ returned result n.active = []) :
      ParkingStep t m flow { n' with active := returned result n.active, yieldRequested := false }

/-- Frames are put away, or were of no use any more. -/
inductive Emptied (t : ThreadId) (m : Machine) : Machine → Prop
  | saved : Emptied t m (saveStack t m)
  | dropped {m' : Machine} (hs : m'.scheduler = m.scheduler) : Emptied t m m'

/-- The call that a thread was made for has failed, be it in the middle of a slice or because nothing can wake
the thread. -/
inductive GivesUp (t : ThreadId) (m : Machine) : Prop
  | intro {fuel slices : Nat} {method : MethodId} {args : List Value} {n : Machine} {trap : Trap}
      (hborn : Newborn t n) (hrun : drive (nested fuel) slices t method args n = .error trap m) : GivesUp t m

/-- A thread ends, or its record is taken out after that. -/
def Ending (t : ThreadId) (m m' : Machine) : Prop :=
  m'.scheduler = (m.scheduler.terminate t).2 ∨ m'.scheduler = retiring m.scheduler t

/-- How a thread fares from one moment to the next. -/
inductive Fares (t : ThreadId) : Posture × Machine → Posture × Machine → Prop
  /-- Others act, and wake the thread, or mark it as interrupted, at most. So it is when it was woken, and finds
  its monitor taken. -/
  | bides {p : Posture} {m m' : Machine} (hp : p.Waits)
      (h : Option.Rel Scheduler.Bides (m.scheduler.get? t) (m'.scheduler.get? t)) : Fares t (p, m) (p, m')
  /-- It is started, or made for a call. -/
  | born {m m' : Machine} (hnext : m.scheduler.nextId = t) (hnone : m.scheduler.get? t = none)
      (hmade : (∃ object, m'.scheduler = (m.scheduler.spawn object []).2) ∨ m'.scheduler = borrowing m.scheduler)
      (h : Newborn t m') (hclear : ¬Flagged t m') : Fares t (.unborn, m) (.resting, m')
  /-- It is to enter its first method. -/
  | enters {m : Machine} {u : Thread FrameStack} (hu : m.scheduler.get? t = some u) (hstack : u.stack = [])
      (h : Awake t m) : Fares t (.resting, m) (.running, { m with active := [] })
  /-- It cannot even be let enter its first method. -/
  | starves {m : Machine} (h : Newborn t m) : Fares t (.resting, m) (.failed .outOfFuel, m)
  /-- It goes on from where it stopped. -/
  | goesOn {m m' : Machine} {u : Thread FrameStack} (hu : m.scheduler.get? t = some u) (halive : u.isAlive = true)
      (h : LetOn t u m false m') : Fares t (.resting, m) (.running, m')
  | delivers {a b : Posture × Machine} (h : Delivers t a b) : Fares t a b
  | works {fuel : Nat} {fails : Trap → Posture} {x : MachineM Flow} {m m' : Machine}
      (hx : Undertaking fuel t fails x) (hrun : x m = .ok .next m') (h : Awake t m')
      (hflag : Flagged t m → Flagged t m') : Fares t (.running, m) (.running, m')
  /-- It fails for another reason. -/
  | traps {fuel : Nat} {fails : Trap → Posture} {x : MachineM Flow} {m m' : Machine} {trap : Trap}
      {u : Thread FrameStack} (hx : Undertaking fuel t fails x) (hrun : x m = .error trap m')
      (hu : m'.scheduler.get? t = some u) (hunparked : u.interruptible = false)
      (hflag : Flagged t m → Flagged t m') : Fares t (.running, m) (fails trap, m')
  | handles {m : Machine} {trap : Trap} (h : Awake t (final (handleTrap t trap m)))
      (hflag : Flagged t m → Flagged t (final (handleTrap t trap m))) :
      Fares t (.trapped trap, m) (.handled (handleTrap t trap m), final (handleTrap t trap m))
  | parks {m m' : Machine} {flow : Flow} (h : ParkingStep t m flow m') : Fares t (.running, m) (.after flow, m')
  /-- It stops otherwise. -/
  | stops {fuel : Nat} {fails : Trap → Posture} {x : MachineM Flow} {m m' : Machine} {flow : Flow}
      {u : Thread FrameStack} (hx : Undertaking fuel t fails x) (hrun : x m = .ok flow m')
      (hu : m'.scheduler.get? t = some u) (hunparked : u.interruptible = false)
      (hflag : Flagged t m → Flagged t m') : Fares t (.running, m) (.after flow, m')
  /-- Its frames are put away. -/
  | rests {p : Posture} {m : Machine} (hp : p.Idles) : Fares t (p, m) (.resting, saveStack t m)
  | empties {trap : Trap} {m m' : Machine} (h : Emptied t m m') : Fares t (.failed trap, m) (.failed trap, m')
  /-- It is left alone, although it has failed. -/
  | stays {trap : Trap} {m : Machine} (hfinal : trap.isException = false) :
      Fares t (.failed trap, m) (.resting, m)
  | ceases {p : Posture} {m m' : Machine} (hp : p.Ceases) (h : Emptied t m m') : Fares t (p, m) (.spent, m')
  | givesUp {m : Machine} (h : GivesUp t m) : Fares t (.resting, m) (.spent, m)
  | ends {m m' : Machine} (h : Ending t m m') : Fares t (.spent, m) (.over, m')

/-- Any number of moments in the life of a thread. -/
abbrev Life (t : ThreadId) : Posture × Machine → Posture × Machine → Prop := Relation.ReflTransGen (Fares t)

/-- Its life between slices. -/
abbrev LivesOn (t : ThreadId) (m m' : Machine) : Prop := Life t (standing t m, m) (standing t m', m')

section Standing

theorem standing_waits (t : ThreadId) (m : Machine) : (standing t m).Waits := by
  unfold standing
  split
  · split <;> trivial
  · split <;> trivial

theorem standing_of_alive {u : Thread FrameStack} (hu : m.scheduler.get? t = some u) (halive : u.isAlive = true) :
    standing t m = .resting := by
  unfold standing
  rw [hu]
  exact if_pos halive

theorem standing_of_dead {u : Thread FrameStack} (hu : m.scheduler.get? t = some u) (hdead : u.isAlive = false) :
    standing t m = .over := by
  unfold standing
  rw [hu]
  exact if_neg (hdead ▸ Bool.false_ne_true)

/-- A thread that bides stands where it stood. -/
theorem standing_bides (h : Option.Rel Scheduler.Bides (m.scheduler.get? t) (m'.scheduler.get? t))
    (hnext : t < m'.scheduler.nextId ↔ t < m.scheduler.nextId) : standing t m' = standing t m := by
  unfold standing
  generalize m.scheduler.get? t = before, m'.scheduler.get? t = after at h
  cases h with
  | none => simp only [hnext]
  | some hbides => simp only [hbides.isAlive]

theorem LivesOn.bides (h : Option.Rel Scheduler.Bides (m.scheduler.get? t) (m'.scheduler.get? t))
    (hnext : t < m'.scheduler.nextId ↔ t < m.scheduler.nextId) : LivesOn t m m' := by
  unfold LivesOn
  rw [standing_bides h hnext]
  exact .single (.bides (standing_waits t m) h)

end Standing

section Passive

variable {r : Option ThreadId}

/-- All that happens to others is that they bide. -/
structure Passive (r : Option ThreadId) (m m' : Machine) : Prop where
  bides : ∀ t, t ∉ r → Option.Rel Scheduler.Bides (m.scheduler.get? t) (m'.scheduler.get? t)
  nextId : m'.scheduler.nextId = m.scheduler.nextId

theorem Passive.of_acts (h : Acts (Hands r m) m m') (hm : Rostered m)
    (hn : m'.scheduler.nextId = m.scheduler.nextId) : Passive r m m' := by
  refine ⟨fun t ht => ?_, hn⟩
  by_cases hlt : t < m.scheduler.nextId
  · refine Acts.rel h hm (fun hmem => ?_) (.inl hlt)
    rcases hmem with hmem | hle
    · exact ht hmem
    · exact UInt32.not_lt.2 hle hlt
  · have hle : m.scheduler.nextId ≤ t := UInt32.not_lt.1 hlt
    rw [hm.fresh hle, (Acts.rostered h hm).fresh (hn ▸ hle)]
    exact .none

theorem Passive.life (h : Passive r m m') (ht : t ∉ r) : LivesOn t m m' :=
  .bides (h.bides t ht) (h.nextId ▸ Iff.rfl)

theorem Passive.others (h : Passive (some t) m m') : ∀ j, j ≠ t → LivesOn j m m' := fun _ hj =>
  h.life (by simpa using Ne.symm hj)

theorem Passive.trans (h : Passive r m m') (h' : Passive r m' m'') : Passive r m m'' := by
  refine ⟨fun t ht => ?_, h'.nextId.trans h.nextId⟩
  have hrel := h.bides t ht
  have hrel' := h'.bides t ht
  generalize m.scheduler.get? t = a, m'.scheduler.get? t = b, m''.scheduler.get? t = c at hrel hrel'
  cases hrel with
  | none =>
    cases hrel'
    exact .none
  | some hbides =>
    cases hrel' with
    | some hbides' => exact .some (hbides.trans hbides')

theorem Passive.of_scheduler_eq (hs : m'.scheduler = m.scheduler) : Passive r m m' := by
  refine ⟨fun t _ => ?_, congrArg _ hs⟩
  rw [hs]
  cases m.scheduler.get? t with
  | none => exact .none
  | some u => exact .some (.refl u)

/-- What nobody does could as well be done by a thread. -/
theorem Passive.aboard (h : Passive none m m') : Passive r m m' := ⟨fun t _ => h.bides t (by simp), h.nextId⟩

/-- A thread keeps awake while others act. -/
theorem Awake.bides (h : Awake t m)
    (hrel : Option.Rel Scheduler.Bides (m.scheduler.get? t) (m'.scheduler.get? t)) :
    Awake t m' ∧ (Flagged t m → Flagged t m') := by
  obtain ⟨u, hu, halive, hpending, hmark⟩ := h
  rw [hu] at hrel
  generalize hafter : m'.scheduler.get? t = after at hrel
  cases hrel with
  | @some _ u' hbides =>
    refine ⟨⟨u', hafter, hbides.isAlive.trans halive, hbides.pending.trans hpending,
      hbides.interruptible.trans hmark⟩, fun ⟨v, hv, hflag⟩ => ⟨u', hafter, ?_⟩⟩
    cases hu.symm.trans hv
    exact hbides.interrupted hflag

end Passive

/-- A machine in order, whatever came of the threads that ended. -/
structure Governed (m : Machine) : Prop where
  rostered : Rostered m
  claimed : m.arena.Claimed
  addressed : m.heap.Addressed
  noHost : ∀ id, m.natives.get? id = none

/-- A thread is between two things it does. -/
structure Going (t : ThreadId) (m : Machine) : Prop extends Governed m where
  awake : Awake t m

/-- A thread has gone on, and a mark on it stays; so have all others. -/
structure Goes (t : ThreadId) (m m' : Machine) : Prop where
  going : Going t m'
  flag : Flagged t m → Flagged t m'
  others : ∀ j, j ≠ t → LivesOn j m m'

/-- All threads have gone on, and none has a slice. -/
structure Lives (m m' : Machine) : Prop extends Governed m' where
  lives : ∀ t, LivesOn t m m'

section Governed

theorem Governed.congr (h : Governed m) (hheap : m'.heap = m.heap) (hs : m'.scheduler = m.scheduler)
    (hn : m'.natives = m.natives) : Governed m' := by
  refine ⟨⟨hs ▸ h.rostered.numbered, hs ▸ h.rostered.keyed, fun t u hu hnull => ?_⟩, ?_, hheap ▸ h.addressed,
    hn ▸ h.noHost⟩
  · rw [hheap]
    exact h.rostered.objects t u (hs ▸ hu) hnull
  · unfold arena
    rw [hheap, hs]
    exact h.claimed

theorem Governed.isNull_eq_false (h : Governed m) {o : Ref} (ho : (m.arena.monitor? o).isSome = true) :
    o.isNull = false := by
  cases hnull : o.isNull with
  | false => rfl
  | true =>
    have heq : o = .null := by
      cases o
      simpa [Ref.isNull, Ref.null] using hnull
    unfold Arena.monitor? arena at ho
    rw [heq, h.addressed.null] at ho
    cases ho

/-- The heap changes, but not for what the machine holds. -/
theorem Governed.heap (h : Governed m) {heap : Heap} (hr : m.heap.Respects m.roots heap) :
    Governed { m with heap := heap } := by
  refine ⟨(Passed.heap (S := Anyone) hr).acts.rostered h.rostered, ?_, hr.addressed h.addressed, h.noHost⟩
  exact h.claimed.respects hr fun t u p hu hp hlive => mem_roots_of_pending hu hp (h.isNull_eq_false hlive)

/-- Threads change, and the order between them and monitors is told. -/
theorem Governed.reschedule (h : Governed m) {s : Scheduler FrameStack}
    (hacts : Acts Anyone m { m with scheduler := s })
    (hclaimed : (⟨m.heap, s⟩ : Arena FrameStack).Claimed) : Governed { m with scheduler := s } :=
  ⟨hacts.rostered h.rostered, hclaimed, h.addressed, h.noHost⟩

end Governed

section Going

theorem Goes.refl (h : Going t m) : Goes t m m := ⟨h, fun hf => hf, fun _ _ => .refl⟩

theorem Goes.trans (h : Goes t m m') (h' : Goes t m' m'') : Goes t m m'' :=
  ⟨h'.going, fun hf => h'.flag (h.flag hf), fun j hj => (h.others j hj).trans (h'.others j hj)⟩

theorem Going.isSome (h : Going t m) : (m.scheduler.get? t).isSome := by
  obtain ⟨u, hu, -⟩ := h.awake
  rw [hu]
  rfl

/-- Only the thread itself acts, and goes on. -/
theorem Going.goes (h : Going t m') (hothers : Passive (some t) m m') (hflag : Flagged t m → Flagged t m') :
    Goes t m m' := ⟨h, hflag, hothers.others⟩

/-- Nobody acts, and nothing happens to threads. -/
theorem Going.aside (h : Going t m) (hg : Governed m') (hs : m'.scheduler = m.scheduler) : Goes t m m' := by
  have hawake : Awake t m' := by
    unfold Awake
    rw [hs]
    exact h.awake
  refine Going.goes ⟨hg, hawake⟩ (.of_scheduler_eq hs) fun hflag => ?_
  unfold Flagged at hflag ⊢
  rwa [hs]

theorem Going.congr (h : Going t m) (hheap : m'.heap = m.heap) (hs : m'.scheduler = m.scheduler)
    (hn : m'.natives = m.natives) : Goes t m m' := h.aside (h.toGoverned.congr hheap hs hn) hs

theorem Going.heap (h : Going t m) {heap : Heap} (hr : m.heap.Respects m.roots heap) :
    Goes t m { m with heap := heap } := h.aside (h.toGoverned.heap hr) rfl

/-- What is done could have been done by nobody. -/
theorem Going.passive (h : Going t m) (hg : Governed m') (hothers : Passive none m m') : Goes t m m' := by
  obtain ⟨hawake, hflag⟩ := h.awake.bides (hothers.bides t (by simp))
  exact Going.goes ⟨hg, hawake⟩ hothers.aboard hflag

/-- A thread keeps awake while others go on. -/
theorem Going.beside (h : Going t m) (hg : Governed m') {S : ThreadId → Prop} (hacts : Acts S m m') (ht : ¬S t) :
    Going t m' ∧ (Flagged t m → Flagged t m') := by
  obtain ⟨u, hu, -⟩ := h.awake
  obtain ⟨hawake, hflag⟩ := h.awake.bides (Acts.rel hacts h.rostered ht (.inl (h.rostered.numbered t u hu)))
  exact ⟨⟨hg, hawake⟩, hflag⟩

end Going

section Lives

theorem Lives.refl (h : Governed m) : Lives m m := ⟨h, fun _ => .refl⟩

theorem Lives.trans (h : Lives m m') (h' : Lives m' m'') : Lives m m'' :=
  ⟨h'.toGoverned, fun t => (h.lives t).trans (h'.lives t)⟩

theorem Passive.lives (h : Passive none m m') (hg : Governed m') : Lives m m' := ⟨hg, fun _ => h.life (by simp)⟩

/-- A live thread. -/
def Able (t : ThreadId) (m : Machine) : Prop := ∃ u, m.scheduler.get? t = some u ∧ u.isAlive = true

theorem Able.standing (h : Able t m) : standing t m = .resting := by
  obtain ⟨u, hu, halive⟩ := h
  exact standing_of_alive hu halive

theorem Able.bides (h : Able t m)
    (hrel : Option.Rel Scheduler.Bides (m.scheduler.get? t) (m'.scheduler.get? t)) : Able t m' := by
  obtain ⟨u, hu, halive⟩ := h
  rw [hu] at hrel
  generalize hafter : m'.scheduler.get? t = after at hrel
  cases hrel with
  | some hbides => exact ⟨_, hafter, hbides.isAlive.trans halive⟩

theorem Newborn.bides (h : Newborn t m)
    (hrel : Option.Rel Scheduler.Bides (m.scheduler.get? t) (m'.scheduler.get? t)) : Newborn t m' := by
  obtain ⟨u, hu, halive, hpending, hmark, hstack⟩ := h
  rw [hu] at hrel
  generalize hafter : m'.scheduler.get? t = after at hrel
  cases hrel with
  | some hbides => exact ⟨_, hafter, hbides.isAlive.trans halive, hbides.pending.trans hpending,
      hbides.interruptible.trans hmark, hbides.stack.trans hstack⟩

theorem Newborn.awake (h : Newborn t m) : Awake t m := by
  obtain ⟨u, hu, halive, hpending, hmark, -⟩ := h
  exact ⟨u, hu, halive, hpending, hmark⟩

/-- From one moment to another a thread has lived, while all others had no slice. -/
structure Spell (t : ThreadId) (a b : Posture × Machine) : Prop where
  own : Life t a b
  others : ∀ j, j ≠ t → LivesOn j a.2 b.2

theorem Spell.refl (a : Posture × Machine) : Spell t a a := ⟨.refl, fun _ _ => .refl⟩

theorem Spell.trans {a b c : Posture × Machine} (h : Spell t a b) (h' : Spell t b c) : Spell t a c :=
  ⟨h.own.trans h'.own, fun j hj => (h.others j hj).trans (h'.others j hj)⟩

theorem Spell.lives (h : Spell t (standing t m, m) (standing t m', m')) (hg : Governed m') : Lives m m' := by
  refine ⟨hg, fun j => ?_⟩
  by_cases hj : j = t
  · exact hj ▸ h.own
  · exact h.others j hj

/-- A thread has lived to see a machine in order. -/
structure Lived (t : ThreadId) (a b : Posture × Machine) : Prop extends Governed b.2 where
  spell : Spell t a b

theorem Lived.next {a b : Posture × Machine} {p : Posture} (h : Lived t a b) (hfares : Fares t b (p, b.2)) :
    Lived t a (p, b.2) := ⟨h.toGoverned, h.spell.trans ⟨.single hfares, fun _ _ => .refl⟩⟩

/-- The thread itself bides as well, as do all others. -/
theorem Passive.spell (h : Passive none m m') {p : Posture} (hp : p.Waits) : Spell t (p, m) (p, m') :=
  ⟨.single (.bides hp (h.bides t (by simp))), fun _ _ => h.life (by simp)⟩

end Lives

/-- However a computation of a thread ends, the thread has gone on. -/
def Telling (t : ThreadId) : Comparison := fun _ x _ => ∀ m, Going t m → Goes t m (final (x m))

section Telling

variable {α β : Type}

theorem telling_pure (a : α) : (Telling t).Same (pure a : MachineM α) := fun _ hm => .refl hm

theorem Telling.along {x y : MachineM α} {f g : α → MachineM β} (hx : Telling t x y)
    (hf : ∀ a, Reaches x a → Telling t (f a) (g a)) : Telling t (x >>= f) (y >>= g) := by
  intro m hm
  have hgoes := hx m hm
  cases hr : x m with
  | error e m' =>
    rw [hr] at hgoes
    rw [bind_of_error hr]
    exact hgoes
  | ok a m' =>
    rw [hr] at hgoes
    rw [bind_of_ok hr]
    exact hgoes.trans (hf a ⟨m, m', hr⟩ m' hgoes.going)

theorem Telling.bind {x y : MachineM α} {f g : α → MachineM β} (hx : Telling t x y)
    (hf : ∀ a, Telling t (f a) (g a)) : Telling t (x >>= f) (y >>= g) := hx.along fun a _ => hf a

theorem sequel_telling : Sequel (Telling t) (Telling t (α := β)) where
  along hx hf := hx.along hf
  read hf _ m hm := hf m m hm
  throw _ _ _ hm := .refl hm

theorem telling_congr {x : MachineM α} (hheap : ∀ m, (final (x m)).heap = m.heap)
    (hs : ∀ m, (final (x m)).scheduler = m.scheduler) (hn : ∀ m, (final (x m)).natives = m.natives) :
    (Telling t).Same x := fun m hm => hm.congr (hheap m) (hs m) (hn m)

theorem telling_updateHeap {f : Heap → Heap} (hf : ∀ roots h, Heap.Respects h roots (f h)) :
    (Telling t).Same (updateHeap f) := fun m hm => hm.heap (hf m.roots m.heap)

theorem Telling.after {x y : MachineM α} {x' y' : MachineM β} (hx : Telling t x y)
    (hafter : ∀ m, Going t (final (x m)) → Goes t (final (x m)) (final (x' m))) : Telling t x' y' := fun m hm =>
  (hx m hm).trans (hafter m (hx m hm).going)

/-- Something is done afterwards, whatever came of `x`. -/
theorem Telling.ensuring {x y : MachineM α} {after : Machine → Machine} (hx : Telling t x y)
    (hafter : ∀ n, Going t n → Goes t n (after n)) : Telling t (ensuring x after) (ensuring y after) := by
  refine hx.after fun m hm => ?_
  unfold Machine.ensuring
  cases hr : x m with
  | ok a n => exact hafter n (by rwa [hr] at hm)
  | error e n => exact hafter n (by rwa [hr] at hm)

/-- An operation on monitors leaves the machine in order, or does nothing. -/
theorem onSync_ends_governed {r : Option ThreadId} {x : SyncM FrameStack α} {Q : α → Arena FrameStack → Prop}
    (hm : Governed m) (hr : ∀ j ∈ r, (m.scheduler.get? j).isSome) (hdoing : Sync.Doing r x)
    (hends : Ends (x m.arena) (fun v a => (a.Claimed ∧ a.heap.Addressed) ∧ Q v a) fun _ a => a = m.arena) :
    Ends (onSync x m) (fun result m' => match result with
      | .ok v => (Governed m' ∧ Passive r m m' ∧ m'.active = m.active) ∧ Q v m'.arena
      | .error _ => m' = m) fun _ _ => False := by
  have hpassing : Passing .idle r (onSync x) (onSync x) := .onSync hdoing
  have hpassed : Passed (Hands r m) m (final (onSync x m)) := (hpassing m hm.rostered hr).passed
  have hpasses := hdoing m.arena
  unfold onSync at hpassed ⊢
  rw [show (⟨m.heap, m.scheduler⟩ : Arena FrameStack) = m.arena from rfl] at hpassed ⊢
  cases hrun : x m.arena with
  | ok v a =>
    rw [hrun] at hpassed
    obtain ⟨⟨hc, ha⟩, hq⟩ := hends.of_ok hrun
    exact ⟨⟨⟨hpassed.acts.rostered hm.rostered, hc, ha, hm.noHost⟩,
      .of_acts hpassed.acts hm.rostered (hpasses.of_ok hrun).deeds.nextId, rfl⟩, hq⟩
  | error e a =>
    cases hends.of_error hrun
    rfl

/-- An operation on monitors that does not park its thread. -/
theorem telling_onSync {x : SyncM FrameStack α} (hdoing : Sync.Doing none x)
    (hclaimed : ∀ m, Going t m →
      Ends (x m.arena) (fun _ a => a.Claimed ∧ a.heap.Addressed) fun _ a => a = m.arena) :
    (Telling t).Same (onSync x) := by
  intro m hm
  have hends := onSync_ends_governed (Q := fun _ _ => True) hm.toGoverned (by simp) hdoing
    ((hclaimed m hm).mono (fun _ _ h => ⟨h, trivial⟩) fun _ _ h => h)
  cases hrun : onSync x m with
  | error e m' => exact (hends.of_error hrun).elim
  | ok result m' =>
    have hresult := hends.of_ok hrun
    cases result with
    | ok v => exact hm.passive hresult.1.1 hresult.1.2.1
    | error e =>
      cases hresult
      exact .refl hm

end Telling

end Machine

end ClassMachine
