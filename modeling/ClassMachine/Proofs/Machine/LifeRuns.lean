import ClassMachine.Proofs.Machine.LifeCalls

/-!
The lives of threads in whole runs. Every thread lives on while one has a slice, and so does the one that has
it; one that is picked is let on from where it stopped, or raises there that it was interrupted. A slice tells
what its thread is about afterwards: it rests, or has left its last frame.
-/
namespace ClassMachine.Machine
open Stateful

variable {α β : Type} {m m' m'' n : Machine} {t s : ThreadId} {k : Nested}

section Undertakings

variable {fuel : Nat} {fails : Trap → Posture} {x : MachineM Flow}

end Undertakings

section Slices

variable {fuel : Nat} {a b : Posture × Machine}

/-- What a thread is about when its slice ends, its frames being in the machine still. -/
def Posture.Yields : SliceEnd → Posture → Prop
  | .finished _, p | .uncaught _, p => p = .done
  | .yielded, p | .blocked, p => p.Idles

/-- What it is about once its frames are put away. -/
def Posture.ofEnd : SliceEnd → Posture
  | .finished _ | .uncaught _ => .spent
  | .yielded | .blocked => .resting

/-- A thread has lived on from `a` until its slice ended as told. -/
def Tired (t : ThreadId) (a : Posture × Machine) (r : EStateM.Result Trap Machine SliceEnd) : Prop :=
  Ends r (fun ended m => Able t m ∧ ∃ p : Posture, p.Yields ended ∧ Lived t a (p, m))
    fun _ m => Able t m ∧ ∃ p : Posture, p.Idles ∧ Lived t a (p, m)

theorem LetOn.going {u : Thread FrameStack} {interrupted : Bool} (h : LetOn t u m interrupted m') (hg : Governed m')
    (halive : u.isAlive = true) : Going t m' := ⟨hg, _, h.record, halive, rfl, rfl⟩

/-- Frames of a thread are put away. -/
theorem Lived.saves {p q : Posture} (h : Lived t a (p, m)) (ht : Able t m)
    (hfares : Fares t (p, m) (q, saveStack t m)) : Able t (saveStack t m) ∧ Lived t a (q, saveStack t m) := by
  obtain ⟨u, hu, halive⟩ := ht
  have hsave : saveStack t m = restack t m.active [] m := rfl
  obtain ⟨hsaved, hothers⟩ := h.toGoverned.restack (t := t) (fun j hj => by cases hj; simp [hu]) m.active []
  rw [← hsave] at hsaved hothers
  exact ⟨⟨_, (get?_restack hu m.active [] t).trans (if_pos rfl), halive⟩, hsaved,
    h.spell.trans ⟨.single hfares, hothers.others⟩⟩

/-- So they are after a slice. -/
theorem Tired.saved {x : MachineM SliceEnd} (h : Tired t a (x m)) :
    Ends (ensuring x (saveStack t) m) (fun ended m' => Able t m' ∧ Lived t a (.ofEnd ended, m'))
      fun _ m' => Able t m' ∧ Lived t a (.resting, m') := by
  refine ends_ensuring (h.mono ?_ fun e n ⟨hable, p, hp, hlived⟩ => hlived.saves hable (.rests hp))
  rintro ended n ⟨hable, p, hp, hlived⟩
  cases ended with
  | finished v =>
    cases hp
    exact hlived.saves hable (.ceases trivial .saved)
  | uncaught exception =>
    cases hp
    exact hlived.saves hable (.ceases trivial .saved)
  | yielded => exact hlived.saves hable (.rests hp)
  | blocked => exact hlived.saves hable (.rests hp)

end Slices

section Threads

variable {fuel : Nat} {a b : Posture × Machine}

theorem Lives.calm (h : Governed m') (hs : m'.scheduler = m.scheduler) : Lives m m' :=
  (Passive.of_scheduler_eq hs).lives h

theorem Lives.aside (h : Governed m) (hheap : m'.heap = m.heap) (hs : m'.scheduler = m.scheduler)
    (hn : m'.natives = m.natives) : Lives m m' := .calm (h.congr hheap hs hn) hs

theorem Lives.bind {ε : Type} {x : EStateM ε Machine α} {f : α → EStateM ε Machine β} (hx : Lives m (final (x m)))
    (hf : ∀ a m', x m = .ok a m' → Governed m' → Lives m' (final (f a m'))) : Lives m (final ((x >>= f) m)) := by
  cases hr : x m with
  | error e m' =>
    rw [hr] at hx
    rw [bind_of_error hr]
    exact hx
  | ok a m' =>
    rw [hr] at hx
    rw [bind_of_ok hr]
    exact hx.trans (hf a m' hr hx.toGoverned)

/-- Frames change while a thread is not underway. -/
theorem Lived.reframe {p : Posture} (h : Lived t a (p, m)) (hp : p.Waits) (frames : FrameStack) :
    Lived t a (p, { m with active := frames }) := by
  have haside : Passive none m { m with active := frames } := .of_scheduler_eq rfl
  exact ⟨h.toGoverned.congr rfl rfl rfl, h.spell.trans (haside.spell hp)⟩

/-- What a thread is about when its first method has come to a point and its frames are put away. -/
def shelved : Flow → Posture
  | .finished _ => .spent
  | _ => .resting

end Threads

end ClassMachine.Machine
