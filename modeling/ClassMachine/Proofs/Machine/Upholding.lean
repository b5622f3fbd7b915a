import ClassMachine.Machine.Allocation
import ClassMachine.Proofs.Heap.Holding
import ClassMachine.Proofs.Machine.ArrayWrites

/-!
Making objects. Whatever collections it takes, it leaves threads, frames, static fields and pins, and all
objects that are held. An exception is such an object: to raise one changes no array.
-/
namespace ClassMachine.Machine
open Stateful

/-- Only classes and the heap are others, and what is held and pinned is as it was. -/
structure Saves (m m' : Machine) : Prop where
  rest : m' = { m with linker := m'.linker, heap := m'.heap }
  held : m.heap.Upholds m.roots m'.heap
  pinned : m'.heap.pinned = m.heap.pinned
  next : m'.heap.nextHandle ≠ 0

/-- Arrays are as they were besides, and none is new. -/
structure Intact (m m' : Machine) : Prop extends Saves m m' where
  arrays : m.heap.SameArrays m'.heap

variable {α β : Type} {m m' m'' : Machine}

namespace Saves

theorem roots (h : Saves m m') : m'.roots = m.roots := by
  rw [h.rest]
  rfl

theorem refl (hm : m.heap.nextHandle ≠ 0) : Saves m m := ⟨rfl, .refl _ _, rfl, hm⟩

theorem trans (h : Saves m m') (h' : Saves m' m'') : Saves m m'' :=
  ⟨by rw [h'.rest, h.rest], h.held.trans (h.roots ▸ h'.held), h'.pinned.trans h.pinned, h'.next⟩

theorem still_held (h : Saves m m') {r : Ref} (hr : m.heap.Held m.roots r) : m'.heap.Held m'.roots r :=
  h.roots ▸ h.held.held hr

end Saves

theorem Intact.refl (hm : m.heap.nextHandle ≠ 0) : Intact m m := ⟨.refl hm, .refl _⟩

theorem Intact.trans (h : Intact m m') (h' : Intact m' m'') : Intact m m'' :=
  ⟨h.toSaves.trans h'.toSaves, h.arrays.trans h'.arrays⟩

/-- Run on `m`, `x` leaves arrays and all that is held, however it ends. What it comes to is told by the
objects there are. -/
abbrev Leaves (m : Machine) (x : MachineM α) (Q : α → (Ref → Option Object) → Prop) : Prop :=
  Ends (x m) (fun a m' => Intact m m' ∧ Q a m'.heap.get?) fun _ m' => Intact m m'

theorem Leaves.bind {x : MachineM α} {f : α → MachineM β} {Q : α → (Ref → Option Object) → Prop}
    {R : β → (Ref → Option Object) → Prop} (hx : Leaves m x Q)
    (hf : ∀ a m', Intact m m' → Q a m'.heap.get? → Leaves m' (f a) R) : Leaves m (x >>= f) R :=
  Ends.bind hx fun a m' ⟨h, hq⟩ =>
    (hf a m' h hq).mono (fun _ _ h' => ⟨h.trans h'.1, h'.2⟩) fun _ _ h' => h.trans h'

section Making

/-- An object that was added is under a handle of its own. -/
structure Added (o : Object) (r : Ref) (m m' : Machine) : Prop where
  saves : Saves m m'
  linker : m'.linker = m.linker
  free : m.heap.get? r = none
  get? : ∀ x, m'.heap.get? x = if r = x then some o else m.heap.get? x
  nonnull : r.isNull = false
  arrays : o.elements? = none → m.heap.SameArrays m'.heap

theorem insertObject_adds (hm : m.heap.nextHandle ≠ 0) (o : Object) :
    Ends (insertObject o m) (fun r m' => Added o r m m') fun _ m' => m' = m := by
  unfold insertObject
  dsimp only
  split
  · rfl
  · next hused =>
    have hfree : m.heap.contains (m.heap.insert o).1 = false := Bool.eq_false_iff.2 hused
    exact
      { saves := ⟨rfl, Heap.insert_upholds _ hfree, rfl, Heap.successor_ne_zero _⟩
        linker := rfl
        free := (Heap.insert_fresh hfree .null).2
        get? := fun x => (Heap.insert_fresh hfree x).1
        nonnull := beq_eq_false_iff_ne.2 (Heap.seekHandle_ne_zero _ _ hm)
        arrays := Heap.insert_sameArrays hfree }

/-- What was added was held by nobody before. -/
theorem Added.not_held {o : Object} {r : Ref} {m₁ : Machine} (h : Added o r m₁ m') (h₁ : Saves m m₁) :
    ¬ m.heap.Held m.roots r := by
  intro hheld
  obtain ⟨x, hx⟩ := hheld.live
  have hlive := h₁.held.get? r x hheld hx
  rw [h.free] at hlive
  cases hlive

theorem reserve_intact (hm : m.heap.nextHandle ≠ 0) (units : Nat) :
    Ends (reserve units m) (fun _ m' => Intact m m' ∧ m'.linker = m.linker)
      fun _ m' => Intact m m' ∧ m'.linker = m.linker := by
  have hintact : Intact m { m with heap := (m.heap.reserve m.roots units).2 } :=
    ⟨⟨rfl, Heap.reserve_upholds _ _ units, Heap.pinned_reserve _ _ units,
      (Heap.nextHandle_reserve m.roots m.heap units).symm ▸ hm⟩, Heap.reserve_sameArrays _ _ units⟩
  unfold reserve
  cases hr : m.heap.reserve m.roots units with
  | mk result h =>
    rw [hr] at hintact
    cases result with
    | ok u => exact ⟨hintact, rfl⟩
    | error e => exact ⟨hintact, rfl⟩

/-- An object is made, under a handle under which nothing was held. -/
theorem allocate_intact (hm : m.heap.nextHandle ≠ 0) {o : Object} (ho : o.elements? = none) :
    Leaves m (allocate o) fun r get? => get? r = some o ∧ r.isNull = false ∧ ¬ m.heap.Held m.roots r := by
  refine Ends.bind ((reserve_intact hm o.weight).mono (fun _ _ h => h) fun _ _ h => h.1) fun _ m₁ ⟨h₁, _⟩ => ?_
  refine (insertObject_adds h₁.next o).mono (fun r m₂ h₂ => ⟨h₁.trans ⟨h₂.saves, h₂.arrays ho⟩, ?_, h₂.nonnull,
    h₂.not_held h₁.toSaves⟩) fun _ m₂ h₂ => h₂ ▸ h₁
  rw [h₂.get?, if_pos rfl]

theorem newInstance_intact (hm : m.heap.nextHandle ≠ 0) (id : ClassId) :
    Leaves m (newInstance id) fun r get? =>
      (∃ o, get? r = some o ∧ o.type = id ∧ o.elements? = none) ∧ ¬ m.heap.Held m.roots r := by
  have hprepare : Leaves m (onLinker (Linker.prepare id)) fun _ _ => True :=
    ⟨⟨⟨rfl, .refl _ _, rfl, hm⟩, .refl _⟩, trivial⟩
  refine hprepare.bind fun prepared m₁ h₁ _ => ?_
  cases prepared with
  | none => exact .refl h₁.next
  | some c =>
    have hmade := allocate_intact h₁.next (o := Object.instanceOf id ((c.layout.map (·.kinds)).getD [])) rfl
    exact hmade.mono (fun r m₂ ⟨h₂, hget, _, hnew⟩ =>
      ⟨h₂, ⟨_, hget, rfl, rfl⟩, fun hheld => hnew (h₁.still_held hheld)⟩) fun _ _ h => h

theorem stringObject_intact (hm : m.heap.nextHandle ≠ 0) (text : String) :
    Leaves m (stringObject text) fun r _ => r.isNull = false := by
  unfold stringObject Leaves
  rw [bind_get]
  exact (allocate_intact hm rfl).mono (fun _ _ h => ⟨h.1, h.2.2.1⟩) fun _ _ h => h

end Making

section Pinning

variable {x : MachineM α} {r : Ref}

theorem heap_pinnedAll (hnull : r.isNull = false) (m : Machine) :
    (pinnedAll [r] m).heap = { m.heap with pinned := r :: m.heap.pinned } := by
  show m.heap.pin r = _
  unfold Heap.pin
  rw [hnull]
  rfl

theorem pin_upholds (roots : List Ref) (h : Heap) (r : Ref) : h.Upholds roots (h.pin r) := by
  unfold Heap.pin
  split
  · exact .refl roots h
  · exact .of_objects_eq rfl (List.subset_cons_self _ _) rfl rfl

/-- A pin that is taken off again leaves what it found. -/
theorem unpin_saves {n : Machine} (hrest : n = { m with linker := n.linker, heap := n.heap })
    (hheld : m.heap.Upholds m.roots n.heap) (hpinned : n.heap.pinned = r :: m.heap.pinned)
    (hnext : n.heap.nextHandle ≠ 0) : Saves m { n with heap := n.heap.unpin r } := by
  have herase : (n.heap.unpin r).pinned = m.heap.pinned := by
    show n.heap.pinned.erase r = _
    rw [hpinned, List.erase_cons_head]
  exact ⟨by rw [hrest], ⟨hheld.get?, herase ▸ List.Subset.refl _, hheld.interned, hheld.mirrors⟩, herase, hnext⟩

theorem pinning_ends {Q : α → Machine → Prop} {E : Trap → Machine → Prop}
    (hx : Ends (x (pinnedAll [r] m)) (fun a n => Q a { n with heap := n.heap.unpin r })
      fun e n => E e { n with heap := n.heap.unpin r }) : Ends (pinning [r] x m) Q E := by
  show Ends (ensuring x (fun n => { n with heap := n.heap.unpin r }) (pinnedAll [r] m)) _ _
  unfold ensuring
  cases hr : x (pinnedAll [r] m) with
  | ok a n => exact hx.of_ok hr
  | error e n => exact hx.of_error hr

end Pinning

section Raising

variable {className : String} {message : Option String}

/-- The instance that is thrown, made while its message is pinned. -/
theorem pinned_instance_intact {text : Option Ref} (hm : m.heap.nextHandle ≠ 0)
    (htext : ∀ r ∈ text, r.isNull = false) (id : ClassId) :
    Leaves m (pinning text.toList (newInstance id)) fun r get? =>
      (∃ o, get? r = some o ∧ o.type = id ∧ o.elements? = none) ∧ ¬ m.heap.Held m.roots r := by
  cases text with
  | none =>
    have hplain : pinning [] (newInstance id) m = newInstance id m := by
      show ensuring (newInstance id) (fun n => n) m = _
      unfold ensuring
      cases newInstance id m <;> rfl
    show Ends (pinning [] (newInstance id) m) _ _
    rw [hplain]
    exact newInstance_intact hm id
  | some r =>
    have hnull := htext r rfl
    have hstart : m.heap.Upholds m.roots (pinnedAll [r] m).heap := pin_upholds m.roots m.heap r
    have hmade := newInstance_intact (m := pinnedAll [r] m) ((Heap.objects_pinAll [r] m.heap).2.symm ▸ hm) id
    have hback : ∀ n, Intact (pinnedAll [r] m) n → Intact m { n with heap := n.heap.unpin r } := fun n h =>
      ⟨unpin_saves h.rest (hstart.trans h.held) (h.pinned.trans (by rw [heap_pinnedAll hnull])) h.next,
        ((Heap.sameArrays_of_objects_eq (Heap.objects_pinAll [r] m.heap).1).trans h.arrays).trans
          (Heap.sameArrays_of_objects_eq rfl)⟩
    exact pinning_ends (hmade.mono (fun e n h => ⟨hback n h.1, h.2.1, fun hheld => h.2.2 (hstart.held hheld)⟩)
      fun _ n h => hback n h)

theorem message_intact (hm : m.heap.nextHandle ≠ 0) (message : Option String) :
    Leaves m (message.mapM stringObject) fun text _ => ∀ r ∈ text, r.isNull = false := by
  cases message with
  | none => exact ⟨.refl hm, fun _ hr => by cases hr⟩
  | some text =>
    refine Leaves.bind (stringObject_intact hm text) fun r m₁ h₁ hr => ⟨.refl h₁.next, fun r' hr' => ?_⟩
    cases hr'
    exact hr

/-- To raise an exception leaves arrays and all that is held. -/
theorem raise_intact (hm : m.heap.nextHandle ≠ 0) (className : String) (message : Option String) :
    Ends (raise (α := α) className message m) (fun _ _ => False) fun _ m' => Intact m m' := by
  unfold raise
  rw [bind_get]
  cases m.classes.lookup? className with
  | none => exact .refl hm
  | some id =>
    dsimp only
    refine Ends.bind (message_intact hm message) fun text m₁ ⟨h₁, hnull⟩ => ?_
    refine Ends.bind ((pinned_instance_intact h₁.next hnull id).mono (fun _ _ h => h) fun _ _ h => h₁.trans h)
      fun e m₂ ⟨h₂, ⟨o, ho, _, hplain⟩, hnew⟩ => ?_
    rw [bind_get]
    cases m₂.core.messageSlot with
    | none => exact h₁.trans h₂
    | some slot =>
      cases text with
      | none => exact h₁.trans h₂
      | some r =>
        -- the message is written to an object that was not there before
        refine h₁.trans ⟨⟨?_, h₂.held.update hnew _, h₂.pinned, h₂.next⟩, h₂.arrays.update ho hplain⟩
        rw [h₂.rest]

/-- A message and an instance of the class can be made. -/
def Affords (m : Machine) (className : String) (message : Option String) : Prop :=
  ∃ id text m₁ e m₂, m.classes.lookup? className = some id ∧ message.mapM stringObject m = .ok text m₁ ∧
    pinning text.toList (newInstance id) m₁ = .ok e m₂

/-- What comes of raising an exception: where it can be made, an instance of the class is thrown, and in any
case arrays and all that is held stay as they are. -/
structure Throws (m : Machine) (className : String) (message : Option String)
    (r : EStateM.Result Trap Machine α) : Prop where
  intact : ∃ e m', r = .error e m' ∧ Intact m m'
  thrown : m.Affords className message → ∃ id e m', m.classes.lookup? className = some id ∧
    r = .error (.exception e) m' ∧ m'.HasClass e id

theorem raise_throws (hm : m.heap.nextHandle ≠ 0) (className : String) (message : Option String) :
    Throws m className message (raise (α := α) className message m) := by
  constructor
  · have hends := raise_intact (α := α) hm className message
    cases hr : raise (α := α) className message m with
    | ok a m' => exact (hends.of_ok hr).elim
    | error e m' => exact ⟨e, m', rfl, hends.of_error hr⟩
  · rintro ⟨id, text, m₁, e, m₂, hid, htext, hmade⟩
    obtain ⟨h₁, hnull⟩ := (message_intact hm message).of_ok htext
    obtain ⟨-, ⟨o, ho, htype, -⟩, -⟩ := (pinned_instance_intact h₁.next hnull id).of_ok hmade
    unfold raise
    rw [bind_get, hid]
    dsimp only
    rw [bind_of_ok htext, bind_of_ok hmade, bind_get]
    cases m₂.core.messageSlot with
    | none => exact ⟨id, e, m₂, rfl, rfl, o, ho, htype⟩
    | some slot =>
      cases text with
      | none => exact ⟨id, e, m₂, rfl, rfl, o, ho, htype⟩
      | some r =>
        refine ⟨id, e, { m₂ with heap := m₂.heap.update e (·.setField slot (.ref r)) }, rfl, rfl,
          o.setField slot (.ref r), ?_, htype⟩
        show (m₂.heap.update e _).get? e = _
        rw [Heap.get?_update, if_pos rfl, ho]
        rfl

end Raising

end ClassMachine.Machine
