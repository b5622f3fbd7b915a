import ClassMachine.Proofs.Link.LinkedBodies
import ClassMachine.Proofs.Machine.StaticStorage

/-!
Machines whose arrays hold what their classes allow. An array is made of a class that is there, with nothing
in it, and what is put into it was compared to the class of its elements, or was made of that class. Such
comparisons stay true, so the arrays stay as they are whatever else the machine does.
-/
namespace ClassMachine

/-- Pins that are taken off again leave those that were there. -/
theorem Heap.pinned_unpinAll {h : Heap} {pins front : List Ref} (hpins : ∀ r ∈ pins, r.isNull = false)
    (rs : List Ref) (hfront : front.Perm (rs.filter (!·.isNull))) (hp : h.pinned = front ++ pins) :
    (h.unpinAll rs).pinned = pins := by
  induction rs generalizing h front with
  | nil =>
    rw [List.filter_nil, List.perm_nil] at hfront
    rw [hfront] at hp
    exact hp
  | cons r rs ih =>
    have herased : (h.unpin r).pinned = (front ++ pins).erase r := congrArg (List.erase · r) hp
    cases hn : r.isNull with
    | true =>
      rw [List.filter_cons_of_neg (by simp [hn])] at hfront
      have hout : r ∉ front ++ pins := by
        intro hmem
        rcases List.mem_append.1 hmem with hmem | hmem
        · have hkept := (List.mem_filter.1 (hfront.subset hmem)).2
          rw [hn] at hkept
          cases hkept
        · rw [hpins r hmem] at hn
          cases hn
      rw [List.erase_of_not_mem hout] at herased
      exact ih (h := h.unpin r) hfront herased
    | false =>
      rw [List.filter_cons_of_pos (by simp [hn])] at hfront
      have hmem : r ∈ front := hfront.symm.subset List.mem_cons_self
      rw [List.erase_append_left _ hmem] at herased
      have herase : (front.erase r).Perm (rs.filter (!·.isNull)) := by
        have hperm := hfront.erase r
        rwa [List.erase_cons_head] at hperm
      exact ih (h := h.unpin r) herase herased

theorem Heap.pinned_pinAll (h : Heap) (rs : List Ref) : ∃ front : List Ref,
    front.Perm (rs.filter (!·.isNull)) ∧ (h.pinAll rs).pinned = front ++ h.pinned := by
  induction rs generalizing h with
  | nil => exact ⟨[], .refl _, rfl⟩
  | cons r rs ih =>
    obtain ⟨front, hperm, hpinned⟩ := ih (h.pin r)
    rw [show h.pinAll (r :: rs) = (h.pin r).pinAll rs from rfl, hpinned]
    unfold Heap.pin
    cases hn : r.isNull with
    | true =>
      rw [List.filter_cons_of_neg (by simp [hn]), if_pos rfl]
      exact ⟨front, hperm, rfl⟩
    | false =>
      rw [List.filter_cons_of_pos (by simp [hn]), if_neg Bool.false_ne_true]
      refine ⟨front ++ [r], ?_, by simp⟩
      exact (List.perm_append_singleton r front).trans (hperm.cons r)

namespace Machine
open Stateful

/-- Arrays hold what their classes allow, and bodies make arrays of classes that are there. -/
structure Furnished (m : Machine) : Prop where
  moored : m.classes.Moored
  grounded : m.classes.Grounded
  bodies : ∀ code, m.Stands code → code.Grounded m.classes
  hostless : ∀ id, m.natives.get? id = none
  pinned : ∀ r ∈ m.heap.pinned, r.isNull = false
  next : m.heap.nextHandle ≠ 0
  arrays : m.heap.Furnished m.classes

/-- The same later on. What is pinned meanwhile stays live, with its class. -/
structure Maintains (m m' : Machine) : Prop where
  furnished : Furnished m'
  retains : m.classes.Retains m'.classes
  precedes : m.classes.Precedes m'.classes
  pinned : m'.heap.pinned = m.heap.pinned
  held : ∀ r ∈ m.heap.pinned, ∀ o, m.heap.get? r = some o → ∃ o', m'.heap.get? r = some o' ∧ o'.type = o.type

variable {ε α β : Type} {m m' m'' : Machine} {t : ThreadId}

theorem Maintains.trans (h : Maintains m m') (h' : Maintains m' m'') : Maintains m m'' := by
  refine ⟨h'.furnished, h.retains.trans h'.retains, h.precedes.trans h'.precedes, h'.pinned.trans h.pinned,
    fun r hr o ho => ?_⟩
  obtain ⟨o', ho', htype⟩ := h.held r hr o ho
  obtain ⟨o'', ho'', htype'⟩ := h'.held r (h.pinned ▸ hr) o' ho'
  exact ⟨o'', ho'', htype'.trans htype⟩

/-- Classes are as they were, frames stand in bodies like those before, and arrays have what they had. -/
theorem Maintains.of_carries (hm : Furnished m) (hclasses : m'.classes = m.classes)
    (hbodies : ∀ code, m'.Stands code → code.Grounded m.classes) (hnatives : m'.natives = m.natives)
    (hheap : m.heap.Carries m'.heap) : Maintains m m' := by
  refine ⟨⟨hclasses ▸ hm.moored, hclasses ▸ hm.grounded, hclasses ▸ hbodies, hnatives ▸ hm.hostless,
    hheap.pinned ▸ hm.pinned, hheap.next hm.next, hclasses ▸ hm.arrays.carries hheap⟩, hclasses ▸ .refl _,
    hclasses ▸ .refl _, hheap.pinned, hheap.held⟩

theorem Maintains.of_aside (hm : Furnished m) (ha : m.Aside m') (hnatives : m'.natives = m.natives)
    (hheap : m.heap.Carries m'.heap) : Maintains m m' :=
  .of_carries hm ha.classes (fun code hcode => hm.bodies code (ha.stands code hcode)) hnatives hheap

theorem Maintains.refl (hm : Furnished m) : Maintains m m :=
  .of_carries hm rfl hm.bodies rfl (.refl _)

/-- Static fields are other than they were. -/
theorem Maintains.restatic (hm : Furnished m) (s : Statics) : Maintains m { m with statics := s } := by
  refine .of_carries hm rfl (fun code hcode => hm.bodies code ?_) rfl (.refl _)
  cases hcode with
  | running hf hcode => exact .running hf hcode
  | parked hr hf hcode => exact .parked hr hf hcode

/-- The frames of the running thread are others. -/
theorem Maintains.reframe (hm : Furnished m) {frames : FrameStack}
    (hframes : ∀ f ∈ frames, f.code.Grounded m.classes) : Maintains m { m with active := frames } := by
  refine .of_carries hm rfl (fun code hcode => ?_) rfl (.refl _)
  cases hcode with
  | running hf hcode => exact hcode ▸ hframes _ hf
  | parked hr hf hcode => exact hm.bodies code (.parked hr hf hcode)

theorem Maintains.reheap (hm : Furnished m) {h : Heap} (hheap : m.heap.Carries h) :
    Maintains m { m with heap := h } := .of_aside hm (.of_eq rfl rfl rfl rfl) rfl hheap

/-- The heap is another, with the same pins. -/
theorem Maintains.of_arrays (hm : Furnished m) {h : Heap} (harrays : h.Furnished m.classes)
    (hpinned : h.pinned = m.heap.pinned) (hnext : h.nextHandle ≠ 0)
    (hheld : ∀ r o, m.heap.get? r = some o → ∃ o', h.get? r = some o' ∧ o'.type = o.type) :
    Maintains m { m with heap := h } := by
  refine ⟨⟨hm.moored, hm.grounded, fun code hcode => hm.bodies code ?_, hm.hostless, hpinned ▸ hm.pinned,
    hnext, harrays⟩, .refl _, .refl _, hpinned, fun r _ o ho => hheld r o ho⟩
  cases hcode with
  | running hf hcode => exact .running hf hcode
  | parked hr hf hcode => exact .parked hr hf hcode

/-- Tables grow, and what is found out about classes is added to them. -/
theorem Maintains.relink {l : Linker} (hm : Furnished m) (hretains : m.classes.Retains l.classes)
    (hprecedes : m.classes.Precedes l.classes) (hgrounded : l.classes.Grounded) :
    Maintains m { m with linker := l } := by
  refine ⟨⟨hretains.moored hm.moored, hgrounded, fun code hcode => ?_, hm.hostless, hm.pinned, hm.next,
    hm.arrays.retains hretains hm.moored⟩, hretains, hprecedes, rfl, fun r _ o ho => ⟨o, ho, rfl⟩⟩
  have hstands : m.Stands code := by
    cases hcode with
    | running hf hcode => exact .running hf hcode
    | parked hr hf hcode => exact .parked hr hf hcode
  exact lasting_grounded.code (hm.bodies code hstands) hprecedes

theorem Maintains.of_turns {l : Linker} (hm : Furnished m) (hturns : m.linker.Turns l)
    (hgrounded : l.classes.Grounded) : Maintains m { m with linker := l } :=
  .relink hm (Linker.Turns.retains hturns) hturns.unfolds.precedes hgrounded

/-- Run on a machine whose arrays hold what their classes allow, `x` leaves one. -/
def Maintaining (x : EStateM ε Machine α) : Prop :=
  ∀ m, Furnished m → Ends (x m) (fun _ m' => Maintains m m') fun _ m' => Maintains m m'

namespace Maintaining

/-- What leaves classes and the heap alone. -/
theorem of_aside {x : EStateM ε Machine α} (hx : ∀ m, Ends (x m)
      (fun _ m' => m.Aside m' ∧ m'.natives = m.natives ∧ m.heap.Carries m'.heap)
      fun _ m' => m.Aside m' ∧ m'.natives = m.natives ∧ m.heap.Carries m'.heap) : Maintaining x := fun m hm =>
  (hx m).mono (fun _ _ h => .of_aside hm h.1 h.2.1 h.2.2) fun _ _ h => .of_aside hm h.1 h.2.1 h.2.2

theorem pure (a : α) : Maintaining (Pure.pure a : EStateM ε Machine α) := fun _ hm => .refl hm

theorem throw (e : ε) : Maintaining (throw e : EStateM ε Machine α) := fun _ hm => .refl hm

theorem along {x : EStateM ε Machine α} {f : α → EStateM ε Machine β} (hx : Maintaining x)
    (hf : ∀ a, (∃ m m', x m = .ok a m') → Maintaining (f a)) : Maintaining (x >>= f) := by
  intro m hm
  have hends := hx m hm
  cases hr : x m with
  | ok a m₁ =>
    have h₁ := hends.of_ok hr
    rw [bind_of_ok hr]
    exact (hf a ⟨m, m₁, hr⟩ m₁ h₁.furnished).mono (fun _ _ h => h₁.trans h) fun _ _ h => h₁.trans h
  | error e m₁ =>
    rw [bind_of_error hr]
    exact hends.of_error hr

theorem bind {x : EStateM ε Machine α} {f : α → EStateM ε Machine β} (hx : Maintaining x)
    (hf : ∀ a, Maintaining (f a)) : Maintaining (x >>= f) := hx.along fun a _ => hf a

theorem read {f : Machine → EStateM ε Machine β} (hf : ∀ m, Maintaining (f m)) :
    Maintaining (get >>= f) := fun m hm => hf m m hm

theorem modify {f : Machine → Machine} (hf : ∀ m, Furnished m → Maintains m (f m)) :
    Maintaining (modify f : EStateM ε Machine Unit) := hf

/-- What comes after `x` keeps arrays as well. -/
theorem ensuring {x : MachineM α} {after : Machine → Machine} (hx : Maintaining x)
    (ha : ∀ m, Furnished m → Maintains m (after m)) : Maintaining (ensuring x after) := by
  intro m hm
  have hends := hx m hm
  have hafter : ∀ m', Maintains m m' → Maintains m (after m') := fun m' h => h.trans (ha m' h.furnished)
  unfold Machine.ensuring
  cases hr : x m with
  | ok a m' => exact hafter m' (hends.of_ok hr)
  | error e m' => exact hafter m' (hends.of_error hr)

theorem onScheduler {f : Scheduler FrameStack → α × Scheduler FrameStack}
    (hf : ∀ s : Scheduler FrameStack, s.Alike (f s).2) : Maintaining (onScheduler f) :=
  .of_aside fun m => ⟨.of_alike (hf m.scheduler), rfl, .refl _⟩

theorem updateThread (t : ThreadId) {f : Thread FrameStack → Thread FrameStack}
    (hf : ∀ r, (f r).stack = r.stack) : Maintaining (updateThread t f) :=
  .of_aside fun _ => ⟨.updateThread t hf, rfl, .refl _⟩

theorem onSync {x : SyncM FrameStack α} (hx : Sync.Gentle (fun _ => True) x) : Maintaining (onSync x) := by
  refine .of_aside fun m => ?_
  have hends := hx ⟨m.heap, m.scheduler⟩
  unfold Machine.onSync
  cases hr : x ⟨m.heap, m.scheduler⟩ with
  | ok a s =>
    have h := hends.of_ok hr
    exact ⟨.of_pointwise (fun _ _ h => h.stack) h.threads rfl rfl rfl rfl, rfl, h.carries⟩
  | error e s =>
    have h := hends.of_error hr
    exact ⟨.of_pointwise (fun _ _ h => h.stack) h.threads rfl rfl rfl rfl, rfl, h.carries⟩

theorem updateHeap {f : Heap → Heap} (hf : ∀ h : Heap, h.Carries (f h)) : Maintaining (updateHeap f) :=
  .modify fun m hm => .reheap hm (hf m.heap)

theorem onTop {x : FrameM α} (hx : Frame.Plain x) : Maintaining (onTop x) := by
  intro m hm
  unfold Machine.onTop
  cases ha : m.active with
  | nil => exact .refl hm
  | cons f rest =>
    have hplain := hx f
    have hreframed : ∀ g : Frame, g.code = f.code → Maintains m { m with active := g :: rest } := by
      intro g hg
      refine .reframe hm fun f' hf' => ?_
      rcases List.mem_cons.1 hf' with rfl | hf'
      · exact hm.bodies _ (.running (ha ▸ List.mem_cons_self) hg.symm)
      · exact hm.bodies _ (.running (ha ▸ List.mem_cons_of_mem f hf') rfl)
    dsimp only
    cases hr : x f with
    | ok a g => exact hreframed g (hplain.of_ok hr)
    | error e g => exact hreframed g (hplain.of_error hr).1

theorem onLinker {x : StateM Linker α} (hx : Linker.Consulting x) : Maintaining (onLinker x) := fun m hm =>
  .of_turns hm (hx.turning m.linker) (Linker.Consults.bodies lasting_grounded (hx m.linker) hm.moored hm.grounded)

theorem reserve (units : Nat) : Maintaining (reserve units) := by
  intro m hm
  have hcarries := Heap.reserve_carries m.roots m.heap units
  unfold Machine.reserve
  cases hr : m.heap.reserve m.roots units with
  | mk result h =>
    rw [hr] at hcarries
    cases result with
    | ok u => exact .reheap hm hcarries
    | error e => exact .reheap hm hcarries

theorem insertObject {o : Object} (ho : o.elements? = none) : Maintaining (insertObject o) := by
  intro m hm
  unfold Machine.insertObject
  dsimp only
  split
  · exact .refl hm
  · next hfree => exact .reheap hm (Heap.insert_carries (Bool.eq_false_iff.2 hfree) ho)

end Maintaining

section Pins

/-- The machine with some references pinned. -/
def pinnedAll (rs : List Ref) (m : Machine) : Machine := { m with heap := m.heap.pinAll rs }

theorem mem_pinnedAll {rs : List Ref} {r : Ref} (hr : r ∈ rs) (hnull : r.isNull = false) :
    r ∈ (pinnedAll rs m).heap.pinned := by
  obtain ⟨front, hfront, hpinned⟩ := m.heap.pinned_pinAll rs
  show r ∈ (m.heap.pinAll rs).pinned
  rw [hpinned]
  exact List.mem_append_left _ (hfront.symm.subset (List.mem_filter.2 ⟨hr, by simp [hnull]⟩))

theorem get?_pinAll (h : Heap) (rs : List Ref) (r : Ref) : (h.pinAll rs).get? r = h.get? r := by
  unfold Heap.get?
  rw [(Heap.objects_pinAll rs h).1]

theorem get?_unpinAll (h : Heap) (rs : List Ref) (r : Ref) : (h.unpinAll rs).get? r = h.get? r := by
  unfold Heap.get?
  rw [(Heap.objects_unpinAll rs h).1]

/-- Pins are no part of what arrays hold. -/
theorem Furnished.of_pins (hm : Furnished m) {h : Heap} (ho : h.objects = m.heap.objects)
    (hnext : h.nextHandle = m.heap.nextHandle) (hp : ∀ r ∈ h.pinned, r.isNull = false) :
    Furnished { m with heap := h } := by
  refine ⟨hm.moored, hm.grounded, fun code hcode => hm.bodies code ?_, hm.hostless, hp, hnext ▸ hm.next,
    hm.arrays.of_objects_eq ho⟩
  cases hcode with
  | running hf hcode => exact .running hf hcode
  | parked hr hf hcode => exact .parked hr hf hcode

/-- What is pinned while `x` runs is live afterwards, with its class. -/
theorem pinning_maintains (rs : List Ref) (hm : Furnished m) {x : MachineM α}
    (hx : Furnished (pinnedAll rs m) → Ends (x (pinnedAll rs m)) (fun _ m' => Maintains (pinnedAll rs m) m')
      fun _ m' => Maintains (pinnedAll rs m) m') :
    Ends (pinning rs x m) (fun _ m' => Maintains m m' ∧ ∀ r ∈ rs, r.isNull = false →
        ∀ o, m.heap.get? r = some o → ∃ o', m'.heap.get? r = some o' ∧ o'.type = o.type)
      fun _ m' => Maintains m m' := by
  obtain ⟨front, hfront, hpinned⟩ := m.heap.pinned_pinAll rs
  have hsome : ∀ r ∈ front ++ m.heap.pinned, r.isNull = false := by
    intro r hr
    rcases List.mem_append.1 hr with hr | hr
    · simpa using (List.mem_filter.1 (hfront.subset hr)).2
    · exact hm.pinned r hr
  have hstart : Furnished (pinnedAll rs m) := hm.of_pins (Heap.objects_pinAll rs m.heap).1
    (Heap.objects_pinAll rs m.heap).2 (hpinned ▸ hsome)
  have hback : ∀ m', Maintains (pinnedAll rs m) m' → Maintains m { m' with heap := m'.heap.unpinAll rs } ∧
      ∀ r ∈ rs, r.isNull = false → ∀ o, m.heap.get? r = some o →
        ∃ o', (m'.heap.unpinAll rs).get? r = some o' ∧ o'.type = o.type := by
    intro m' h
    have hunpinned : (m'.heap.unpinAll rs).pinned = m.heap.pinned :=
      Heap.pinned_unpinAll hm.pinned rs hfront (h.pinned.trans hpinned)
    have hheld : ∀ r ∈ front ++ m.heap.pinned, ∀ o, m.heap.get? r = some o →
        ∃ o', (m'.heap.unpinAll rs).get? r = some o' ∧ o'.type = o.type := by
      intro r hr o ho
      rw [get?_unpinAll]
      refine h.held r ?_ o ((get?_pinAll m.heap rs r).trans ho)
      show r ∈ (m.heap.pinAll rs).pinned
      rw [hpinned]
      exact hr
    refine ⟨⟨h.furnished.of_pins (Heap.objects_unpinAll rs m'.heap).1 (Heap.objects_unpinAll rs m'.heap).2
      (hunpinned ▸ hm.pinned), h.retains, h.precedes, hunpinned,
      fun r hr => hheld r (List.mem_append_right _ hr)⟩, fun r hr hnull => hheld r (List.mem_append_left _ ?_)⟩
    exact hfront.symm.subset (List.mem_filter.2 ⟨hr, by simp [hnull]⟩)
  have hends := hx hstart
  show Ends (ensuring x (fun m' => { m' with heap := m'.heap.unpinAll rs }) (pinnedAll rs m)) _ _
  unfold ensuring
  cases hr : x (pinnedAll rs m) with
  | ok a m' => exact hback m' (hends.of_ok hr)
  | error e m' => exact (hback m' (hends.of_error hr)).1

theorem Maintaining.pinning (rs : List Ref) {x : MachineM α} (hx : Maintaining x) :
    Maintaining (pinning rs x) := fun _ hm =>
  (pinning_maintains rs hm fun h => hx _ h).mono (fun _ _ h => h.1) fun _ _ h => h

end Pins

end Machine

end ClassMachine
