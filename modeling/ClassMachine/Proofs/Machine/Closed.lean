import ClassMachine.Machine.Host
import ClassMachine.Proofs.Heap.Closed
import ClassMachine.Proofs.Machine.Quiet

/-!
Machines without dangling references. Whatever frames, threads, static fields and the heap hold names
live objects, and making objects keeps it so: a collection starts from all of it, and what is made
before another object is pinned meanwhile.
-/
namespace ClassMachine

/-- Locals, operands and the monitor of a frame lie in `S`. -/
structure Frame.Within (S : Ref → Prop) (f : Frame) : Prop where
  locals : ∀ v ∈ f.locals, v.Within S
  stack : ∀ v ∈ f.stack, v.Within S
  monitor : ∀ r, f.monitor = some r → S r

theorem Frame.Within.mono {S T : Ref → Prop} (h : ∀ r, S r → T r) {f : Frame} (hf : f.Within S) :
    f.Within T :=
  ⟨fun v hv => (hf.locals v hv).mono h, fun v hv => (hf.stack v hv).mono h,
    fun r hr => h r (hf.monitor r hr)⟩

theorem Frame.within_iff_references {S : Ref → Prop} (hnull : ∀ r : Ref, r.isNull = true → S r)
    {f : Frame} : f.Within S ↔ ∀ r ∈ f.references, S r := by
  unfold Frame.references
  simp only [List.mem_filter, List.mem_append, List.mem_filterMap, Array.mem_toList_iff,
    List.mem_reverse, Option.mem_toList, Bool.not_eq_true']
  constructor
  · rintro ⟨hl, hs, hm⟩ r ⟨⟨v, hv | hv, hr⟩ | hr, _⟩
    · exact Value.within_iff_ref?.1 (hl v hv) r hr
    · exact Value.within_iff_ref?.1 (hs v hv) r hr
    · exact hm r hr
  · intro h
    have hlive : ∀ r, (r.isNull = false → S r) → S r := by
      intro r hr
      cases hn : r.isNull with
      | true => exact hnull r hn
      | false => exact hr hn
    constructor
    · exact fun v hv => Value.within_iff_ref?.2 fun r hr =>
        hlive r fun hn => h r ⟨.inl ⟨v, .inl hv, hr⟩, hn⟩
    · exact fun v hv => Value.within_iff_ref?.2 fun r hr =>
        hlive r fun hn => h r ⟨.inl ⟨v, .inr hv, hr⟩, hn⟩
    · exact fun r hr => hlive r fun hn => h r ⟨.inr hr, hn⟩

/-- The object that stands for a thread, the monitor it waits for and its frames lie in `S`. -/
structure Thread.Within (S : Ref → Prop) (t : Thread FrameStack) : Prop where
  object : S t.object
  pending : ∀ p, t.pending = some p → S p.object
  stack : ∀ f ∈ t.stack, Frame.Within S f

theorem Thread.within_iff_refs {S : Ref → Prop} (hnull : ∀ r : Ref, r.isNull = true → S r)
    {t : Thread FrameStack} : t.Within S ↔ ∀ r ∈ t.refs, S r := by
  unfold Thread.refs
  simp only [List.cons_append, List.mem_cons, List.mem_append, Option.mem_toList, List.mem_flatMap,
    Option.map_eq_some_iff]
  constructor
  · rintro ⟨ho, hp, hs⟩ r (rfl | ⟨p, hpending, rfl⟩ | ⟨f, hf, hr⟩)
    · exact ho
    · exact hp p hpending
    · exact (Frame.within_iff_references hnull).1 (hs f hf) r hr
  · intro h
    constructor
    · exact h _ (.inl rfl)
    · exact fun p hp => h _ (.inr (.inl ⟨p, hp, rfl⟩))
    · exact fun f hf => (Frame.within_iff_references hnull).2 fun r hr => h r (.inr (.inr ⟨f, hf, hr⟩))

/-- Static fields lie in `S`. -/
def Statics.Within (S : Ref → Prop) (s : Statics) : Prop :=
  ∀ id values, s.slots? id = some values → ∀ v ∈ values, v.Within S

theorem Statics.within_iff_refs {S : Ref → Prop} {s : Statics} :
    s.Within S ↔ ∀ r ∈ s.refs, S r := by
  unfold Statics.refs
  simp only [List.mem_flatMap, Maps.mem_values, List.mem_filterMap, Array.mem_toList_iff]
  constructor
  · rintro h r ⟨values, ⟨id, hid⟩, v, hv, hr⟩
    exact Value.within_iff_ref?.1 (h id values hid v hv) r hr
  · intro h id values hid v hv
    exact Value.within_iff_ref?.2 fun r hr => h r ⟨values, ⟨id, hid⟩, v, hv, hr⟩

namespace Machine
open Stateful

/-- Every reference held anywhere is null or names a live object. -/
structure Closed (m : Machine) : Prop where
  heap : m.heap.Closed
  threads : ∀ id t, m.scheduler.get? id = some t → t.Within m.heap.Names
  active : ∀ f ∈ m.active, Frame.Within m.heap.Names f
  statics : m.statics.Within m.heap.Names

/-- Where collections start is all that the threads, the frames and the static fields hold. -/
theorem within_iff_roots {S : Ref → Prop} (hnull : ∀ r : Ref, r.isNull = true → S r) {m : Machine} :
    ((∀ id t, m.scheduler.get? id = some t → t.Within S) ∧ (∀ f ∈ m.active, Frame.Within S f) ∧
      m.statics.Within S) ↔ ∀ r ∈ m.roots, S r := by
  unfold roots Scheduler.toList
  simp only [List.mem_append, List.mem_flatMap, Maps.mem_values, Statics.within_iff_refs]
  constructor
  · rintro ⟨ht, ha, hs⟩ r ((⟨t, ⟨id, hid⟩, hr⟩ | ⟨f, hf, hr⟩) | hr)
    · exact (Thread.within_iff_refs hnull).1 (ht id t hid) r hr
    · exact (Frame.within_iff_references hnull).1 (ha f hf) r hr
    · exact hs r hr
  · intro h
    refine ⟨fun id t hid => ?_, fun f hf => ?_, fun r hr => h r (.inr hr)⟩
    · exact (Thread.within_iff_refs hnull).2 fun r hr => h r (.inl (.inl ⟨t, ⟨id, hid⟩, hr⟩))
    · exact (Frame.within_iff_references hnull).2 fun r hr => h r (.inl (.inr ⟨f, hf, hr⟩))

/-- What is pinned, with the exception kept for a full heap among it. -/
structure Pins where
  held : List Ref
  spare : Ref
  mem : spare ∈ held

/-- One pin more. -/
def Pins.cons (r : Ref) (pins : Pins) : Pins := ⟨r :: pins.held, pins.spare, .tail r pins.mem⟩

/-- A closed machine without natives of the host, and with these pins. -/
structure Tidy (pins : Pins) (m : Machine) : Prop where
  closed : m.Closed
  noHost : ∀ id, m.natives.get? id = none
  numbered : m.scheduler.Numbered
  pinned : m.heap.pinned.filter (!·.isNull) = pins.held
  spare : m.outOfMemory = pins.spare

/-- A tidy machine while a thread runs: its frames are out of its record. -/
structure Tended (t : ThreadId) (pins : Pins) (m : Machine) : Prop where
  tidy : Tidy pins m
  running : ∃ r, m.scheduler.get? t = some r ∧ r.stack = []

/-- What goes wrong leaves the machine as `P` says, and an exception is a live object. -/
def Trapped (P : Machine → Prop) : Trap → Machine → Prop
  | .exception r, m => P m ∧ m.heap.Names r
  | _, m => P m

section Rules

variable {α : Type} {t : ThreadId} {pins : Pins} {m : Machine}

theorem Closed.roots (hm : m.Closed) : ∀ r ∈ m.roots, m.heap.Names r :=
  (within_iff_roots fun _ hr => m.heap.names_of_isNull hr).1 ⟨hm.threads, hm.active, hm.statics⟩

theorem Tidy.names_spare (hm : Tidy pins m) : m.heap.Names m.outOfMemory := by
  have h := pins.mem
  rw [← hm.spare, ← hm.pinned] at h
  exact hm.closed.heap.pinned _ (List.mem_filter.1 h).1

theorem Tidy.of_collected (hm : Tidy pins m) {h : Heap} (hc : Heap.Collected m.heap m.roots h) :
    Tidy pins { m with heap := h } := by
  obtain ⟨ht, ha, hs⟩ := (within_iff_roots fun _ hr => h.names_of_isNull hr).2 hc.roots
  exact ⟨⟨hc.closed, ht, ha, hs⟩, hm.noHost, hm.numbered, by rw [← hm.pinned, ← hc.pinned], hm.spare⟩

theorem Tidy.of_grown (hm : Tidy pins m) {h : Heap} (hg : Heap.Grown m.heap h) :
    Tidy pins { m with heap := h } :=
  hm.of_collected ⟨hg.closed, hg.pinned, fun r hr => hg.names r (hm.closed.roots r hr)⟩

theorem Tended.of_collected (hm : Tended t pins m) {h : Heap}
    (hc : Heap.Collected m.heap m.roots h) : Tended t pins { m with heap := h } :=
  ⟨hm.tidy.of_collected hc, hm.running⟩

theorem Tended.of_grown (hm : Tended t pins m) {h : Heap} (hg : Heap.Grown m.heap h) :
    Tended t pins { m with heap := h } := ⟨hm.tidy.of_grown hg, hm.running⟩

/-- The linker, the mark of a yield and the reports of exceptions hold nothing. -/
theorem Tidy.refit (hm : Tidy pins m) (l : Linker) (yielding : Bool)
    (reports : List UncaughtException) :
    Tidy pins { m with linker := l, yieldRequested := yielding, uncaught := reports } :=
  ⟨⟨hm.closed.heap, hm.closed.threads, hm.closed.active, hm.closed.statics⟩, hm.noHost, hm.numbered,
    hm.pinned, hm.spare⟩

theorem Tended.refit (hm : Tended t pins m) (l : Linker) (yielding : Bool)
    (reports : List UncaughtException) :
    Tended t pins { m with linker := l, yieldRequested := yielding, uncaught := reports } :=
  ⟨hm.tidy.refit l yielding reports, hm.running⟩

theorem onLinker_tended (hm : Tended t pins m) (x : StateM Linker α) :
    Ends (onLinker x m) (fun _ m' => Tended t pins m' ∧ m'.heap = m.heap)
      (Trapped (Tended t pins)) := ⟨hm.refit _ _ _, rfl⟩

theorem onClasses_tended (hm : Tended t pins m) (x : StateM ClassTable α) :
    Ends (onClasses x m) (fun _ m' => Tended t pins m' ∧ m'.heap = m.heap)
      (Trapped (Tended t pins)) := onLinker_tended hm _

end Rules

section Making

variable {α : Type} {t : ThreadId} {pins : Pins} {m : Machine}

/-- A new object refers to nothing. -/
abbrev Blank (o : Object) : Prop := o.Within fun r => r.isNull = true

theorem blank_instanceOf (id : ClassId) (kinds : List Kind) : Blank (Object.instanceOf id kinds) := by
  refine ⟨fun v hv => ?_, trivial⟩
  simp only [Object.instanceOf, List.mem_toArray, List.mem_map] at hv
  obtain ⟨kind, _, rfl⟩ := hv
  exact Value.within_zeroOf Ref.isNull_null kind

theorem blank_arrayOf (id : ClassId) (kind : Kind) (length : Nat) :
    Blank (Object.arrayOf id kind length) := by
  refine ⟨fun v hv => ?_, fun v hv => ?_⟩
  · simp [Object.arrayOf, Object.ofPayload] at hv
  · obtain ⟨_, rfl⟩ := Array.mem_replicate.1 hv
    exact Value.within_zeroOf Ref.isNull_null kind

theorem blank_string (id : ClassId) (text : String) : Blank (Object.ofPayload id [] (.str text)) :=
  ⟨fun v hv => by simp [Object.ofPayload] at hv, trivial⟩

theorem blank_mirror (id type : ClassId) : Blank (Object.ofPayload type [] (.mirror id)) :=
  ⟨fun v hv => by simp [Object.ofPayload] at hv, trivial⟩

/-- A failed allocation raises the exception kept for it. -/
theorem allocFailure_trapped (hm : Tended t pins m) (e : AllocError) :
    Trapped (Tended t pins) (m.allocFailure e) m := by
  cases e with
  | exhausted requested used capacity => exact ⟨hm, hm.tidy.names_spare⟩
  | fatal error => exact hm

theorem reserve_tended (hm : Tended t pins m) (units : Nat) :
    Ends (reserve units m) (fun _ m' => Tended t pins m') (Trapped (Tended t pins)) := by
  have hc := Heap.reserve_collected hm.tidy.closed.heap hm.tidy.closed.roots units
  unfold reserve
  cases hr : m.heap.reserve m.roots units with
  | mk result h =>
    rw [hr] at hc
    cases result with
    | ok u => exact hm.of_collected hc
    | error e => exact allocFailure_trapped (hm.of_collected hc) e

theorem insertObject_tended (hm : Tended t pins m) {o : Object} (ho : Blank o) :
    Ends (insertObject o m) (fun r m' => Tended t pins m' ∧ m'.heap.Names r)
      (Trapped (Tended t pins)) := by
  unfold insertObject
  dsimp only
  split
  · exact hm
  · obtain ⟨hg, hnew⟩ := Heap.insert_grown hm.tidy.closed.heap
      (ho.mono fun _ hr => m.heap.names_of_isNull hr)
    exact ⟨hm.of_grown hg, hnew⟩

theorem allocate_tended (hm : Tended t pins m) {o : Object} (ho : Blank o) :
    Ends (allocate o m) (fun r m' => Tended t pins m' ∧ m'.heap.Names r)
      (Trapped (Tended t pins)) :=
  (reserve_tended hm o.weight).bind fun _ _ h₁ => insertObject_tended h₁ ho

theorem newInstance_tended (hm : Tended t pins m) (id : ClassId) :
    Ends (newInstance id m) (fun r m' => Tended t pins m' ∧ m'.heap.Names r)
      (Trapped (Tended t pins)) := by
  unfold newInstance
  refine (onLinker_tended hm _).bind fun found m₁ ⟨h₁, _⟩ => ?_
  cases found with
  | none => exact h₁
  | some c => exact allocate_tended h₁ (blank_instanceOf _ _)

theorem stringObject_tended (hm : Tended t pins m) (text : String) :
    Ends (stringObject text m) (fun r m' => Tended t pins m' ∧ m'.heap.Names r)
      (Trapped (Tended t pins)) := by
  unfold stringObject
  rw [bind_get]
  exact allocate_tended hm (blank_string _ _)

theorem filter_erase_null (l : List Ref) {r : Ref} (hr : r.isNull = true) :
    (l.erase r).filter (!·.isNull) = l.filter (!·.isNull) := by
  induction l with
  | nil => rfl
  | cons a l ih =>
    by_cases ha : a = r
    · subst ha
      rw [List.erase_cons_head, List.filter_cons_of_neg (by simp [hr])]
    · rw [List.erase_cons_tail (by simpa using ha)]
      cases hn : a.isNull with
      | true => rw [List.filter_cons_of_neg (by simp [hn]), List.filter_cons_of_neg (by simp [hn]), ih]
      | false => rw [List.filter_cons_of_pos (by simp [hn]), List.filter_cons_of_pos (by simp [hn]), ih]

theorem filter_erase_cons (l : List Ref) {r : Ref} (hr : r.isNull = false) {pins : List Ref}
    (hl : l.filter (!·.isNull) = r :: pins) : (l.erase r).filter (!·.isNull) = pins := by
  induction l with
  | nil => cases hl
  | cons a l ih =>
    by_cases ha : a = r
    · subst ha
      rw [List.erase_cons_head]
      rw [List.filter_cons_of_pos (by simp [hr])] at hl
      injection hl
    · rw [List.erase_cons_tail (by simpa using ha)]
      cases hn : a.isNull with
      | true =>
        rw [List.filter_cons_of_neg (by simp [hn])] at hl ⊢
        exact ih hl
      | false =>
        rw [List.filter_cons_of_pos (by simp [hn])] at hl
        injection hl with hhead
        exact absurd hhead ha

/-- A reference is pinned. -/
theorem Tended.pin (hm : Tended t pins m) {r : Ref} (hn : r.isNull = false) (hr : m.heap.Names r) :
    Tended t (pins.cons r) { m with heap := { m.heap with pinned := r :: m.heap.pinned } } := by
  have hc := Heap.pin_closed hm.tidy.closed.heap hr
  unfold Heap.pin at hc
  rw [hn] at hc
  have hclosed := hm.tidy.closed
  refine ⟨⟨⟨hc, hclosed.threads, hclosed.active, hclosed.statics⟩, hm.tidy.noHost, hm.tidy.numbered,
    ?_, hm.tidy.spare⟩, hm.running⟩
  show (r :: m.heap.pinned).filter _ = r :: pins.held
  rw [List.filter_cons_of_pos (by simp [hn]), hm.tidy.pinned]

/-- A pin is taken off. -/
theorem Tended.unpin {pins' : Pins} (hm : Tended t pins' m) {r : Ref}
    (hp : (m.heap.unpin r).pinned.filter (!·.isNull) = pins.held) (hs : pins'.spare = pins.spare) :
    Tended t pins { m with heap := m.heap.unpin r } := by
  have hclosed := hm.tidy.closed
  exact ⟨⟨⟨Heap.unpin_closed hclosed.heap r, hclosed.threads, hclosed.active, hclosed.statics⟩,
    hm.tidy.noHost, hm.tidy.numbered, hp, hm.tidy.spare.trans hs⟩, hm.running⟩

/-- What is done in any case afterwards leaves the objects alone. -/
theorem ensuring_ends {P P' : Machine → Prop} {Q : α → (Ref → Prop) → Prop} {x : MachineM α}
    {after : Machine → Machine}
    (hx : Ends (x m) (fun a m' => P' m' ∧ Q a m'.heap.Names) (Trapped P'))
    (hafter : ∀ m', P' m' → P (after m') ∧ (after m').heap.Names = m'.heap.Names) :
    Ends (ensuring x after m) (fun a m' => P m' ∧ Q a m'.heap.Names) (Trapped P) := by
  unfold ensuring
  cases hr : x m with
  | ok a m' =>
    obtain ⟨hm', hq⟩ := hx.of_ok hr
    obtain ⟨hp, hn⟩ := hafter m' hm'
    exact ⟨hp, by rw [hn]; exact hq⟩
  | error e m' =>
    have he := hx.of_error hr
    cases e with
    | exception exception =>
      obtain ⟨hp, hn⟩ := hafter m' he.1
      exact ⟨hp, by rw [hn]; exact he.2⟩
    | fatal error => exact (hafter m' he).1
    | outOfFuel => exact (hafter m' he).1

theorem ensuring_trapped {P P' : Machine → Prop} {x : MachineM α} {after : Machine → Machine}
    (hx : Ends (x m) (fun _ m' => P' m') (Trapped P'))
    (hafter : ∀ m', P' m' → P (after m') ∧ (after m').heap.Names = m'.heap.Names) :
    Ends (ensuring x after m) (fun _ m' => P m') (Trapped P) := by
  have hx' : Ends (x m) (fun _ m' => P' m' ∧ True) (Trapped P') :=
    hx.mono (fun _ _ h => ⟨h, trivial⟩) fun _ _ h => h
  exact (ensuring_ends (Q := fun _ _ => True) hx' hafter).mono (fun _ _ h => h.1) fun _ _ h => h

section Pinning

variable {x : MachineM α} {Q : α → (Ref → Prop) → Prop}
  (hx : ∀ pins m, Tended t pins m → Ends (x m) (fun a m' => Tended t pins m' ∧ Q a m'.heap.Names)
    (Trapped (Tended t pins)))
include hx

/-- A null reference is not pinned. -/
theorem pinning_null_tended (hm : Tended t pins m) {r : Ref} (hn : r.isNull = true) :
    Ends (pinning [r] x m) (fun a m' => Tended t pins m' ∧ Q a m'.heap.Names)
      (Trapped (Tended t pins)) := by
  have hpin : pinning [r] x m = ensuring x (fun m => { m with heap := m.heap.unpin r }) m := by
    show ensuring x _ { m with heap := m.heap.pin r } = _
    unfold Heap.pin
    rw [if_pos hn]
    rfl
  rw [hpin]
  refine ensuring_ends (hx pins m hm) fun m' hm' => ⟨hm'.unpin ?_ rfl, rfl⟩
  rw [← hm'.tidy.pinned]
  exact filter_erase_null _ hn

theorem pinning_live_tended (hm : Tended t pins m) {r : Ref} (hn : r.isNull = false)
    (hr : m.heap.Names r) :
    Ends (pinning [r] x m) (fun a m' => Tended t pins m' ∧ m'.heap.Names r ∧ Q a m'.heap.Names)
      (Trapped (Tended t pins)) := by
  let pinned : Machine := { m with heap := { m.heap with pinned := r :: m.heap.pinned } }
  have hpin : pinning [r] x m = ensuring x (fun m => { m with heap := m.heap.unpin r }) pinned := by
    show ensuring x _ { m with heap := m.heap.pin r } = _
    unfold Heap.pin
    rw [if_neg (by simp [hn])]
    rfl
  rw [hpin]
  have hend : Ends (x pinned)
      (fun a m' => Tended t (pins.cons r) m' ∧ m'.heap.Names r ∧ Q a m'.heap.Names)
      (Trapped (Tended t (pins.cons r))) := by
    refine (hx (pins.cons r) pinned (hm.pin hn hr)).mono
      (fun a m' ⟨hm', hq⟩ => ⟨hm', ?_, hq⟩) fun _ _ h => h
    have hmem : r ∈ m'.heap.pinned.filter (!·.isNull) := by
      rw [hm'.tidy.pinned]
      exact List.mem_cons_self
    exact hm'.tidy.closed.heap.pinned r (List.mem_filter.1 hmem).1
  refine ensuring_ends (Q := fun a N => N r ∧ Q a N) hend fun m' hm' => ⟨?_, rfl⟩
  have hoff : (m'.heap.unpin r).pinned.filter (!·.isNull) = pins.held :=
    filter_erase_cons _ hn hm'.tidy.pinned
  exact hm'.unpin hoff rfl

/-- What is pinned is live when `x` is done, whatever `x` collects. -/
theorem pinning_tended (hm : Tended t pins m) (r : Option Ref) (hr : ∀ a ∈ r, m.heap.Names a) :
    Ends (pinning r.toList x m)
      (fun a m' => Tended t pins m' ∧ (∀ a ∈ r, m'.heap.Names a) ∧ Q a m'.heap.Names)
      (Trapped (Tended t pins)) := by
  cases r with
  | none =>
    have hend := ensuring_ends (P := Tended t pins) (hx pins m hm)
      fun m' hm' => ⟨show Tended t pins (id m') from hm', rfl⟩
    exact hend.mono (fun _ _ h => ⟨h.1, (fun _ ha => by cases ha), h.2⟩) fun _ _ h => h
  | some r =>
    cases hn : r.isNull with
    | true =>
      refine (pinning_null_tended hx hm hn).mono (fun a m' h => ⟨h.1, fun b hb => ?_, h.2⟩)
        fun _ _ h => h
      cases hb
      exact Heap.names_of_isNull _ hn
    | false =>
      refine (pinning_live_tended hx hm hn (hr r rfl)).mono
        (fun a m' h => ⟨h.1, fun b hb => ?_, h.2.2⟩) fun _ _ h => h
      cases hb
      exact h.2.1

end Pinning

/-- A field of an object is written. -/
theorem setField_grown (hm : Tended t pins m) (object : Ref) (slot : Nat) {v : Value}
    (hv : v.Within m.heap.Names) :
    Heap.Grown m.heap (m.heap.update object (·.setField slot v)) := by
  refine Heap.update_grown hm.tidy.closed.heap object fun o _ ho => ⟨fun w hw => ?_, ho.payload⟩
  rcases Array.mem_or_eq_of_mem_setIfInBounds hw with hw | rfl
  · exact ho.fields w hw
  · exact hv

theorem setElement_within {S : Ref → Prop} {o : Object} (ho : o.Within S) (index : Nat) {v : Value}
    (hv : v.Within S) : (o.setElement index v).Within S := by
  unfold Object.setElement
  split
  · next kind elements hp =>
    refine ⟨ho.fields, fun w hw => ?_⟩
    have helements := ho.payload
    rw [hp] at helements
    rcases Array.mem_or_eq_of_mem_setIfInBounds hw with hw | rfl
    · exact helements w hw
    · exact hv
  · exact ho

/-- An exception is raised, and never anything else. -/
theorem raise_tended (hm : Tended t pins m) (className : String) (message : Option String)
    {Q : α → Machine → Prop} :
    Ends (raise className message m) Q (Trapped (Tended t pins)) := by
  unfold raise
  rw [bind_get]
  cases m.classes.lookup? className with
  | none => exact hm
  | some id =>
    dsimp only
    have htext : Ends (message.mapM stringObject m)
        (fun text m' => Tended t pins m' ∧ ∀ a ∈ text, m'.heap.Names a)
        (Trapped (Tended t pins)) := by
      cases message with
      | none => exact ⟨hm, fun _ ha => by cases ha⟩
      | some text =>
        refine (stringObject_tended hm text).bind fun r m₁ h₁ => ⟨h₁.1, ?_⟩
        intro a ha
        cases ha
        exact h₁.2
    refine htext.bind fun text m₁ ⟨h₁, hlive⟩ => ?_
    refine (pinning_tended (Q := fun r N => N r) (fun _ _ hm => newInstance_tended hm id) h₁ text
      hlive).bind fun exception m₂ ⟨h₂, hlive₂, hnew⟩ => ?_
    rw [bind_get]
    cases m₂.core.messageSlot with
    | none => exact ⟨h₂, hnew⟩
    | some slot =>
      cases text with
      | none => exact ⟨h₂, hnew⟩
      | some r =>
        have hg := setField_grown h₂ exception slot (v := .ref r) (hlive₂ r rfl)
        exact ⟨h₂.of_grown hg, hg.names _ hnew⟩

theorem raiseNullPointer_tended (hm : Tended t pins m) {Q : α → Machine → Prop} :
    Ends (raiseNullPointer m) Q (Trapped (Tended t pins)) := raise_tended hm _ _

theorem raiseSync_tended (hm : Tended t pins m) (e : SyncError) {Q : α → Machine → Prop} :
    Ends (raiseSync e m) Q (Trapped (Tended t pins)) := by
  cases e with
  | monitor e => exact raise_tended hm _ _
  | fatal e => exact hm

theorem newArray_tended (hm : Tended t pins m) (id : ClassId) (kind : Kind) (length : Int32) :
    Ends (newArray id kind length m) (fun r m' => Tended t pins m' ∧ m'.heap.Names r)
      (Trapped (Tended t pins)) := by
  unfold newArray
  split
  · exact raise_tended hm _ _
  · exact (reserve_tended hm _).bind fun _ m₁ h₁ => insertObject_tended h₁ (blank_arrayOf id kind _)

theorem fillArray_tended {make : MachineM Ref}
    (hmake : ∀ pins m, Tended t pins m → Ends (make m)
      (fun r m' => Tended t pins m' ∧ m'.heap.Names r) (Trapped (Tended t pins)))
    (hm : Tended t pins m) (array : Ref) (count index : Nat) :
    Ends (fillArray array make count index m) (fun _ m' => Tended t pins m')
      (Trapped (Tended t pins)) := by
  induction count generalizing m index with
  | zero => exact hm
  | succ count ih =>
    unfold fillArray
    refine (hmake pins m hm).bind fun child m₁ ⟨h₁, hchild⟩ => ?_
    have hg := Heap.update_grown h₁.tidy.closed.heap array fun o _ ho =>
      setElement_within ho index (v := .ref child) hchild
    exact ih (h₁.of_grown hg) (index + 1)

theorem newMultiArray_tended (lengths : List Int32) (id : ClassId) (hm : Tended t pins m) :
    Ends (newMultiArray lengths id m) (fun r m' => Tended t pins m' ∧ m'.heap.Names r)
      (Trapped (Tended t pins)) := by
  induction lengths generalizing id pins m with
  | nil => exact hm
  | cons length rest ih =>
    unfold newMultiArray
    rw [bind_get]
    cases (m.classes.get? id).bind (·.element) with
    | none => exact hm
    | some element =>
      refine (newArray_tended hm id element.kind length).bind fun array m₁ hmade => ?_
      obtain ⟨h₁, hlive⟩ := hmade
      cases element with
      | primitive kind => exact ⟨h₁, hlive⟩
      | reference inner =>
        dsimp only
        split
        · have hfill := pinning_tended (Q := fun _ _ => True)
            (fun _ _ hm => (fillArray_tended (fun _ _ hm => ih inner hm) hm array
              length.toInt.toNat 0).mono (fun _ _ h => ⟨h, trivial⟩) fun _ _ h => h)
            h₁ (some array) (fun a ha => by cases ha; exact hlive)
          exact hfill.bind fun _ m₂ h₂ => ⟨h₂.1, h₂.2.1 array rfl⟩
        · exact ⟨h₁, hlive⟩

theorem internString_tended (hm : Tended t pins m) (text : String) :
    Ends (internString text m) (fun r m' => Tended t pins m' ∧ m'.heap.Names r)
      (Trapped (Tended t pins)) := by
  unfold internString
  rw [bind_get]
  cases hi : m.heap.interned? text with
  | some r => exact ⟨hm, hm.tidy.closed.heap.interned text r hi⟩
  | none =>
    refine (stringObject_tended hm text).bind fun r m₁ ⟨h₁, hr⟩ => ?_
    have hg := Heap.intern_grown h₁.tidy.closed.heap text hr
    exact ⟨h₁.of_grown hg, hg.names r hr⟩

theorem mirror_tended (hm : Tended t pins m) (id : ClassId) :
    Ends (mirror id m) (fun r m' => Tended t pins m' ∧ m'.heap.Names r)
      (Trapped (Tended t pins)) := by
  unfold mirror
  rw [bind_get]
  cases hi : m.heap.mirror? id with
  | some r => exact ⟨hm, hm.tidy.closed.heap.mirrors id r hi⟩
  | none =>
    dsimp only
    rw [bind_get]
    refine (allocate_tended hm (blank_mirror id _)).bind fun r m₁ ⟨h₁, hr⟩ => ?_
    have hg := Heap.registerMirror_grown h₁.tidy.closed.heap id hr
    exact ⟨h₁.of_grown hg, hg.names r hr⟩

end Making

end Machine

end ClassMachine
