import ClassMachine.Proofs.Heap.Elements
import ClassMachine.Proofs.Machine.Closed
import ClassMachine.Proofs.Machine.Nesting

/-!
Monitors, field and array access, native methods, initializers and calls leave no dangling reference
behind. What an instruction has taken off its frame stays live until it is used, because nothing is
collected in between; a thread that is started holds on to its object by its record.
-/
namespace ClassMachine

/-- A thread keeps its object and frames; a monitor it waits for now and did not before lies in
`S`. -/
structure Thread.Repending (S : Ref → Prop) (t t' : Thread FrameStack) : Prop where
  object : t'.object = t.object
  stack : t'.stack = t.stack
  pending : ∀ p, t'.pending = some p → t.pending = some p ∨ S p.object

theorem Thread.Repending.refl (S : Ref → Prop) (t : Thread FrameStack) : t.Repending S t :=
  ⟨rfl, rfl, fun _ hp => .inl hp⟩

theorem Thread.Repending.trans {S : Ref → Prop} {t u v : Thread FrameStack} (h : t.Repending S u)
    (h' : u.Repending S v) : t.Repending S v := by
  refine ⟨h'.object.trans h.object, h'.stack.trans h.stack, fun p hp => ?_⟩
  rcases h'.pending p hp with hu | hS
  · exact h.pending p hu
  · exact .inr hS

theorem Thread.Alike.repending {t t' : Thread FrameStack} (h : t.Alike t') (S : Ref → Prop) :
    t.Repending S t' := by
  refine ⟨h.object, h.stack, fun p hp => .inl ?_⟩
  rcases h.pending with he | hnone
  · rw [← he, hp]
  · rw [hnone] at hp
    cases hp

theorem Thread.Repending.within {S : Ref → Prop} {t t' : Thread FrameStack} (h : t.Repending S t')
    (ht : t.Within S) : t'.Within S := by
  refine ⟨by rw [h.object]; exact ht.object, fun p hp => ?_, by rw [h.stack]; exact ht.stack⟩
  rcases h.pending p hp with hold | hS
  · exact ht.pending p hold
  · exact hS

namespace Sync
open Stateful

/-- Objects and threads after an operation on monitors. -/
structure Eased (S : Ref → Prop) (a a' : Arena FrameStack) : Prop where
  heap : a.heap.Closed → Heap.Grown a.heap a'.heap
  carries : a.heap.Carries a'.heap
  threads : Scheduler.Pointwise (Thread.Repending S) a.scheduler a'.scheduler

variable {α β : Type} {S : Ref → Prop}

theorem Eased.of_threads {a : Arena FrameStack} {s : Scheduler FrameStack}
    (hs : Scheduler.Pointwise (Thread.Repending S) a.scheduler s) :
    Eased S a { a with scheduler := s } := ⟨fun hc => .refl hc, .refl _, hs⟩

theorem Eased.refl (S : Ref → Prop) (a : Arena FrameStack) : Eased S a a :=
  .of_threads (.refl (Thread.Repending.refl S) _)

theorem Eased.trans {a b c : Arena FrameStack} (h : Eased S a b) (h' : Eased S b c) : Eased S a c := by
  refine ⟨fun hc => ?_, h.carries.trans h'.carries, Scheduler.Pointwise.trans (R := Thread.Repending S)
    (fun _ _ _ => Thread.Repending.trans) h.threads h'.threads⟩
  have hb := h.heap hc
  have hc' := h'.heap hb.closed
  exact ⟨hc'.closed, fun r hr => hc'.names r (hb.names r hr), hc'.pinned.trans hb.pinned⟩

/-- Run on an arena, `x` changes monitors and lets threads wait only for what lies in `S`. -/
def Gentle (S : Ref → Prop) (x : SyncM FrameStack α) : Prop :=
  ∀ a, Ends (x a) (fun _ a' => Eased S a a') fun _ a' => Eased S a a'

theorem Gentle.pure (a : α) : Gentle S (Pure.pure a : SyncM FrameStack α) := fun a => .refl S a

theorem Gentle.bind {x : SyncM FrameStack α} {f : α → SyncM FrameStack β} (hx : Gentle S x)
    (hf : ∀ a, Gentle S (f a)) : Gentle S (x >>= f) := by
  intro a
  refine (hx a).bind fun v a' ha => ?_
  exact (hf v a').mono (fun _ _ h => ha.trans h) fun _ _ h => ha.trans h

theorem Gentle.throw (e : SyncError) : Gentle S (throw e : SyncM FrameStack α) := fun a => .refl S a

theorem Gentle.schedule {f : Scheduler FrameStack → Scheduler FrameStack}
    (hf : ∀ s : Scheduler FrameStack, Scheduler.Pointwise (Thread.Repending S) s (f s)) :
    Gentle S (schedule f) := fun a => .of_threads (hf a.scheduler)

theorem Gentle.alike {f : Scheduler FrameStack → Scheduler FrameStack}
    (hf : ∀ s : Scheduler FrameStack, s.Alike (f s)) : Gentle S (Sync.schedule f) :=
  .schedule fun s => (hf s).mono fun _ _ h => h.repending S

theorem monitorOf_gentle (object : Ref) : Gentle S (monitorOf object) := by
  intro a
  unfold monitorOf
  rw [bind_get]
  cases a.heap.get? object with
  | none => exact .refl S a
  | some o => exact .refl S a

theorem setMonitor_gentle (object : Ref) (monitor : Monitor) :
    Gentle S (setMonitor object monitor) := by
  intro a
  refine ⟨fun hc => ?_, Heap.update_carries _ object (fun _ => rfl) fun _ => rfl, .refl (Thread.Repending.refl S) _⟩
  exact Heap.update_grown hc object fun o _ ho => ⟨ho.fields, ho.payload⟩

theorem onMonitor_gentle (object : Ref) (f : Monitor → Except MonitorError (α × Monitor)) :
    Gentle S (onMonitor object f) := by
  unfold onMonitor
  refine (monitorOf_gentle object).bind fun monitor => ?_
  cases f monitor with
  | error e => exact .throw _
  | ok pair => exact (setMonitor_gentle object pair.2).bind fun _ => .pure _

theorem handOver_gentle (next : Option WaitToken) : Gentle S (handOver next) := by
  cases next with
  | none => exact .pure ()
  | some token => exact .alike fun s => (s.attach_wakes token.thread).alike

theorem park_gentle (thread : ThreadId) {p : PendingMonitor} (hp : S p.object) :
    Gentle S (park thread p) := by
  intro a
  unfold park
  rw [bind_get]
  cases a.scheduler.get? thread with
  | none => exact .refl S a
  | some r =>
    refine Eased.of_threads (a.scheduler.update_pointwise (Thread.Repending.refl S) thread fun t => ?_)
    refine ⟨rfl, rfl, fun q hq => .inr ?_⟩
    cases hq
    exact hp

theorem enter_gentle (thread : ThreadId) {object : Ref} (ho : S object) :
    Gentle S (enter thread object) := by
  unfold enter
  refine (onMonitor_gentle object _).bind fun entry => ?_
  cases entry with
  | acquired => exact .pure _
  | queued =>
    exact (park_gentle thread (p := ⟨object, _, _⟩) ho).bind fun _ =>
      (Gentle.alike fun s => s.detach_alike thread _).bind fun _ => .pure _

theorem exit_gentle (thread : ThreadId) (object : Ref) : Gentle S (exit thread object) := by
  unfold exit
  exact (onMonitor_gentle object _).bind fun next => handOver_gentle next

theorem wait_gentle (thread : ThreadId) {object : Ref} (ho : S object) (timeout : Timeout) :
    Gentle S (wait thread object timeout) := by
  unfold wait
  exact (onMonitor_gentle object _).bind fun (token, next) =>
    (park_gentle thread (p := ⟨object, token, _⟩) ho).bind fun _ =>
      (Gentle.alike fun s => s.detach_alike thread timeout).bind fun _ => handOver_gentle next

theorem notify_gentle (thread : ThreadId) (object : Ref) : Gentle S (notify thread object) := by
  unfold notify
  exact (onMonitor_gentle object _).bind fun _ => .pure _

theorem notifyAll_gentle (thread : ThreadId) (object : Ref) : Gentle S (notifyAll thread object) := by
  unfold notifyAll
  exact (onMonitor_gentle object _).bind fun _ => .pure _

theorem takeMonitor_gentle (thread : ThreadId) (p : PendingMonitor) :
    Gentle S (takeMonitor thread p) := by
  unfold takeMonitor
  refine (monitorOf_gentle p.object).bind fun monitor => ?_
  split
  · split
    · exact .pure _
    · exact .throw _
  · exact (setMonitor_gentle _ _).bind fun _ => .pure _

theorem resume_gentle (thread : ThreadId) : Gentle S (resume thread) := by
  intro a
  unfold resume
  rw [bind_get]
  cases (a.scheduler.get? thread).bind (·.pending) with
  | none => exact .refl S a
  | some p =>
    refine (takeMonitor_gentle thread p).bind (fun entry => ?_) a
    cases entry with
    | queued => exact (Gentle.alike fun s => s.detach_alike thread _).bind fun _ => .pure _
    | acquired =>
      refine Gentle.bind (.alike fun s => ?_) fun _ => .pure _
      exact s.update_pointwise Thread.Alike.refl thread fun t => ⟨rfl, rfl, .inr rfl⟩

end Sync

namespace Machine
open Stateful

section Steady

variable {α β : Type} {t : ThreadId} {pins : Pins} {m : Machine} {x : MachineM α}

theorem Tidy.of_threads (hm : Tidy pins m) {s : Scheduler FrameStack}
    (hs : Scheduler.Pointwise (Thread.Repending m.heap.Names) m.scheduler s) :
    Tidy pins { m with scheduler := s } := by
  refine ⟨⟨hm.closed.heap, fun id r hr => ?_, hm.closed.active, hm.closed.statics⟩, hm.noHost,
    hs.numbered hm.numbered, hm.pinned, hm.spare⟩
  obtain ⟨r₀, hr₀, hrel⟩ := hs.exists_of_some' hr
  exact hrel.within (hm.closed.threads id r₀ hr₀)

theorem Tended.of_threads (hm : Tended t pins m) {s : Scheduler FrameStack}
    (hs : Scheduler.Pointwise (Thread.Repending m.heap.Names) m.scheduler s) :
    Tended t pins { m with scheduler := s } := by
  refine ⟨hm.tidy.of_threads hs, ?_⟩
  obtain ⟨r, hr, hstack⟩ := hm.running
  obtain ⟨r', hr', hrel⟩ := hs.exists_of_some hr
  exact ⟨r', hr', hrel.stack.trans hstack⟩

theorem Tidy.of_alike (hm : Tidy pins m) {s : Scheduler FrameStack} (hs : m.scheduler.Alike s) :
    Tidy pins { m with scheduler := s } := hm.of_threads (hs.mono fun _ _ h => h.repending _)

/-- A record and the running frames are changed, and what they hold then is live. -/
theorem Tidy.of_update (hm : Tidy pins m) (u : ThreadId) {f : Thread FrameStack → Thread FrameStack}
    (hf : ∀ r, m.scheduler.get? u = some r → (f r).Within m.heap.Names) {active : FrameStack}
    (ha : ∀ g ∈ active, Frame.Within m.heap.Names g) :
    Tidy pins { m with scheduler := m.scheduler.update u f, active := active } := by
  have hget : ∀ id, (m.scheduler.update u f).get? id =
      if u = id then (m.scheduler.get? id).map f else m.scheduler.get? id :=
    fun id => Scheduler.get?_update _ _ _ _
  refine ⟨⟨hm.closed.heap, fun id r hr => ?_, ha, hm.closed.statics⟩, hm.noHost, fun id r hr => ?_,
    hm.pinned, hm.spare⟩
  · rw [show _ = _ from hget id] at hr
    split at hr
    · next heq =>
      subst heq
      obtain ⟨r₀, hr₀, rfl⟩ := Option.map_eq_some_iff.1 hr
      exact hf r₀ hr₀
    · exact hm.closed.threads id r hr
  · rw [show _ = _ from hget id] at hr
    split at hr
    · obtain ⟨r₀, hr₀, _⟩ := Option.map_eq_some_iff.1 hr
      exact hm.numbered id r₀ hr₀
    · exact hm.numbered id r hr

/-- Everything live stays so. -/
def Steady (t : ThreadId) (x : MachineM α) : Prop :=
  ∀ pins m, Tended t pins m → Ends (x m)
    (fun _ m' => Tended t pins m' ∧ ∀ r, m.heap.Names r → m'.heap.Names r) (Trapped (Tended t pins))

theorem Steady.pure (a : α) : Steady t (Pure.pure a : MachineM α) := fun _ _ hm => ⟨hm, fun _ hr => hr⟩

theorem Steady.bind {f : α → MachineM β} (hx : Steady t x) (hf : ∀ a, Steady t (f a)) :
    Steady t (x >>= f) := by
  intro pins m hm
  refine (hx pins m hm).bind fun a m₁ ⟨h₁, hn₁⟩ => ?_
  exact (hf a pins m₁ h₁).mono (fun _ _ h => ⟨h.1, fun r hr => h.2 r (hn₁ r hr)⟩) fun _ _ h => h

theorem Steady.get : Steady t (get : MachineM Machine) := fun _ _ hm => ⟨hm, fun _ hr => hr⟩

theorem Steady.inconsistent (what : Inconsistency) : Steady t (inconsistent what : MachineM α) :=
  fun _ _ hm => hm

theorem Steady.raise (className : String) (message : Option String) :
    Steady t (raise className message : MachineM α) := fun _ _ hm => raise_tended hm _ _

theorem Steady.onLinker (x : StateM Linker α) : Steady t (onLinker x) := fun _ _ hm =>
  ⟨hm.refit _ _ _, fun _ hr => hr⟩

theorem Steady.onClasses (x : StateM ClassTable α) : Steady t (onClasses x) := .onLinker _

theorem Steady.onScheduler {f : Scheduler FrameStack → α × Scheduler FrameStack}
    (hf : ∀ s : Scheduler FrameStack, s.Alike (f s).2) : Steady t (onScheduler f) := fun _ m hm =>
  ⟨hm.of_threads ((hf m.scheduler).mono fun _ _ h => h.repending _), fun _ hr => hr⟩

theorem Steady.updateThread {u : ThreadId} {f : Thread FrameStack → Thread FrameStack}
    (hf : ∀ r : Thread FrameStack, r.Alike (f r)) : Steady t (updateThread u f) := by
  intro pins m hm
  refine ⟨hm.of_threads ?_, fun _ hr => hr⟩
  exact (m.scheduler.update_pointwise Thread.Alike.refl u hf).mono fun _ _ h => h.repending _

theorem onSync_tended (hm : Tended t pins m) {x : SyncM FrameStack α}
    (hx : Sync.Gentle m.heap.Names x) :
    Ends (onSync x m) (fun _ m' => Tended t pins m' ∧ ∀ r, m.heap.Names r → m'.heap.Names r)
      (Trapped (Tended t pins)) := by
  have hend := hx ⟨m.heap, m.scheduler⟩
  have hafter : ∀ a : Arena FrameStack, Sync.Eased m.heap.Names ⟨m.heap, m.scheduler⟩ a →
      Tended t pins { m with heap := a.heap, scheduler := a.scheduler } ∧
        ∀ r, m.heap.Names r → a.heap.Names r := by
    intro a ha
    have hg := ha.heap hm.tidy.closed.heap
    exact ⟨(hm.of_threads ha.threads).of_grown hg, hg.names⟩
  unfold onSync
  cases hr : x ⟨m.heap, m.scheduler⟩ with
  | ok v a => exact hafter a (hend.of_ok hr)
  | error e a => exact hafter a (hend.of_error hr)

theorem synchronize_tended (hm : Tended t pins m) {x : SyncM FrameStack α}
    (hx : Sync.Gentle m.heap.Names x) :
    Ends (synchronize x m) (fun _ m' => Tended t pins m' ∧ ∀ r, m.heap.Names r → m'.heap.Names r)
      (Trapped (Tended t pins)) := by
  unfold synchronize
  refine (onSync_tended hm hx).bind fun result m₁ ⟨h₁, hn₁⟩ => ?_
  cases result with
  | ok a => exact ⟨h₁, hn₁⟩
  | error e => exact raiseSync_tended h₁ e

end Steady

section Access

variable {α : Type} {t : ThreadId} {pins : Pins} {m : Machine}

theorem classOf_steady (object : Ref) : Steady t (classOf object) := by
  unfold classOf
  split
  · exact .raise _ _
  · refine Steady.get.bind fun m => ?_
    split
    · exact .pure _
    · exact .inconsistent _

theorem fieldSlot_steady (object : Ref) (name descriptor : String) :
    Steady t (fieldSlot object name descriptor) := by
  unfold fieldSlot
  refine (classOf_steady object).bind fun id => (Steady.onLinker _).bind fun _ => ?_
  refine (Steady.onClasses _).bind fun found => Steady.get.bind fun m => ?_
  dsimp only
  split
  · exact .pure _
  · exact .raise _ _

theorem readField_tended (hm : Tended t pins m) (object : Ref) (slot : Nat) :
    Ends (readField object slot m)
      (fun v m' => Tended t pins m' ∧ v.Within m'.heap.Names) (Trapped (Tended t pins)) := by
  unfold readField
  rw [bind_get]
  cases hv : (m.heap.get? object).bind (·.fields[slot]?) with
  | none => exact hm
  | some v =>
    obtain ⟨o, ho, hslot⟩ := Option.bind_eq_some_iff.1 hv
    exact ⟨hm, (hm.tidy.closed.heap.objects object o ho).fields v (Array.mem_of_getElem? hslot)⟩

theorem writeField_tended (hm : Tended t pins m) (object : Ref) (slot : Nat) {v : Value}
    (hv : v.Within m.heap.Names) :
    Ends (writeField object slot v m) (fun _ m' => Tended t pins m') (Trapped (Tended t pins)) := by
  unfold writeField
  rw [bind_get]
  cases (m.heap.get? object).bind (·.fields[slot]?) with
  | none => exact hm
  | some _ => exact hm.of_grown (setField_grown hm object slot hv)

theorem elements_within {S : Ref → Prop} {o : Object} (ho : o.Within S) {kind : Kind}
    {elements : Array Value} (he : o.elements? = some (kind, elements)) :
    ∀ v ∈ elements, v.Within S := by
  unfold Object.elements? at he
  have hp := ho.payload
  cases hpay : o.payload with
  | array kind' elements' =>
    rw [hpay] at he hp
    cases he
    exact hp
  | none => rw [hpay] at he; cases he
  | str text => rw [hpay] at he; cases he
  | mirror id => rw [hpay] at he; cases he
  | companion c => rw [hpay] at he; cases he

theorem elementsOf_tended (hm : Tended t pins m) (array : Ref) :
    Ends (elementsOf array m)
      (fun elements m' => m' = m ∧ ∀ v ∈ elements, v.Within m.heap.Names)
      (Trapped (Tended t pins)) := by
  unfold elementsOf
  split
  · exact raiseNullPointer_tended hm
  · rw [bind_get]
    cases he : (m.heap.get? array).bind Object.elements? with
    | none => exact hm
    | some pair =>
      obtain ⟨o, ho, helements⟩ := Option.bind_eq_some_iff.1 he
      exact ⟨rfl, elements_within (hm.tidy.closed.heap.objects array o ho) helements⟩

theorem arrayLength_tended (hm : Tended t pins m) (array : Ref) :
    Ends (arrayLength array m) (fun _ m' => Tended t pins m') (Trapped (Tended t pins)) := by
  unfold arrayLength
  refine (elementsOf_tended hm array).bind fun elements m₁ h => ?_
  obtain ⟨rfl, _⟩ := h
  exact hm

theorem loadElement_tended (hm : Tended t pins m) (array : Ref) (index : Int32) :
    Ends (loadElement array index m)
      (fun v m' => Tended t pins m' ∧ v.Within m'.heap.Names) (Trapped (Tended t pins)) := by
  unfold loadElement
  refine (elementsOf_tended hm array).bind fun elements m₁ h => ?_
  obtain ⟨rfl, helements⟩ := h
  cases hv : (position? index elements.size).bind (elements[·]?) with
  | none => exact raise_tended hm _ _
  | some v =>
    obtain ⟨position, _, hget⟩ := Option.bind_eq_some_iff.1 hv
    exact ⟨hm, helements v (Array.mem_of_getElem? hget)⟩

theorem accepts_steady (element : Option ElementType) (v : Value) : Steady t (accepts element v) := by
  unfold accepts
  split
  · refine Steady.get.bind fun m => ?_
    split
    · exact .onClasses _
    · exact .pure _
  · exact .pure _

theorem updateHeap_grown (hm : Tended t pins m) {f : Heap → Heap}
    (hg : Heap.Grown m.heap (f m.heap)) :
    Ends (updateHeap f m) (fun _ m' => Tended t pins m' ∧ ∀ r, m.heap.Names r → m'.heap.Names r)
      (Trapped (Tended t pins)) := ⟨hm.of_grown hg, hg.names⟩

theorem writeElement_grown (hm : Tended t pins m) (array : Ref) (index : Nat) {v : Value}
    (hv : v.Within m.heap.Names) :
    Ends (writeElement array index v m)
      (fun _ m' => Tended t pins m' ∧ ∀ r, m.heap.Names r → m'.heap.Names r)
      (Trapped (Tended t pins)) := by
  refine updateHeap_grown hm (Heap.update_grown hm.tidy.closed.heap array fun o _ ho => ?_)
  split
  · exact setElement_within ho index (Value.within_narrowTo hv _)
  · exact ho

theorem storeElement_tended (hm : Tended t pins m) (array : Ref) (index : Int32) {v : Value}
    (hv : v.Within m.heap.Names) :
    Ends (storeElement array index v m) (fun _ m' => Tended t pins m') (Trapped (Tended t pins)) := by
  unfold storeElement
  refine (elementsOf_tended hm array).bind fun elements m₁ h => ?_
  obtain ⟨rfl, _⟩ := h
  cases position? index elements.size with
  | none => exact raise_tended hm _ _
  | some position =>
    dsimp only
    rw [bind_get]
    refine (accepts_steady _ v pins m₁ hm).bind fun accepted m₂ ⟨h₂, hn₂⟩ => ?_
    split
    · exact (writeElement_grown h₂ array position (hv.mono hn₂)).mono (fun _ _ h => h.1) fun _ _ h => h
    · rw [bind_get]
      exact raise_tended h₂ _ _

theorem selectVirtual_steady (object : Ref) (signature : SignatureId) :
    Steady t (selectVirtual object signature) := by
  unfold selectVirtual
  refine (classOf_steady object).bind fun id => (Steady.onLinker _).bind fun found => ?_
  cases found with
  | none => exact .inconsistent _
  | some c =>
    dsimp only
    split
    · exact .pure _
    · exact Steady.get.bind fun m => .raise _ _

end Access

section Natives

variable {t : ThreadId} {pins : Pins} {m : Machine} {args : List Value}

theorem argument_ends {P : Machine → Prop} (hm : P m) (hargs : ∀ v ∈ args, v.Within m.heap.Names)
    (index : Nat) :
    Ends (argument args index m) (fun v m' => m' = m ∧ v.Within m.heap.Names) (Trapped P) := by
  unfold argument
  cases hv : args[index]? with
  | none => exact hm
  | some v => exact ⟨rfl, hargs v (List.mem_of_getElem? hv)⟩

theorem names_refOrNull {h : Heap} {v : Value} (hv : v.Within h.Names) : h.Names v.refOrNull := by
  cases v with
  | ref r => exact hv
  | _ => exact h.names_null

theorem refArgument_ends {P : Machine → Prop} (hm : P m) (hargs : ∀ v ∈ args, v.Within m.heap.Names)
    (index : Nat) :
    Ends (refArgument args index m) (fun r m' => m' = m ∧ m.heap.Names r) (Trapped P) := by
  unfold refArgument
  refine (argument_ends hm hargs index).bind fun v m₁ h => ?_
  obtain ⟨rfl, hv⟩ := h
  exact ⟨rfl, names_refOrNull hv⟩

theorem numberArgument_ends {α : Type} {P : Machine → Prop} (hm : P m) (index : Nat) {f : Value → α} :
    Ends ((argument args index >>= fun v => pure (f v)) m) (fun _ m' => m' = m) (Trapped P) := by
  unfold argument
  cases args[index]? with
  | none => exact hm
  | some v => exact rfl

theorem setInterruptible_steady (thread : ThreadId) : Steady t (setInterruptible thread) :=
  .updateThread fun _ => ⟨rfl, rfl, .inl rfl⟩

theorem checkInterrupt_steady (thread : ThreadId) : Steady t (checkInterrupt thread) := by
  unfold checkInterrupt
  refine (Steady.onScheduler fun s => (s.takeInterrupt_wakes thread).alike).bind fun interrupted => ?_
  split
  · exact .raise _ _
  · exact .pure _

theorem requestYield_steady : Steady t requestYield := fun _ m hm =>
  ⟨hm.refit m.linker true m.uncaught, fun _ hr => hr⟩

theorem objectWait_tended (hm : Tended t pins m) {object : Ref} (ho : m.heap.Names object)
    (millis : Int64) (nanos : Int32) :
    Ends (objectWait t object millis nanos m) (fun _ m' => Tended t pins m')
      (Trapped (Tended t pins)) := by
  unfold objectWait
  split
  · exact raise_tended hm _ _
  · split
    · exact raise_tended hm _ _
    · rw [bind_get]
      split
      · exact raise_tended hm _ _
      · refine (checkInterrupt_steady t pins m hm).bind fun _ m₁ ⟨h₁, hn₁⟩ => ?_
        refine (synchronize_tended h₁ (Sync.wait_gentle t (hn₁ _ ho) _)).bind fun _ m₂ ⟨h₂, _⟩ => ?_
        exact (setInterruptible_steady t pins m₂ h₂).mono (fun _ _ h => h.1) fun _ _ h => h

theorem threadSleep_steady (millis : Int64) : Steady t (threadSleep t millis) := by
  unfold threadSleep
  split
  · exact .raise _ _
  · refine (checkInterrupt_steady t).bind fun _ => ?_
    split
    · exact requestYield_steady
    · exact (Steady.onScheduler fun s => s.detach_alike t _).bind fun _ => setInterruptible_steady t

theorem threadJoin_steady (object : Ref) : Steady t (threadJoin t object) := by
  unfold threadJoin
  refine Steady.get.bind fun m => (checkInterrupt_steady t).bind fun _ => ?_
  split
  · exact .pure _
  · refine (Steady.onScheduler fun s => s.join_alike t _).bind fun joined => ?_
    split
    · exact setInterruptible_steady t
    · exact .pure _

theorem threadObject_tended (hm : Tended t pins m) :
    Ends (threadObject t m) (fun r m' => Tended t pins m' ∧ m'.heap.Names r)
      (Trapped (Tended t pins)) := by
  unfold threadObject
  rw [bind_get]
  split
  · refine ⟨hm, ?_⟩
    obtain ⟨r, hr, _⟩ := hm.running
    rw [hr]
    exact (hm.tidy.closed.threads t r hr).object
  · rw [bind_get]
    refine (newInstance_tended hm _).bind fun object m₁ ⟨h₁, ho⟩ => ?_
    have hwithin : ∀ r, m₁.scheduler.get? t = some r →
        Thread.Within m₁.heap.Names { r with object := object } := by
      intro r hr
      have hw := h₁.tidy.closed.threads t r hr
      exact ⟨ho, hw.pending, hw.stack⟩
    refine ⟨⟨h₁.tidy.of_update t hwithin h₁.tidy.closed.active, ?_⟩, ho⟩
    obtain ⟨r, hr, hstack⟩ := h₁.running
    refine ⟨{ r with object := object }, ?_, hstack⟩
    show (m₁.scheduler.update t _).get? t = _
    rw [Scheduler.get?_update, if_pos rfl, hr]
    rfl

end Natives

section Nesting

variable {α : Type} {t : ThreadId} {pins : Pins} {m : Machine}

theorem Tended.known (hm : Tended t pins m) : t < m.scheduler.nextId := by
  obtain ⟨r, hr, _⟩ := hm.running
  exact hm.tidy.numbered t r hr

/-- A thread that was spared is still running. -/
theorem Tended.of_spares {P : ThreadId → Prop} {m' : Machine} (hm : Tended t pins m) (hP : P t)
    (hs : m.scheduler.Spares P m'.scheduler) (hm' : Tidy pins m') : Tended t pins m' := by
  refine ⟨hm', ?_⟩
  obtain ⟨r, hr, hstack⟩ := hm.running
  have hrel := hs.record t hm.known hP
  rw [hr] at hrel
  generalize m'.scheduler.get? t = after at *
  cases hrel with
  | some hintact => exact ⟨_, rfl, hintact.stack.trans hstack⟩

theorem Tidy.swapStack (hm : Tidy pins m) (t : ThreadId) : Tidy pins (swapStack t m) := by
  unfold Machine.swapStack
  cases hr : m.scheduler.get? t with
  | none => exact hm
  | some r =>
    have hw := hm.closed.threads t r hr
    refine hm.of_update t (fun r' hr' => ?_) hw.stack
    have hw' := hm.closed.threads t r' hr'
    exact ⟨hw'.object, hw'.pending, hm.closed.active⟩

theorem Tended.active_swapStack (hm : Tended t pins m) : (swapStack t m).active = [] := by
  obtain ⟨r, hr, hstack⟩ := hm.running
  unfold swapStack
  rw [hr]
  exact hstack

/-- What runs while the frames are parked sees them in the thread's record. -/
theorem withParked_tended (hm : Tended t pins m) {x : MachineM α} {P : ThreadId → Prop} (hP : P t)
    (hframes : Ends (x (swapStack t m))
      (fun _ m' => m'.active = (swapStack t m).active ∧
        (swapStack t m).scheduler.Spares P m'.scheduler)
      fun _ m' => m'.active = (swapStack t m).active ∧
        (swapStack t m).scheduler.Spares P m'.scheduler)
    (hx : Ends (x (swapStack t m)) (fun _ m' => Tidy pins m') (Trapped (Tidy pins))) :
    Ends (withParked t x m) (fun _ m' => Tended t pins m') (Trapped (Tended t pins)) := by
  have hback := withParked_ends (E := fun _ => True) hm.known hP
    (hframes.mono (fun _ _ h => h) fun _ _ h => ⟨h, trivial⟩)
  have htidy : Ends (withParked t x m) (fun _ m' => Tidy pins m') (Trapped (Tidy pins)) := by
    unfold withParked
    rw [bind_modify]
    refine ensuring_trapped hx fun m' hm' => ⟨hm'.swapStack t, ?_⟩
    unfold swapStack
    split <;> rfl
  cases hr : withParked t x m with
  | ok a m' => exact hm.of_spares hP (hback.of_ok hr).2 (htidy.of_ok hr)
  | error e m' =>
    have he := htidy.of_error hr
    cases e with
    | exception exception => exact ⟨hm.of_spares hP (hback.of_error hr).1.2 he.1, he.2⟩
    | fatal error => exact hm.of_spares hP (hback.of_error hr).1.2 he
    | outOfFuel => exact hm.of_spares hP (hback.of_error hr).1.2 he

end Nesting

/-- Nested calls keep the machine tidy. They are made with no frames outside the records, and a
thread that is started has its object in its record. -/
structure Settled (k : Nested) : Prop where
  tracked : ∃ l : Nested, l.Quiet ∧ Nested.Tracks k l
  call : ∀ pins method m, Tidy pins m → m.active = [] →
    Ends (k.call method [] m) (fun _ m' => Tidy pins m') (Trapped (Tidy pins))
  enter : ∀ pins thread method object r m, Tidy pins m → m.active = [] →
    m.scheduler.get? thread = some r → r.stack = [] → r.object = object → object.isNull = false →
    Ends (k.enter thread method [.ref object] m) (fun _ m' => Tidy pins m') (Trapped (Tidy pins))

theorem Settled.call_keeps {k : Nested} (hk : Settled k) (method : MethodId) (m : Machine) :
    Ends (k.call method [] m) (fun _ m' => m'.active = m.active ∧
        m.scheduler.Spares (fun _ => True) m'.scheduler)
      fun _ m' => m'.active = m.active ∧ m.scheduler.Spares (fun _ => True) m'.scheduler := by
  obtain ⟨l, hl, htracks⟩ := hk.tracked
  exact ((htracks.call method).ends (hl.call method [] m)).mono
    (fun _ _ h => ⟨h.active, h.threads⟩) fun _ _ h => ⟨h.active, h.threads⟩

section Initialization

variable {t : ThreadId} {pins : Pins} {m : Machine} {k : Nested}

theorem ensure_within {h : Heap} {s : Statics} (hs : s.Within h.Names) (id : ClassId)
    (kinds : List Kind) : (s.ensure id kinds).Within h.Names := by
  intro id' values hvalues v hv
  unfold Statics.ensure Statics.slots? at hvalues
  dsimp only at hvalues
  rw [Std.ExtTreeMap.getElem?_insertIfNew] at hvalues
  split at hvalues
  · cases hvalues
    simp only [List.mem_toArray, List.mem_map] at hv
    obtain ⟨kind, _, rfl⟩ := hv
    exact Value.within_zeroOf h.names_null kind
  · exact hs id' values hvalues v hv

theorem Tended.of_statics (hm : Tended t pins m) {s : Statics} (hs : s.Within m.heap.Names) :
    Tended t pins { m with statics := s } := by
  have hc := hm.tidy.closed
  exact ⟨⟨⟨hc.heap, hc.threads, hc.active, hs⟩, hm.tidy.noHost, hm.tidy.numbered, hm.tidy.pinned,
    hm.tidy.spare⟩, hm.running⟩

theorem initializeOne_tended (hk : Settled k) (hm : Tended t pins m) (id : ClassId) :
    Ends (initializeOne k t id m) (fun _ m' => Tended t pins m') (Trapped (Tended t pins)) := by
  unfold initializeOne
  refine (onLinker_tended hm _).bind fun found m₁ ⟨h₁, _⟩ => ?_
  cases found with
  | none => exact h₁
  | some c =>
    refine (onClasses_tended h₁ _).bind fun taken m₂ ⟨h₂, _⟩ => ?_
    split
    · rw [bind_modify]
      have h₃ := h₂.of_statics (ensure_within h₂.tidy.closed.statics id c.staticKinds)
      cases c.staticInitializer? with
      | none => exact h₃
      | some initializer =>
        exact (withParked_tended (P := fun _ => True) h₃ trivial (hk.call_keeps initializer.id _)
          (hk.call pins initializer.id _ (h₃.tidy.swapStack t) h₃.active_swapStack)).bind
          fun _ m₄ h₄ => h₄
    · exact h₂

theorem initializeAll_tended (hk : Settled k) (hm : Tended t pins m) (ids : List ClassId) :
    Ends (initializeAll k t ids m) (fun _ m' => Tended t pins m') (Trapped (Tended t pins)) := by
  induction ids generalizing m with
  | nil => exact hm
  | cons id rest ih => exact (initializeOne_tended hk hm id).bind fun _ m₁ h₁ => ih h₁

theorem ensureInitialized_tended (hk : Settled k) (hm : Tended t pins m) (id : ClassId) :
    Ends (ensureInitialized k t id m) (fun _ m' => Tended t pins m') (Trapped (Tended t pins)) := by
  unfold ensureInitialized
  rw [bind_get]
  split
  · exact (onClasses_tended hm _).bind fun ids m₁ ⟨h₁, _⟩ => initializeAll_tended hk h₁ _
  · exact hm

end Initialization

section Threads

variable {t : ThreadId} {pins : Pins} {m : Machine} {k : Nested}

theorem Tidy.spawn (hm : Tidy pins m) (hn : m.scheduler.nextId ≠ 0xffffffff) {object : Ref}
    (ho : m.heap.Names object) {frames : FrameStack}
    (hframes : ∀ f ∈ frames, Frame.Within m.heap.Names f) :
    Tidy pins { m with scheduler := (m.scheduler.spawn object frames).2 } := by
  refine ⟨⟨hm.closed.heap, fun id r hr => ?_, hm.closed.active, hm.closed.statics⟩, hm.noHost,
    Scheduler.spawn_numbered hm.numbered hn object frames, hm.pinned, hm.spare⟩
  rw [show _ = _ from Scheduler.get?_spawn _ _ _ _] at hr
  split at hr
  · cases hr
    exact ⟨ho, (fun p hp => by cases hp), hframes⟩
  · exact hm.closed.threads id r hr

/-- A new thread has its object in its record and no frames. -/
theorem spawnThread_tidy (hm : Tidy pins m) {object : Ref} (ho : m.heap.Names object) :
    Ends (spawnThread object m)
      (fun started m' => Tidy pins m' ∧ m'.active = m.active ∧ m'.heap = m.heap ∧
        (∃ r, m'.scheduler.get? started = some r ∧ r.stack = [] ∧ r.object = object) ∧
        m.scheduler.Spares (fun _ => True) m'.scheduler ∧ started = m.scheduler.nextId)
      (Trapped (Tidy pins)) := by
  have hend := spawnThread_ends object m
  unfold spawnThread at hend ⊢
  split
  · exact hm
  · next hn =>
    rw [if_neg hn] at hend
    obtain ⟨hid, _, _, hkeeps⟩ := hend
    have hnew : (m.scheduler.spawn object []).2.get? m.scheduler.nextId =
        some { id := m.scheduler.nextId, object := object, stack := [] } := by
      rw [Scheduler.get?_spawn, if_pos rfl]
    exact ⟨hm.spawn hn ho (fun f hf => by cases hf), rfl, rfl, ⟨_, hnew, rfl, rfl⟩, hkeeps.threads, hid⟩

/-- A thread that dies is reported, and whether that is the end of all depends on what is set. -/
theorem threadDied_ends (thread : ThreadId) (exception : Ref) {P : Machine → Prop}
    (hP : ∀ reports, P { m with scheduler := (m.scheduler.terminate thread).2, uncaught := reports }) :
    Ends (threadDied thread exception m) (fun _ m' => P m') (Trapped P) := by
  unfold threadDied
  rw [bind_get]
  cases m.config.uncaught with
  | terminateThread => exact hP _
  | abort => exact hP _

theorem threadDied_tended (hm : Tended t pins m) (thread : ThreadId) (exception : Ref) :
    Ends (threadDied thread exception m) (fun _ m' => Tended t pins m')
      (Trapped (Tended t pins)) := by
  have hended := hm.of_threads
    ((m.scheduler.terminate_alike thread).mono fun _ _ h => h.repending m.heap.Names)
  exact threadDied_ends thread exception fun reports => hended.refit m.linker m.yieldRequested reports

/-- A thread that is made while another runs is there, with its object, once the frames of that are parked. -/
theorem Tended.started (hm : Tended t pins m) {object : Ref} (ho : m.heap.Names object) {started : ThreadId}
    {m' : Machine} (hs : spawnThread object m = .ok started m') :
    Tended t pins m' ∧ t ≠ started ∧
      ∃ r, (swapStack t m').scheduler.get? started = some r ∧ r.stack = [] ∧ r.object = object := by
  obtain ⟨htidy, _, _, ⟨r, hr, hstack, hobject⟩, hspares, hstarted⟩ := (spawnThread_tidy hm.tidy ho).of_ok hs
  have hne : t ≠ started := by
    intro he
    have hlt := hm.known
    rw [he, hstarted] at hlt
    exact UInt32.lt_irrefl _ hlt
  refine ⟨hm.of_spares trivial hspares htidy, hne, r, ?_, hstack, hobject⟩
  -- parking the frames of the running thread leaves the new record alone
  unfold swapStack
  cases m'.scheduler.get? t with
  | none => exact hr
  | some r' =>
    show (m'.scheduler.update t _).get? started = some r
    rw [Scheduler.get?_update, if_neg hne]
    exact hr

theorem threadStart_tended (hk : Settled k) (hm : Tended t pins m) {object : Ref}
    (ho : m.heap.Names object) :
    Ends (threadStart k t object m) (fun _ m' => Tended t pins m') (Trapped (Tended t pins)) := by
  unfold threadStart
  split
  · exact raiseNullPointer_tended hm
  · next hnull =>
    rw [bind_get]
    split
    · exact raise_tended hm _ _
    · rw [bind_get]
      refine (selectVirtual_steady object _ pins m hm).bind fun run m₁ ⟨h₁, hn₁⟩ => ?_
      cases hs : spawnThread object m₁ with
      | error e m₂ =>
        rw [bind_of_error hs]
        obtain ⟨rfl, rfl⟩ := (spawnThread_ends object m₁).of_error hs
        exact h₁
      | ok started m₂ =>
        rw [bind_of_ok hs]
        obtain ⟨h₂, hne, r, hrecord, hstack, hobject⟩ := h₁.started (hn₁ object ho) hs
        have hknown := (h₂.tidy.swapStack t).numbered started r hrecord
        obtain ⟨l, hl, htracks⟩ := hk.tracked
        have hframes := (htracks.enter started run [.ref object]).ends
          (hl.enter started run [.ref object] (swapStack t m₂) hknown)
        have hparked := withParked_tended h₂ hne hframes
          (hk.enter pins started run object r _ (h₂.tidy.swapStack t) h₂.active_swapStack hrecord
            hstack hobject (by simpa using hnull))
        refine (attempt_ends hparked).bind fun result m₃ h₃ => ?_
        cases result with
        | ok u => exact h₃
        | error e =>
          cases e with
          | exception exception => exact threadDied_tended h₃.1 started exception
          | fatal error => exact h₃
          | outOfFuel => exact h₃

end Threads

end Machine

end ClassMachine
