import ClassMachine.Machine.Invocation
import ClassMachine.Proofs.Scheduler.Records
import ClassMachine.Proofs.Stateful

/-!
Computations that leave frames alone. Whatever an instruction does besides working on the frame in
front, be it making objects, parking threads or running initializers, it leaves the frames of all
threads as they were, and does not fail in a way that speaks of frames.
-/
namespace ClassMachine

/-- Failures that speak of a frame's operands, its locals or its counter. -/
def Inconsistency.isFlow : Inconsistency → Bool
  | stackUnderflow | localOutOfRange _ | pcPastEnd _ _ => true
  | _ => false

def Fatal.isFlow : Fatal → Bool
  | inconsistent what => what.isFlow
  | _ => false

def Trap.isFlow : Trap → Bool
  | fatal error => error.isFlow
  | _ => false

/-- A thread keeps its frames, and its object once it has one. -/
structure Thread.Intact (t t' : Thread FrameStack) : Prop where
  stack : t'.stack = t.stack
  object : t.object.isNull = false → t'.object = t.object

theorem Thread.Intact.refl (t : Thread FrameStack) : t.Intact t := ⟨rfl, fun _ => rfl⟩

theorem Thread.Intact.trans {t u v : Thread FrameStack} (h : t.Intact u) (h' : u.Intact v) :
    t.Intact v := by
  refine ⟨h'.stack.trans h.stack, fun ht => ?_⟩
  have hu := h.object ht
  exact (h'.object (by rw [hu]; exact ht)).trans hu

theorem Thread.Alike.intact {t t' : Thread FrameStack} (h : t.Alike t') : t.Intact t' :=
  ⟨h.stack, fun _ => h.object⟩

/-- Threads that were there, those of `P` at least, are intact. -/
structure Scheduler.Spares (P : ThreadId → Prop) (s s' : Scheduler FrameStack) : Prop where
  nextId : s.nextId ≤ s'.nextId
  record : ∀ id, id < s.nextId → P id → Option.Rel Thread.Intact (s.get? id) (s'.get? id)

namespace Scheduler

variable {P Q : ThreadId → Prop} {s s' s'' : Scheduler FrameStack}

theorem Spares.refl (P : ThreadId → Prop) (s : Scheduler FrameStack) : s.Spares P s := by
  refine ⟨UInt32.le_refl _, fun id _ _ => ?_⟩
  cases s.get? id with
  | none => exact .none
  | some t => exact .some (.refl t)

theorem Spares.trans (h : s.Spares P s') (h' : s'.Spares P s'') : s.Spares P s'' := by
  refine ⟨UInt32.le_trans h.nextId h'.nextId, fun id hid hP => ?_⟩
  have h₁ := h.record id hid hP
  have h₂ := h'.record id (UInt32.lt_of_lt_of_le hid h.nextId) hP
  generalize s.get? id = a at *
  generalize s'.get? id = b at *
  generalize s''.get? id = c at *
  cases h₁ with
  | none => cases h₂ with | none => exact .none
  | some hab => cases h₂ with | some hbc => exact .some (hab.trans hbc)

/-- Threads numbered later need not be spared. -/
theorem Spares.mono (h : s.Spares P s') (hPQ : ∀ id, id < s.nextId → Q id → P id) : s.Spares Q s' :=
  ⟨h.nextId, fun id hid hQ => h.record id hid (hPQ id hid hQ)⟩

theorem Alike.spares (h : s.Alike s') (P : ThreadId → Prop) : s.Spares P s' := by
  refine ⟨by rw [h.nextId]; exact UInt32.le_refl _, fun id _ _ => ?_⟩
  exact ((h.mono (fun _ _ ha => ha.intact) : Pointwise Thread.Intact s s')).record id

end Scheduler

namespace Machine

/-- Frames of the running thread and of all others are left alone. -/
structure Keeps (m m' : Machine) : Prop where
  active : m'.active = m.active
  threads : m.scheduler.Spares (fun _ => True) m'.scheduler

theorem Keeps.refl (m : Machine) : m.Keeps m := ⟨rfl, .refl _ _⟩

theorem Keeps.trans {m m' m'' : Machine} (h : m.Keeps m') (h' : m'.Keeps m'') : m.Keeps m'' :=
  ⟨h'.active.trans h.active, h.threads.trans h'.threads⟩

theorem Keeps.of_eq {m m' : Machine} (ha : m'.active = m.active)
    (hs : m'.scheduler = m.scheduler) : m.Keeps m' :=
  ⟨ha, by rw [hs]; exact .refl _ _⟩

/-- Run by a thread whose number has been given out, `x` keeps the frames and fails for other
reasons. -/
def Quiet (thread : ThreadId) {α : Type} (x : MachineM α) : Prop :=
  ∀ m, thread < m.scheduler.nextId →
    Stateful.Ends (x m) (fun _ m' => m.Keeps m') fun e m' => m.Keeps m' ∧ e.isFlow = false

namespace Quiet
open Stateful

variable {α β : Type} {t : ThreadId} {x : MachineM α}

theorem pure (a : α) : Quiet t (Pure.pure a : MachineM α) := fun m _ => Keeps.refl m

theorem throw {e : Trap} (he : e.isFlow = false) : Quiet t (throw e : MachineM α) :=
  fun m _ => ⟨.refl m, he⟩

theorem bind {f : α → MachineM β} (hx : Quiet t x) (hf : ∀ a, Quiet t (f a)) : Quiet t (x >>= f) := by
  intro m hm
  cases h : x m with
  | ok a m' =>
    have hk := (hx m hm).of_ok h
    rw [bind_of_ok h]
    refine (hf a m' (UInt32.lt_of_lt_of_le hm hk.threads.nextId)).mono (fun _ _ h' => hk.trans h')
      fun _ _ h' => ⟨hk.trans h'.1, h'.2⟩
  | error e m' =>
    rw [bind_of_error h]
    exact (hx m hm).of_error h

end Quiet

/-- As quiet, and never comes to a result. -/
def Raises (thread : ThreadId) {α : Type} (x : MachineM α) : Prop :=
  ∀ m, thread < m.scheduler.nextId →
    Stateful.Ends (x m) (fun _ _ => False) fun e m' => m.Keeps m' ∧ e.isFlow = false

namespace Raises
open Stateful

variable {α β : Type} {t : ThreadId} {x : MachineM α}

theorem quiet (hx : Raises t x) : Quiet t x := fun m hm =>
  (hx m hm).mono (fun _ _ h => h.elim) fun _ _ h => h

theorem throw {e : Trap} (he : e.isFlow = false) : Raises t (throw e : MachineM α) :=
  fun m _ => ⟨.refl m, he⟩

theorem bind {f : α → MachineM β} (hx : Quiet t x) (hf : ∀ a, Raises t (f a)) :
    Raises t (x >>= f) := by
  intro m hm
  cases h : x m with
  | ok a m' =>
    have hk := (hx m hm).of_ok h
    rw [bind_of_ok h]
    exact (hf a m' (UInt32.lt_of_lt_of_le hm hk.threads.nextId)).mono (fun _ _ h' => h')
      fun _ _ h' => ⟨hk.trans h'.1, h'.2⟩
  | error e m' =>
    rw [bind_of_error h]
    exact (hx m hm).of_error h

end Raises

namespace Quiet
open Stateful

variable {α β : Type} {t : ThreadId} {x : MachineM α}

theorem get : Quiet t (get : MachineM Machine) := fun m _ => Keeps.refl m

theorem modify {f : Machine → Machine} (hf : ∀ m : Machine, m.Keeps (f m)) :
    Quiet t (modify f : MachineM Unit) := fun m _ => hf m

theorem fatal {e : Fatal} (he : e.isFlow = false) : Quiet t (fatal e : MachineM α) := throw he

theorem inconsistent {what : Inconsistency} (he : what.isFlow = false) :
    Quiet t (inconsistent what : MachineM α) := throw he

theorem ensuring {after : Machine → Machine} (hx : Quiet t x) (ha : ∀ m : Machine, m.Keeps (after m)) :
    Quiet t (ensuring x after) := by
  intro m hm
  have h := hx m hm
  unfold Machine.ensuring
  cases hr : x m with
  | ok a m' => exact (h.of_ok hr).trans (ha m')
  | error e m' => exact ⟨(h.of_error hr).1.trans (ha m'), (h.of_error hr).2⟩

theorem onLinker (x : StateM Linker α) : Quiet t (onLinker x) := fun _ _ => Keeps.of_eq rfl rfl

theorem onClasses (x : StateM ClassTable α) : Quiet t (onClasses x) := onLinker _

theorem updateHeap (f : Heap → Heap) : Quiet t (updateHeap f) := fun _ _ => Keeps.of_eq rfl rfl

theorem pinning (rs : List Ref) (hx : Quiet t x) : Quiet t (pinning rs x) :=
  (updateHeap _).bind fun _ => hx.ensuring fun _ => .of_eq rfl rfl

theorem onScheduler {f : Scheduler FrameStack → α × Scheduler FrameStack}
    (hf : ∀ s : Scheduler FrameStack, s.Alike (f s).2) : Quiet t (onScheduler f) :=
  fun m _ => ⟨rfl, (hf m.scheduler).spares _⟩

theorem updateThread {u : ThreadId} {f : Thread FrameStack → Thread FrameStack}
    (hf : ∀ r : Thread FrameStack, r.Intact (f r)) : Quiet t (updateThread u f) := by
  intro m _
  refine ⟨rfl, UInt32.le_refl _, fun id _ _ => ?_⟩
  exact (m.scheduler.update_pointwise Thread.Intact.refl u hf).record id

end Quiet

end Machine

/-- An operation on monitors leaves the frames of all threads alone and finds no fault with them. -/
def SyncError.isFlow : SyncError → Bool
  | monitor _ => false
  | fatal error => error.isFlow

namespace Sync
open Stateful

/-- Run on an arena, `x` leaves all threads intact. -/
def Tame {α : Type} (x : SyncM FrameStack α) : Prop :=
  ∀ a, Ends (x a) (fun _ a' => a.scheduler.Spares (fun _ => True) a'.scheduler)
    fun e a' => a.scheduler.Spares (fun _ => True) a'.scheduler ∧ e.isFlow = false

variable {α β : Type}

theorem Tame.pure (a : α) : Tame (Pure.pure a : SyncM FrameStack α) := fun _ => .refl _ _

theorem Tame.bind {x : SyncM FrameStack α} {f : α → SyncM FrameStack β} (hx : Tame x)
    (hf : ∀ a, Tame (f a)) : Tame (x >>= f) := by
  intro a
  refine (hx a).bind (Q := fun _ a' => _) fun v a' ha => ?_
  exact (hf v a').mono (fun _ _ h => ha.trans h) fun _ _ h => ⟨ha.trans h.1, h.2⟩

theorem Tame.inconsistent {what : Inconsistency} (he : what.isFlow = false) :
    Tame (inconsistent what : SyncM FrameStack α) := fun _ => ⟨.refl _ _, he⟩

theorem Tame.schedule {f : Scheduler FrameStack → Scheduler FrameStack}
    (hf : ∀ s : Scheduler FrameStack, s.Spares (fun _ => True) (f s)) : Tame (schedule f) :=
  fun a => hf a.scheduler

theorem monitorOf_tame (object : Ref) : Tame (monitorOf object) := by
  intro a
  unfold monitorOf
  rw [bind_get]
  cases a.heap.get? object with
  | none => exact ⟨.refl _ _, rfl⟩
  | some o => exact .refl _ _

theorem onMonitor_tame (object : Ref) (f : Monitor → Except MonitorError (α × Monitor)) :
    Tame (onMonitor object f) := by
  unfold onMonitor
  refine (monitorOf_tame object).bind fun m => ?_
  cases f m with
  | error e => exact fun _ => ⟨.refl _ _, rfl⟩
  | ok pair => exact Tame.bind (fun _ => .refl _ _) fun _ => .pure _

theorem detach_tame (thread : ThreadId) (timeout : Timeout) :
    Tame (schedule fun s => (s.detach thread timeout).2) :=
  .schedule fun s => (s.detach_alike thread timeout).spares _

theorem handOver_tame (next : Option WaitToken) : Tame (handOver next) := by
  cases next with
  | none => exact .pure ()
  | some token => exact .schedule fun s => (s.attach_wakes token.thread).alike.spares _

theorem update_pending_tame (thread : ThreadId) (p : Option PendingMonitor) :
    Tame (schedule fun s => s.update thread fun t => { t with pending := p }) := by
  have hintact : ∀ r : Thread FrameStack, r.Intact { r with pending := p } :=
    fun _ => ⟨rfl, fun _ => rfl⟩
  refine .schedule fun s => ⟨UInt32.le_refl _, fun id _ _ => ?_⟩
  exact (s.update_pointwise Thread.Intact.refl thread hintact).record id

theorem park_tame (thread : ThreadId) (p : PendingMonitor) : Tame (park thread p) := by
  intro a
  unfold park
  rw [bind_get]
  cases a.scheduler.get? thread with
  | none => exact ⟨.refl _ _, rfl⟩
  | some r => exact update_pending_tame thread (some p) a

theorem enter_tame (thread : ThreadId) (object : Ref) : Tame (enter thread object) := by
  unfold enter
  refine (onMonitor_tame object _).bind fun entry => ?_
  cases entry with
  | acquired => exact .pure _
  | queued => exact (park_tame thread _).bind fun _ => (detach_tame thread _).bind fun _ => .pure _

theorem exit_tame (thread : ThreadId) (object : Ref) : Tame (exit thread object) := by
  unfold exit
  exact (onMonitor_tame object _).bind fun next => handOver_tame next

theorem wait_tame (thread : ThreadId) (object : Ref) (timeout : Timeout) :
    Tame (wait thread object timeout) := by
  unfold wait
  exact (onMonitor_tame object _).bind fun (token, next) => (park_tame thread _).bind fun _ =>
    (detach_tame thread timeout).bind fun _ => handOver_tame next

theorem notify_tame (thread : ThreadId) (object : Ref) : Tame (notify thread object) := by
  unfold notify
  exact (onMonitor_tame object _).bind fun _ => .pure _

theorem notifyAll_tame (thread : ThreadId) (object : Ref) : Tame (notifyAll thread object) := by
  unfold notifyAll
  exact (onMonitor_tame object _).bind fun _ => .pure _

theorem takeMonitor_tame (thread : ThreadId) (p : PendingMonitor) : Tame (takeMonitor thread p) := by
  unfold takeMonitor
  refine (monitorOf_tame p.object).bind fun m => ?_
  split
  · split
    · exact .pure _
    · exact .inconsistent rfl
  · exact Tame.bind (fun _ => .refl _ _) fun _ => .pure _

theorem resume_tame (thread : ThreadId) : Tame (resume thread) := by
  intro a
  unfold resume
  rw [bind_get]
  cases (a.scheduler.get? thread).bind (·.pending) with
  | none => exact .refl _ _
  | some p =>
    refine (takeMonitor_tame thread p).bind (fun entry => ?_) a
    cases entry with
    | queued => exact (detach_tame thread .indefinite).bind fun _ => .pure _
    | acquired => exact (update_pending_tame thread none).bind fun _ => .pure _

end Sync

namespace Machine
open Stateful

variable {α : Type} {t : ThreadId}

theorem attempt_of_ok {x : MachineM α} {m m' : Machine} {a : α} (h : x m = .ok a m') :
    attempt x m = .ok (.ok a) m' := by
  unfold attempt
  rw [h]

theorem attempt_of_error {x : MachineM α} {m m' : Machine} {e : Trap} (h : x m = .error e m') :
    attempt x m = .ok (.error e) m' := by
  unfold attempt
  rw [h]

/-- What holds after an attempt, of its result or of its trap. -/
def Attempted (Q : α → Machine → Prop) (E : Trap → Machine → Prop) : Except Trap α → Machine → Prop
  | .ok a, m => Q a m
  | .error e, m => E e m

theorem attempt_ends {x : MachineM α} {m : Machine} {Q : α → Machine → Prop}
    {E F : Trap → Machine → Prop}
    (hx : Ends (x m) Q E) : Ends (attempt x m) (Attempted Q E) F := by
  cases hr : x m with
  | ok a m' =>
    rw [attempt_of_ok hr]
    exact hx.of_ok hr
  | error e m' =>
    rw [attempt_of_error hr]
    exact hx.of_error hr

/-- An operation on monitors gives its error as a value. -/
theorem onSync_ends {x : SyncM FrameStack α} (hx : Sync.Tame x) (m : Machine) :
    Ends (onSync x m)
      (fun result m' => m.Keeps m' ∧ ∀ e, result = .error e → e.isFlow = false) fun _ _ => False := by
  have h := hx ⟨m.heap, m.scheduler⟩
  unfold onSync
  cases hr : x ⟨m.heap, m.scheduler⟩ with
  | ok a s => exact ⟨⟨rfl, h.of_ok hr⟩, fun e he => by cases he⟩
  | error e s => exact ⟨⟨rfl, (h.of_error hr).1⟩, fun e' he => by cases he; exact (h.of_error hr).2⟩

theorem allocFailure_isFlow {m : Machine} {h : Heap} {units : Nat} {e : AllocError}
    (he : h.overflowed units = .error e) : (m.allocFailure e).isFlow = false := by
  unfold Heap.overflowed at he
  cases ho : h.overflow with
  | expand =>
    rw [ho] at he
    dsimp only at he
    split at he
    · cases he
    · cases he; rfl
  | throw => rw [ho] at he; cases he; rfl
  | abort => rw [ho] at he; cases he; rfl

/-- Making room fails only for want of room. -/
theorem reserve_isFlow {m : Machine} {h h' : Heap} {roots : List Ref} {units : Nat} {e : AllocError}
    (he : h.reserve roots units = (.error e, h')) : (m.allocFailure e).isFlow = false := by
  unfold Heap.reserve at he
  split at he
  · cases he
  · dsimp only at he
    split at he
    · cases he
    · split at he
      · cases he
      · next e' hover =>
        cases he
        exact allocFailure_isFlow hover

theorem reserve_quiet (units : Nat) : Quiet t (reserve units) := by
  intro m _
  unfold reserve
  cases hr : m.heap.reserve m.roots units with
  | mk result h =>
    cases result with
    | ok u => exact .of_eq rfl rfl
    | error e => exact ⟨.of_eq rfl rfl, reserve_isFlow hr⟩

theorem insertObject_quiet (o : Object) : Quiet t (insertObject o) := by
  intro m _
  unfold insertObject
  dsimp only
  split
  · exact ⟨.refl m, rfl⟩
  · exact .of_eq rfl rfl

theorem allocate_quiet (o : Object) : Quiet t (allocate o) :=
  (reserve_quiet o.weight).bind fun _ => insertObject_quiet o

theorem newInstance_quiet (id : ClassId) : Quiet t (newInstance id) := by
  unfold newInstance
  refine (Quiet.onLinker _).bind fun found => ?_
  cases found with
  | none => exact .inconsistent rfl
  | some c => exact allocate_quiet _

theorem stringObject_quiet (text : String) : Quiet t (stringObject text) :=
  Quiet.get.bind fun _ => allocate_quiet _

/-- To raise an exception never comes to a result. -/
theorem raise_ne_ok {m m' : Machine} (className : String) (message : Option String) {a : α} :
    raise className message m ≠ .ok a m' := by
  have hany : ∀ {β : Type} (x : MachineM β) (n : Machine), Ends (x n) (fun _ _ => True) fun _ _ => True :=
    fun x n => by cases x n <;> trivial
  have hfails : Ends (raise className message m : EStateM.Result Trap Machine α) (fun _ _ => False)
      fun _ _ => True := by
    unfold raise
    rw [bind_get]
    cases m.classes.lookup? className with
    | none => trivial
    | some id =>
      refine (hany (message.mapM stringObject) m).bind fun text m₁ _ => ?_
      refine (hany _ m₁).bind fun exception m₂ _ => ?_
      rw [bind_get]
      generalize m₂.core.messageSlot = slot
      cases slot with
      | none => trivial
      | some slot => cases text <;> trivial
  exact fun h => hfails.of_ok h

theorem raise_raises (className : String) (message : Option String) :
    Raises t (raise className message : MachineM α) := by
  unfold raise
  refine Raises.bind .get fun m => ?_
  split
  · exact .throw rfl
  · have htext : Quiet t (message.mapM stringObject) := by
      cases message with
      | none => exact .pure _
      | some text => exact (stringObject_quiet text).bind fun _ => .pure _
    refine Raises.bind htext fun text => ?_
    refine Raises.bind ((newInstance_quiet _).pinning _) fun exception => Raises.bind .get fun m' => ?_
    split
    · exact Raises.bind (.updateHeap _) fun _ => .throw rfl
    · exact Raises.throw (e := .exception exception) rfl

theorem raise_quiet (className : String) (message : Option String) :
    Quiet t (raise className message : MachineM α) := (raise_raises className message).quiet

theorem raiseNullPointer_raises : Raises t (raiseNullPointer : MachineM α) := raise_raises _ _

theorem raiseNullPointer_quiet : Quiet t (raiseNullPointer : MachineM α) := raise_quiet _ _

theorem raiseSync_raises {e : SyncError} (he : e.isFlow = false) :
    Raises t (raiseSync e : MachineM α) := by
  cases e with
  | monitor e => exact raise_raises _ _
  | fatal e => exact .throw he

theorem synchronize_quiet {x : SyncM FrameStack α} (hx : Sync.Tame x) : Quiet t (synchronize x) := by
  intro m hm
  unfold synchronize
  refine ((onSync_ends hx m).mono (fun _ _ h => h) fun _ _ h => h.elim).bind fun result m' h => ?_
  obtain ⟨hk, herror⟩ := h
  cases result with
  | ok a => exact hk
  | error e =>
    have hraise := (raiseSync_raises (α := α) (t := t) (herror e rfl)).quiet m'
      (UInt32.lt_of_lt_of_le hm hk.threads.nextId)
    exact hraise.mono (fun _ _ h => hk.trans h) fun _ _ h => ⟨hk.trans h.1, h.2⟩

theorem newArray_quiet (id : ClassId) (kind : Kind) (length : Int32) :
    Quiet t (newArray id kind length) := by
  unfold newArray
  split
  · exact raise_quiet _ _
  · exact (reserve_quiet _).bind fun _ => insertObject_quiet _

theorem fillArray_quiet (array : Ref) {make : MachineM Ref} (hmake : Quiet t make) (count index : Nat) :
    Quiet t (fillArray array make count index) := by
  induction count generalizing index with
  | zero => exact .pure _
  | succ count ih => exact hmake.bind fun _ => (Quiet.updateHeap _).bind fun _ => ih (index + 1)

theorem newMultiArray_quiet (lengths : List Int32) (id : ClassId) :
    Quiet t (newMultiArray lengths id) := by
  induction lengths generalizing id with
  | nil => exact .inconsistent rfl
  | cons length rest ih =>
    unfold newMultiArray
    refine Quiet.get.bind fun m => ?_
    split
    · exact .inconsistent rfl
    · next element _ =>
      refine (newArray_quiet _ _ _).bind fun array => ?_
      cases element with
      | primitive kind => exact .pure _
      | reference inner =>
        dsimp only
        split
        · exact ((fillArray_quiet array (ih inner) _ _).pinning _).bind fun _ => .pure _
        · exact .pure _

theorem internString_quiet (text : String) : Quiet t (internString text) := by
  unfold internString
  refine Quiet.get.bind fun m => ?_
  split
  · exact .pure _
  · exact (stringObject_quiet text).bind fun _ => (Quiet.updateHeap _).bind fun _ => .pure _

theorem mirror_quiet (id : ClassId) : Quiet t (mirror id) := by
  unfold mirror
  refine Quiet.get.bind fun m => ?_
  split
  · exact .pure _
  · exact Quiet.get.bind fun _ => (allocate_quiet _).bind fun _ =>
      (Quiet.updateHeap _).bind fun _ => .pure _

theorem reserve_scheduler {m m' : Machine} {units : Nat} (h : reserve units m = .ok () m') :
    m'.scheduler = m.scheduler := by
  unfold reserve at h
  split at h
  · cases h; rfl
  · cases h

theorem insertObject_scheduler {m m' : Machine} {o : Object} {r : Ref}
    (h : insertObject o m = .ok r m') : m'.scheduler = m.scheduler := by
  unfold insertObject at h
  dsimp only at h
  split at h
  · cases h
  · cases h; rfl

theorem allocate_scheduler {m m' : Machine} {o : Object} {r : Ref} (h : allocate o m = .ok r m') :
    m'.scheduler = m.scheduler := by
  obtain ⟨_, m₁, hroom, hinsert⟩ := bind_ok.1 h
  exact (insertObject_scheduler hinsert).trans (reserve_scheduler hroom)

/-- An object that was made is there, and frames are left alone. -/
theorem allocate_made {m m' : Machine} {o : Object} {r : Ref} (h : allocate o m = .ok r m') :
    m'.active = m.active ∧ m'.heap.get? r = some o := by
  obtain ⟨_, m₁, hroom, hinsert⟩ := bind_ok.1 h
  have hsame : m₁.active = m.active := by
    unfold reserve at hroom
    split at hroom
    · cases hroom
      rfl
    · cases hroom
  unfold insertObject at hinsert
  dsimp only at hinsert
  split at hinsert
  · cases hinsert
  · cases hinsert
    exact ⟨hsame, Std.ExtTreeMap.getElem?_insert_self⟩

theorem newInstance_scheduler {m m' : Machine} {id : ClassId} {r : Ref}
    (h : newInstance id m = .ok r m') : m'.scheduler = m.scheduler := by
  unfold newInstance at h
  obtain ⟨found, m₁, hprep, hrest⟩ := bind_ok.1 h
  have hs : m₁.scheduler = m.scheduler := by
    cases hprep
    rfl
  cases found with
  | none => cases hrest
  | some c => exact (allocate_scheduler hrest).trans hs

/-- Only a thread that has no object yet gets one. -/
theorem threadObject_quiet (thread : ThreadId) : Quiet t (threadObject thread) := by
  intro m hm
  unfold threadObject
  rw [bind_get]
  split
  · exact .refl m
  · next hnull =>
    rw [bind_get]
    cases hr : newInstance m.core.thread m with
    | error e m' =>
      rw [bind_of_error hr]
      exact (newInstance_quiet _ m hm).of_error hr
    | ok r m' =>
      have hk := (newInstance_quiet _ m hm).of_ok hr
      have hs := newInstance_scheduler hr
      rw [bind_of_ok hr]
      refine ⟨hk.active, UInt32.le_of_eq (by rw [← hs]; rfl), fun id _ _ => ?_⟩
      show Option.Rel _ _ ((m'.scheduler.update thread fun t => { t with object := r }).get? id)
      rw [hs, Scheduler.get?_update]
      cases hrec : m.scheduler.get? id with
      | none => simp
      | some rec =>
        split
        · next heq =>
          subst heq
          rw [hrec] at hnull
          exact .some ⟨rfl, fun hobj => absurd (by simp [hobj]) hnull⟩
        · exact .some (.refl rec)

end Machine

end ClassMachine
