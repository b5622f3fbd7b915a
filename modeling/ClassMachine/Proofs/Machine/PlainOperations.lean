import ClassMachine.Machine.Execution
import ClassMachine.Proofs.Stateful

/-!
Operations that have nothing to do with static fields. What an instruction does to the frame in front
leaves the body of the frame as it is, and neither such an operation nor one on a monitor fails for want
of a static field.
-/
namespace ClassMachine
open Stateful

/-- A static field that was asked for has no slot. -/
def Inconsistency.isSlotless : Inconsistency → Bool
  | noStaticSlot _ _ => true
  | _ => false

def Fatal.isSlotless : Fatal → Bool
  | inconsistent what => what.isSlotless
  | _ => false

def Trap.isSlotless : Trap → Bool
  | fatal error => error.isSlotless
  | _ => false

def SyncError.isSlotless : SyncError → Bool
  | monitor _ => false
  | fatal error => error.isSlotless

namespace Frame

variable {α β : Type}

/-- Run on a frame, `x` keeps its body and does not fail for want of a static field. -/
def Plain (x : FrameM α) : Prop :=
  ∀ f, Ends (x f) (fun _ g => g.code = f.code) fun e g => g.code = f.code ∧ e.isSlotless = false

theorem Plain.pure (a : α) : Plain (Pure.pure a : FrameM α) := fun _ => rfl

theorem Plain.throw {e : Inconsistency} (he : e.isSlotless = false) : Plain (throw e : FrameM α) :=
  fun _ => ⟨rfl, he⟩

theorem Plain.bind {x : FrameM α} {g : α → FrameM β} (hx : Plain x) (hg : ∀ a, Plain (g a)) :
    Plain (x >>= g) := by
  intro f
  refine ((hx f).mono (fun _ _ h => h) fun _ _ h => h).bind fun a f' hf' => ?_
  exact (hg a f').mono (fun _ _ h => h.trans hf') fun _ _ h => ⟨h.1.trans hf', h.2⟩

theorem Plain.modify {u : Frame → Frame} (hu : ∀ f, (u f).code = f.code) :
    Plain (modify u : FrameM Unit) := hu

theorem plain_push (v : Value) : Plain (push v) := .modify fun _ => rfl

theorem plain_pushAll (vs : List Value) : Plain (pushAll vs) := .modify fun _ => rfl

theorem plain_jump (target : Nat) : Plain (jump target) := .modify fun _ => rfl

theorem plain_pop : Plain pop := by
  intro f
  unfold pop
  cases f.stack with
  | nil => exact ⟨rfl, rfl⟩
  | cons v rest => exact rfl

theorem plain_peek : Plain peek := by
  intro f
  unfold peek
  cases f.stack with
  | nil => exact ⟨rfl, rfl⟩
  | cons v rest => exact rfl

theorem plain_popInt : Plain popInt := by
  refine plain_pop.bind fun v => ?_
  cases v.int? with
  | some x => exact .pure x
  | none => exact .throw rfl

theorem plain_popLong : Plain popLong := by
  refine plain_pop.bind fun v => ?_
  cases v.long? with
  | some x => exact .pure x
  | none => exact .throw rfl

theorem plain_popFloat : Plain popFloat := by
  refine plain_pop.bind fun v => ?_
  cases v.float? with
  | some x => exact .pure x
  | none => exact .throw rfl

theorem plain_popDouble : Plain popDouble := by
  refine plain_pop.bind fun v => ?_
  cases v.double? with
  | some x => exact .pure x
  | none => exact .throw rfl

theorem plain_popRef : Plain popRef := by
  refine plain_pop.bind fun v => ?_
  cases v.ref? with
  | some x => exact .pure x
  | none => exact .throw rfl

theorem plain_popN (n : Nat) : Plain (popN n) := by
  intro f
  unfold popN
  split
  · exact ⟨rfl, rfl⟩
  · exact rfl

theorem plain_getLocal (index : Nat) : Plain (getLocal index) := by
  intro f
  unfold getLocal
  cases f.locals[index]? with
  | some v => exact rfl
  | none => exact ⟨rfl, rfl⟩

theorem plain_setLocal (index : Nat) (v : Value) : Plain (setLocal index v) := by
  intro f
  unfold setLocal
  split
  · exact rfl
  · exact ⟨rfl, rfl⟩

theorem plain_store (index : Nat) : Plain (store index) := by
  refine plain_pop.bind fun v => (plain_setLocal index v).bind fun _ f => ?_
  rw [bind_get]
  split
  · exact plain_setLocal (index + 1) _ f
  · exact rfl

theorem plain_increment (index : Nat) (delta : Int16) : Plain (increment index delta) := by
  refine (plain_getLocal index).bind fun v => ?_
  cases v.int? with
  | some x => exact plain_setLocal index _
  | none => exact .throw rfl

theorem plain_rearrange (op : StackOp) : Plain (rearrange op) := by
  have hpop : ∀ {g : Value → FrameM Unit}, (∀ v, Plain (g v)) → Plain (pop >>= g) := plain_pop.bind
  cases op with
  | pop => exact hpop fun _ => .pure _
  | pop2 =>
    refine hpop fun v => ?_
    split
    · exact hpop fun _ => .pure _
    · exact .pure _
  | dup => exact plain_peek.bind fun v => plain_push v
  | dupX1 => exact hpop fun v => hpop fun w => plain_pushAll _
  | dupX2 =>
    refine hpop fun v => hpop fun w => ?_
    cases w.category with
    | two => exact plain_pushAll _
    | one => exact hpop fun x => plain_pushAll _
  | dup2 =>
    refine hpop fun v => ?_
    cases v.category with
    | two => exact plain_pushAll _
    | one => exact hpop fun w => plain_pushAll _
  | dup2X1 =>
    refine hpop fun v => hpop fun w => ?_
    cases v.category with
    | two => exact plain_pushAll _
    | one => exact hpop fun x => plain_pushAll _
  | dup2X2 =>
    refine hpop fun v => hpop fun w => ?_
    cases v.category with
    | two =>
      cases w.category with
      | two => exact plain_pushAll _
      | one => exact hpop fun x => plain_pushAll _
    | one =>
      refine hpop fun x => ?_
      cases x.category with
      | two => exact plain_pushAll _
      | one => exact hpop fun y => plain_pushAll _
  | swap => exact hpop fun v => hpop fun w => plain_pushAll _

end Frame

namespace Machine
open ClassMachine.Frame

/-- Both operands are taken before the result is computed. -/
theorem plain_arithmetic (op : ArithOp) (type : NumType) : Plain (arithmetic op type) := by
  cases type with
  | int => exact plain_popInt.bind fun _ => plain_popInt.bind fun _ => .pure _
  | long =>
    show Plain (if op.isShift then _ else _)
    split
    · exact plain_popInt.bind fun _ => plain_popLong.bind fun _ => .pure _
    · exact plain_popLong.bind fun _ => plain_popLong.bind fun _ => .pure _
  | float => exact plain_popFloat.bind fun _ => plain_popFloat.bind fun _ => .pure _
  | double => exact plain_popDouble.bind fun _ => plain_popDouble.bind fun _ => .pure _

theorem plain_negate (type : NumType) : Plain (negate type) := by
  cases type with
  | int => exact plain_popInt.bind fun _ => plain_push _
  | long => exact plain_popLong.bind fun _ => plain_push _
  | float => exact plain_popFloat.bind fun _ => plain_push _
  | double => exact plain_popDouble.bind fun _ => plain_push _

theorem plain_convert (target : NumType) : Plain (convert target) := by
  refine plain_pop.bind fun v => ?_
  cases v.convert? target with
  | some w => exact plain_push w
  | none => exact .throw rfl

theorem plain_compareTop (op : CompareOp) : Plain (compareTop op) := by
  cases op with
  | long => exact plain_popLong.bind fun _ => plain_popLong.bind fun _ => plain_push _
  | floatL => exact plain_popFloat.bind fun _ => plain_popFloat.bind fun _ => plain_push _
  | floatG => exact plain_popFloat.bind fun _ => plain_popFloat.bind fun _ => plain_push _
  | doubleL => exact plain_popDouble.bind fun _ => plain_popDouble.bind fun _ => plain_push _
  | doubleG => exact plain_popDouble.bind fun _ => plain_popDouble.bind fun _ => plain_push _

theorem plain_branchIf (holds : Bool) (target : Nat) : Plain (branchIf holds target) := by
  unfold branchIf
  split
  · exact plain_jump target
  · exact .pure _

theorem plain_popStore : Plain popStore := plain_pop.bind fun _ => plain_popRef.bind fun _ => .pure _

theorem plain_fetch : Plain fetch := by
  intro f
  unfold fetch
  cases f.code.get? f.pc with
  | some i => exact rfl
  | none => exact ⟨rfl, rfl⟩

/-- Room that cannot be made is no matter of static fields. -/
theorem plain_reserve (m : Machine) {h h' : Heap} {roots : List Ref} {units : Nat} {e : AllocError}
    (hreserve : h.reserve roots units = (.error e, h')) : (m.allocFailure e).isSlotless = false := by
  have hoverflowed : ∀ {h : Heap}, h.overflowed units = .error e → (m.allocFailure e).isSlotless = false := by
    intro h he
    unfold Heap.overflowed at he
    split at he
    · split at he <;> cases he
      rfl
    · cases he
      rfl
    · cases he
      rfl
  unfold Heap.reserve at hreserve
  split at hreserve
  · cases hreserve
  · dsimp only at hreserve
    split at hreserve
    · cases hreserve
    · split at hreserve
      · cases hreserve
      · next he =>
        cases hreserve
        exact hoverflowed he

end Machine

namespace Sync

variable {α β : Type}

/-- Does not fail for want of a static field. -/
def Plain (x : SyncM FrameStack α) : Prop := ∀ a, Ends (x a) (fun _ _ => True) fun e _ => e.isSlotless = false

theorem Plain.throw {e : SyncError} (he : e.isSlotless = false) : Plain (throw e : SyncM FrameStack α) :=
  fun _ => he

theorem Plain.bind {x : SyncM FrameStack α} {f : α → SyncM FrameStack β} (hx : Plain x)
    (hf : ∀ a, Plain (f a)) : Plain (x >>= f) := fun a => (hx a).bind fun b a' _ => hf b a'

theorem plain_pure (b : α) : Plain (Pure.pure b : SyncM FrameStack α) := fun _ => trivial

theorem plain_schedule (f : Scheduler FrameStack → Scheduler FrameStack) : Plain (schedule f) := fun _ => trivial

theorem plain_monitorOf (object : Ref) : Plain (monitorOf object) := by
  intro a
  unfold monitorOf
  rw [bind_get]
  cases a.heap.get? object with
  | none => exact rfl
  | some o => trivial

theorem plain_onMonitor (object : Ref) (f : Monitor → Except MonitorError (α × Monitor)) :
    Plain (onMonitor object f) := by
  refine (plain_monitorOf object).bind fun m => ?_
  cases f m with
  | error e => exact .throw rfl
  | ok pair => exact Plain.bind (fun _ => trivial) fun _ => plain_pure _

theorem plain_handOver (next : Option WaitToken) : Plain (handOver next) := by
  cases next with
  | none => exact plain_pure _
  | some token => exact plain_schedule fun s => (s.attach token.thread).2

theorem plain_park (thread : ThreadId) (p : PendingMonitor) : Plain (park thread p) := by
  intro a
  unfold park
  rw [bind_get]
  cases a.scheduler.get? thread with
  | none => exact rfl
  | some r => trivial

theorem plain_enter (thread : ThreadId) (object : Ref) : Plain (enter thread object) := by
  refine (plain_onMonitor object _).bind fun entry => ?_
  cases entry with
  | acquired => exact plain_pure _
  | queued => exact (plain_park thread _).bind fun _ => (plain_schedule _).bind fun _ => plain_pure _

theorem plain_exit (thread : ThreadId) (object : Ref) : Plain (exit thread object) :=
  (plain_onMonitor object _).bind fun next => plain_handOver next

theorem plain_wait (thread : ThreadId) (object : Ref) (timeout : Timeout) :
    Plain (wait thread object timeout) :=
  (plain_onMonitor object _).bind fun (_, next) => (plain_park thread _).bind fun _ =>
    (plain_schedule _).bind fun _ => plain_handOver next

theorem plain_notify (thread : ThreadId) (object : Ref) : Plain (notify thread object) :=
  (plain_onMonitor object _).bind fun _ => plain_pure _

theorem plain_notifyAll (thread : ThreadId) (object : Ref) : Plain (notifyAll thread object) :=
  (plain_onMonitor object _).bind fun _ => plain_pure _

theorem plain_takeMonitor (thread : ThreadId) (p : PendingMonitor) : Plain (takeMonitor thread p) := by
  refine (plain_monitorOf p.object).bind fun m => ?_
  split
  · split
    · exact plain_pure _
    · exact .throw rfl
  · exact Plain.bind (fun _ => trivial) fun _ => plain_pure _

theorem plain_resume (thread : ThreadId) : Plain (resume thread) := by
  intro a
  unfold resume
  rw [bind_get]
  cases (a.scheduler.get? thread).bind (·.pending) with
  | none => trivial
  | some p =>
    refine (plain_takeMonitor thread p).bind (fun entry => ?_) a
    cases entry with
    | queued => exact (plain_schedule _).bind fun _ => plain_pure _
    | acquired => exact (plain_schedule _).bind fun _ => plain_pure _

/-- What the machine is told of a failure. -/
theorem Plain.error {x : SyncM FrameStack α} (hx : Plain x) {e : SyncError}
    (h : ∃ m m', Machine.onSync x m = .ok (.error e) m') : e.isSlotless = false := by
  obtain ⟨m, m', hrun⟩ := h
  have hends := hx ⟨m.heap, m.scheduler⟩
  unfold Machine.onSync at hrun
  cases hr : x ⟨m.heap, m.scheduler⟩ with
  | ok a s =>
    rw [hr] at hrun
    cases hrun
  | error e' s =>
    rw [hr] at hrun
    cases hrun
    exact hends.of_error hr

end Sync

end ClassMachine
