import ClassMachine.Proofs.Machine.Creation
import ClassMachine.Proofs.Machine.PassageRuns

/-!
Calls leave no threads behind. The thread made for a call is gone when the call is over, whatever came of it,
and nothing that is kept of threads names it any more. Monitors forget it too, unless the call ended for
good: a thread that can never go on is taken away while it waits, and the monitor goes on listing it.
-/
namespace ClassMachine

/-- The monitor has to do with the thread. -/
def Monitor.Names (m : Monitor) (t : ThreadId) : Prop :=
  m.owner = some t ∨ ∃ token ∈ m.waiters ++ m.entrants, token.thread = t

namespace Machine
open Stateful

variable {m m' : Machine}

/-- Machines that a host has made and asked for things, whatever came of that. -/
inductive Asked : Machine → Prop
  | made {classes : ClassTable} {config : Config} {now : UInt64} {m : Machine}
      (h : create classes config now = .ok m) : Asked m
  | served {m : Machine} (h : Asked m) (c : HostCall) : Asked (HostAct.leaving c.serve m)

/-- No call is under way: there are no threads made for one, and only threads with records are listed. -/
structure Quiescent (m : Machine) : Prop where
  rostered : Rostered m
  registered : m.scheduler.Registered
  distinct : Distinct m
  ordinary : ∀ t u, m.scheduler.get? t = some u → u.synthetic = false

theorem Quiescent.passed {S : ThreadId → Prop} (hm : Quiescent m) (h : Passed S m m') : Quiescent m' where
  rostered := h.acts.rostered hm.rostered
  registered := h.acts.registered hm.registered
  distinct := h.acts.distinct hm.distinct
  ordinary t u' hu' := by
    cases hs : u'.synthetic with
    | false => rfl
    | true =>
      obtain ⟨u, hu⟩ := Option.isSome_iff_exists.1 (h.clean t u' hu' hs)
      obtain ⟨v, hv, heq⟩ := h.kept t u hu
      cases hu'.symm.trans hv
      exact hs.symm.trans (heq.trans (hm.ordinary t u hu))

theorem quiescent_of_create {classes : ClassTable} {config : Config} {now : UInt64}
    (h : create classes config now = .ok m) : Quiescent m := by
  have hscheduler : m.scheduler = { now := now } :=
    (kept_by_create (R := fun _ _ => True) ⟨fun _ => trivial, fun _ _ => trivial, fun _ _ => trivial,
      fun _ => trivial⟩ h).2.2.2.1
  have hnone : ∀ t, m.scheduler.get? t = none := fun t => by simp [hscheduler, Scheduler.get?]
  have hno : ∀ {t : ThreadId} {u : Thread FrameStack} {P : Prop}, m.scheduler.get? t = some u → P := fun hu => by
    rw [hnone] at hu
    cases hu
  refine ⟨⟨fun t u hu => hno hu, fun t u hu => hno hu, fun t u hu => hno hu⟩, ⟨fun t ht => ?_, fun t u hu => hno hu⟩,
    fun t u t' u' hu => hno hu, fun t u hu => hno hu⟩
  rw [hscheduler] at ht
  cases ht

theorem Asked.quiescent (h : Asked m) : Quiescent m := by
  induction h with
  | made h => exact quiescent_of_create h
  | served h c ih => exact ih.passed (leaving_passed c ih.rostered)

theorem Attained.asked (h : Attained m) : Asked m := by
  induction h with
  | made hloaded hds h => exact .made h
  | @served m m' c h hc hleads ih =>
    have hleft : HostAct.leaving c.serve m = m' := by
      unfold HostAct.leaving
      rcases hleads with hok | ⟨e, he, -⟩
      · rw [hok]
      · rw [he]
    exact hleft ▸ ih.served c

/-- Whoever a monitor names has a record, as long as no call has ended for good. -/
theorem Attained.recorded (h : Attained m) {o : Ref} {n : Monitor} (hn : m.heap.monitor? o = some n)
    {t : ThreadId} (ht : n.Names t) : (m.scheduler.get? t).isSome := by
  by_contra hnone
  obtain ⟨howner, htokens⟩ := h.poised.toBalanced.unowned (t := t)
    (framesOf_missing (by simp) (Option.not_isSome_iff_eq_none.1 hnone)) hn
  rcases ht with ht | ⟨token, htoken, ht⟩
  · exact howner ht
  · exact htokens token htoken ht

/-- After a call, whatever came of it, there is no thread made for a call, and neither the rotation nor a list
of joiners names a thread that is gone. If the classes have no instructions for monitors and neither this
call nor one before it ended for good, no monitor names a thread that is gone either. -/
theorem invoke_leaves_nothing (h : Asked m) (fuel : Nat) (className name descriptor : String) (args : List Value)
    (hleft : m' = HostAct.leaving (HostCall.invoke fuel className name descriptor args).serve m) :
    (∀ t u, m'.scheduler.get? t = some u → u.synthetic = false ∧ ∀ j ∈ u.joiners, (m'.scheduler.get? j).isSome) ∧
    (∀ t ∈ m'.scheduler.ready, (m'.scheduler.get? t).isSome) ∧
    (Attained m → (∀ e, (HostCall.invoke fuel className name descriptor args).serve m = .error e m' →
        e.isFatal = false) →
      ∀ o n, m'.heap.monitor? o = some n → ∀ t, n.Names t → (m'.scheduler.get? t).isSome) := by
  let c : HostCall := .invoke fuel className name descriptor args
  have hquiescent : Quiescent m' := hleft ▸ (h.served c).quiescent
  refine ⟨fun t u hu => ⟨hquiescent.ordinary t u hu, hquiescent.registered.joiners t u hu⟩,
    hquiescent.registered.ready, fun hm hlasting o n hn t ht => ?_⟩
  have hleads : c.Leads m m' := by
    rw [hleft]
    unfold HostAct.leaving at hleft ⊢
    cases hr : c.serve m with
    | ok _ m₁ => exact .inl hr
    | error e m₁ =>
      refine .inr ⟨e, hr, hlasting e ?_⟩
      rw [hr] at hleft
      rw [hleft]
      exact hr
  exact (Attained.served hm rfl hleads).recorded hn ht

/-- A class with a synchronized method that returns at once, and one that waits for ever. -/
def gate : ClassDefinition where
  name := "Gate"
  superName := some "java/lang/Object"
  constants := [.type "Gate", .methodRef ⟨"java/lang/Object", "wait", "()V"⟩]
  methods :=
    [{ name := "pass", descriptor := "()V", flags := ⟨0x0029⟩, code := some { code := #[0xb1] } },
     { name := "hang", descriptor := "()V", flags := ⟨0x0029⟩
       code := some { maxStack := 1, code := #[0x12, 1, 0xb6, 0, 2, 0xb1] } }]

/-- A machine in which a thread waits in the monitor of the class. -/
def gated : Option Machine :=
  (create {} {} 0).toOption.bind
    (HostCall.serveAll [.load gate, .spawn 3 "Gate" "hang" "()V" [], .step 3])

/-- What becomes of the monitor in the two calls, and whether their thread is there. -/
def passesGate (m : Machine) : Bool :=
  (match (HostCall.invoke 3 "Gate" "pass" "()V" []).serve m with
    | .ok _ m' => m'.scheduler.nextId = 3 ∧
        (m'.heap.monitor? ⟨2⟩).map (fun n => (n.waiters, n.owner)) = some ([⟨1, 1⟩], none)
    | .error _ _ => false) &&
  match (HostCall.invoke 3 "Gate" "hang" "()V" []).serve m with
    | .ok _ _ => false
    | .error e m' => e.isFatal = true ∧
        (m'.heap.monitor? ⟨2⟩).map Monitor.waiters = some [⟨1, 1⟩, ⟨2, 1⟩] ∧ (m'.scheduler.get? 2).isNone = true

theorem exists_gated : ∃ m, Attained m ∧ passesGate m = true := by
  have hrun : gated.any passesGate = true := by decide +kernel
  obtain ⟨m, hm, hpasses⟩ := (Option.any_eq_true ..).1 hrun
  obtain ⟨m₀, hcreate, hserve⟩ := Option.bind_eq_some_iff.1 hm
  exact ⟨m, (Attained.of_create .empty (by simp) hcreate).serveAll (by decide +kernel) hserve, hpasses⟩

/-- The waiting thread is still listed after a call that went through the monitor, and the thread of the call
is not. -/
theorem invoke_leaves_nothing_gated : ∃ m m' n, Asked m ∧
    (HostCall.invoke 3 "Gate" "pass" "()V" []).serve m = .ok () m' ∧ m'.scheduler.nextId = 3 ∧
    m'.heap.monitor? ⟨2⟩ = some n ∧ n.waiters = [⟨1, 1⟩] ∧ n.owner = none ∧
    (∀ t u, m'.scheduler.get? t = some u → u.synthetic = false) ∧
    ∀ t, n.Names t → (m'.scheduler.get? t).isSome := by
  obtain ⟨m, hattained, hpasses⟩ := exists_gated
  have hrun := (Bool.and_eq_true_iff.1 hpasses).1
  split at hrun
  · next u m' hserve =>
    obtain ⟨hnext, hmonitor⟩ := of_decide_eq_true hrun
    obtain ⟨n, hn, hlists⟩ := Option.map_eq_some_iff.1 hmonitor
    obtain ⟨hwaiters, howner⟩ := Prod.mk.inj hlists
    have hleft : m' = HostAct.leaving (HostCall.invoke 3 "Gate" "pass" "()V" []).serve m := by
      unfold HostAct.leaving
      rw [hserve]
    obtain ⟨hthreads, -, hmonitors⟩ := invoke_leaves_nothing hattained.asked 3 "Gate" "pass" "()V" [] hleft
    refine ⟨m, m', n, hattained.asked, hserve, hnext, hn, hwaiters, howner, fun t u hu => (hthreads t u hu).1,
      hmonitors hattained (fun e he => ?_) ⟨2⟩ n hn⟩
    rw [hserve] at he
    cases he
  · cases hrun

/-- A call that can never go on ends for good. Its thread is gone, and the monitor goes on listing it. -/
theorem invoke_leaves_waiter : ∃ m m' e n, Asked m ∧
    (HostCall.invoke 3 "Gate" "hang" "()V" []).serve m = .error e m' ∧ e.isFatal = true ∧
    m'.heap.monitor? ⟨2⟩ = some n ∧ n.Names 2 ∧ m'.scheduler.get? 2 = none := by
  obtain ⟨m, hattained, hpasses⟩ := exists_gated
  have hrun := (Bool.and_eq_true_iff.1 hpasses).2
  split at hrun
  · cases hrun
  · next e m' hserve =>
    obtain ⟨hfatal, hmonitor, hgone⟩ := of_decide_eq_true hrun
    obtain ⟨n, hn, hwaiters⟩ := Option.map_eq_some_iff.1 hmonitor
    refine ⟨m, m', e, n, hattained.asked, hserve, hfatal, hn, .inr ⟨⟨2, 1⟩, ?_, rfl⟩, Option.isNone_iff_eq_none.1 hgone⟩
    simp [hwaiters]

end Machine

end ClassMachine
