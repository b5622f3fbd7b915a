import ClassMachine.Proofs.Machine.Creation
import ClassMachine.Proofs.Machine.InitializerRuns
import ClassMachine.Proofs.Machine.VeiledRuns

/-!
Initialization, whatever a host does with a machine. An initializer is started at most once, and those of
the superclasses are taken up before. To count starts, each that is looked for leaves a row in the trace,
which is no part of what a machine does.
-/
namespace ClassMachine

namespace Machine
open Stateful ClassTable

variable {p : MethodId → Machine → Bool} {q : Machine → Bool} {J : Machine → Prop}

theorem kept_of_create {l : Linker} (hl : l.Reachable) {config : Config} {now : UInt64} {m : Machine}
    (h : create l.classes config now = .ok m) (hj : m.marks = 0 → J m) : Kept J m := by
  obtain ⟨hturns, _, _, hscheduler, htrace⟩ := kept_by_create keeping_turns h
  have hstart : l.classes.Ordered := by
    obtain ⟨access, hleads⟩ := hl
    exact ordered_empty.unfolds (Linker.Leads.changes hleads).turns.unfolds
      (Linker.Reachable.orderly ⟨access, hleads⟩)
  refine ⟨hstart.unfolds hturns.unfolds (hturns.becomes.orderly hstart.orderly), ?_, hj ?_⟩
  · rw [hscheduler]
    exact ⟨(by decide : (0 : UInt32) < 1), rfl⟩
  · rw [Machine.marks, htrace]
    rfl

section Hosts

variable {α : Type} {t : ThreadId}

theorem Proceeds.forHost {x : MachineM α} (hx : Proceeds J x) : Proceeds J (forHost x) := by
  intro m hm
  have hends := hx m hm
  unfold Machine.forHost
  cases hr : x m with
  | ok a m' => exact hends.of_ok hr
  | error e m' => exact hends.of_error hr

theorem findMethod_proceeds (hp : Tally p q J) (className name descriptor : String) :
    Proceeds J (findMethod className name descriptor) := by
  refine .read fun m => ?_
  cases m.classes.lookup? className with
  | none => exact .throw _
  | some id =>
    refine Proceeds.bind (.forHost (.onLinker hp (Linker.consulting_asks
      (resolveMethod_asks id name descriptor)).turning)) fun found => ?_
    cases found with
    | ok method => exact .pure _
    | error e => exact .throw _

theorem load_proceeds (hp : Tally p q J) (d : ClassDefinition) : Proceeds J (load d) := by
  refine Proceeds.bind (.forHost (.onLinker hp (Linker.turning_register d))) fun result => ?_
  cases result with
  | ok id =>
    exact Proceeds.bind (.forHost (.onLinker hp (Linker.consulting_prepare id).turning)) fun _ => .pure _
  | error e => exact .throw _

theorem spawnWith_proceeds (hp : Tally p q J) {k : Nested} (hk : Nested.Proceeds J k)
    (className name descriptor : String) (args : List Value) :
    Proceeds J (spawnWith k className name descriptor args) := by
  refine (findMethod_proceeds hp _ _ _).bind fun method => Proceeds.forHost fun m hm => ?_
  refine (spawnThread_advances hp .null hm).bind (E := fun _ m' => Advances J m m')
    fun thread m₁ hspawned => ?_
  obtain ⟨h₁, ht⟩ := hspawned
  refine Ends.mono (((hk.enter thread method args ht).attempt.bind fun result => ?_) m₁ h₁.kept)
    (fun _ _ h => h₁.trans h) fun _ _ h => h₁.trans h
  cases result with
  | ok u => exact .pure _
  | error trap => exact (Proceeds.onScheduler hp fun s => s.terminate_alike thread).bind fun _ => .throw _

theorem step_proceeds (hp : Tally p q J) (fuel : Nat) :
    Proceeds J (Announced.step (marking p q) fuel) := by
  unfold Announced.step
  refine (between_proceeds hp _).bind fun _ =>
    (Proceeds.onScheduler hp fun s => s.next_wakes.alike).bind fun next => ?_
  cases next with
  | none => exact .pure _
  | some thread =>
    have hslice := runSlice_proceeds (t := thread) hp (nested_proceeds hp fuel)
    have hslept : ∀ m : Machine, m.Unrelated { m with scheduler := m.scheduler.endSlice } := fun m => by
      have hend : m.scheduler.Alike m.scheduler.endSlice :=
        Scheduler.pointwise_of_threads_eq Thread.Alike.refl rfl rfl
      exact .of_scheduler (Q := fun _ => True) trivial (hend.spares _)
    refine (hslice.ensuring hp hslept).bind fun ended => (between_proceeds hp _).bind fun _ => ?_
    cases ended with
    | finished v => exact (Proceeds.onScheduler hp fun s => s.terminate_alike thread).bind fun _ => .pure _
    | uncaught exception => exact (threadDied_proceeds hp thread exception).bind fun _ => .pure _
    | yielded => exact .pure _
    | blocked => exact .pure _

theorem runSlices_proceeds (hp : Tally p q J) (fuel slices : Nat) :
    Proceeds J (Announced.runSlices (marking p q) fuel slices) := by
  induction slices with
  | zero => exact .throw _
  | succ slices ih =>
    unfold Announced.runSlices
    refine (Proceeds.onScheduler hp fun s => s.drain_wakes.alike).bind fun stop => ?_
    split
    · exact .pure _
    · refine .read fun m => ?_
      split
      · exact .pure _
      · refine (step_proceeds hp fuel).bind fun picked => ?_
        cases picked with
        | some thread => exact ih
        | none =>
          refine .read fun m => ?_
          cases m.scheduler.nextDeadline? with
          | none => exact .pure _
          | some deadline =>
            refine Proceeds.bind (.modify hp fun m => ?_) fun _ => ih
            exact .of_scheduler (Q := fun _ => True) trivial (idleUntil_spares _ _)

theorem announced_proceeds (hp : Tally p q J) (act : HostAct) :
    Proceeds J (act.announced (marking p q)) := by
  have hdone : ∀ {α : Type} {x : HostM α}, Proceeds J x → Proceeds J (do let _ ← x : HostM Unit) :=
    fun hx => hx.bind fun _ => .pure _
  have hscheduler : ∀ {f : Scheduler FrameStack → Scheduler FrameStack},
      (∀ s : Scheduler FrameStack, s.Alike (f s)) →
      Proceeds J (modify fun m => { m with scheduler := f m.scheduler } : HostM Unit) := fun hf =>
    .modify hp fun m => .of_scheduler (Q := fun _ => True) trivial ((hf m.scheduler).spares _)
  have hsame : ∀ {s s' : Scheduler FrameStack}, s'.threads = s.threads → s'.nextId = s.nextId →
      s.Alike s' := fun ht hn => Scheduler.pointwise_of_threads_eq Thread.Alike.refl ht hn
  have hr : Rules 1 (Proceeding J) := rules_proceeds hp (by decide)
  cases act with
  | offer owner name descriptor native =>
    exact hdone (.of_unrelated hp fun m => .of_eq rfl rfl rfl)
  | call c =>
    cases c with
    | load d => exact hdone (load_proceeds hp d)
    | invoke fuel className name descriptor args =>
      exact hdone ((findMethod_proceeds hp _ _ _).bind fun method =>
        .forHost ((nested_proceeds hp fuel).call method args))
    | spawn fuel className name descriptor args =>
      exact hdone (spawnWith_proceeds hp (nested_proceeds hp fuel) _ _ _ args)
    | step fuel => exact hdone (step_proceeds hp fuel).forHost
    | run fuel => exact hdone (runSlices_proceeds hp fuel fuel).forHost
    | send r => exact hscheduler (f := (·.send r)) fun s => hsame rfl rfl
    | attach t => exact hscheduler fun s => (s.attach_wakes t).alike
    | interrupt t => exact hscheduler fun s => (s.interrupt_wakes t).alike
    | advance millis => exact hscheduler (f := (·.advance millis)) fun s => hsame rfl rfl
    | newString text => exact hdone (Proceeds.forHost (hr.stringObject text))
    | collect => exact hdone (Proceeds.forHost hr.collectGarbage)

theorem performed_kept (hp : Tally p q J) (acts : List HostAct) {m : Machine} (hm : Kept J m) :
    Kept J (HostAct.performed (marking p q) acts m) := by
  induction acts generalizing m with
  | nil => exact hm
  | cons act rest ih =>
    refine ih (m := HostAct.leaving (act.announced (marking p q)) m) ?_
    have hends := announced_proceeds hp act m hm
    unfold HostAct.leaving
    cases hr : act.announced (marking p q) m with
    | ok u m' => exact (hends.of_ok hr).kept
    | error e m' => exact (hends.of_error hr).kept

end Hosts

section Counting

/-- Starts that are in order, and states that are, are not counted. -/
theorem tally_disorder (hp : ∀ method m, p method m = true →
      ¬(m.classes.Cleared method.owner ∧ m.classes.ClearedAbove method.owner))
    (hq : ∀ m, q m = true → ¬ m.classes.InOrder) : Tally p q fun m => m.marks = 0 where
  later hj _ hmarks := hmarks.trans hj
  between := by
    intro m hj hordered
    rw [marks_marked, if_neg fun h => hq m h hordered.inOrder]
    exact hj
  starts := by
    intro m m' method hj hbefore ⟨c, hc, hpending⟩ hprecedes hmarks hordered hcleared
    obtain ⟨c', hc', _, helement, _⟩ := hprecedes method.owner c hc
    obtain ⟨_, hc'', hp'⟩ := hcleared
    cases hc'.symm.trans hc''
    have habove := hordered.inOrder method.owner c' hc'
      (helement.trans (hbefore.arrays method.owner c hc hpending)) hp'
    rw [marks_marked, if_neg fun h => hp method m' h ⟨⟨c', hc', hp'⟩, habove⟩]
    exact hmarks.trans hj

/-- Starts of one class are counted once at most: the class is cleared then. -/
theorem tally_class {id : ClassId} (hp : ∀ method m, p method m = true → method.owner = id) :
    Tally p (fun _ => false) fun m => m.marks = 0 ∨ m.marks = 1 ∧ m.classes.Cleared id where
  later := by
    intro m m' hj hprecedes hmarks
    rw [hmarks]
    exact hj.imp_right fun ⟨hone, hcleared⟩ => ⟨hone, hprecedes.cleared hcleared⟩
  between hj _ := hj
  starts := by
    intro m m' method hj _ hpending hprecedes hmarks _ hcleared
    rw [marks_marked, hmarks]
    by_cases h : p method m' = true
    · have howner := hp method m' h
      have hzero : m.marks = 0 := hj.resolve_right fun ⟨_, hbefore⟩ =>
        hbefore.not_pending (howner ▸ hpending)
      refine .inr ⟨by rw [if_pos h, hzero], ?_⟩
      rw [ClassTable.Cleared, Machine.classes, linker_marked]
      exact howner ▸ hcleared
    · rw [if_neg h]
      refine hj.imp_right fun ⟨hone, hbefore⟩ => ⟨hone, ?_⟩
      rw [ClassTable.Cleared, Machine.classes, linker_marked]
      exact hprecedes.cleared hbefore

theorem marking_alike (p : MethodId → Machine → Bool) (q : Machine → Bool) :
    (marking p q).Alike .silent := by
  have hmarked : ∀ (passed : Machine → Bool), Alike id
      (modify fun m => marked (passed m) m : MachineM Unit) (Pure.pure ()) := by
    intro passed m n hmn
    refine .ok _ ?_
    rw [← hmn]
    show veil id (marked (passed m) m) = veil id m
    unfold marked
    split <;> rfl
  exact ⟨fun _ => hmarked q, fun method => hmarked (p method)⟩

/-- A class whose superclass fails is not taken up any more. -/
theorem ensureInitialized_fails {k : Nested} {t : ThreadId} {id x : ClassId} {before after : List ClassId}
    {m m₁ m₂ : Machine} {e : Trap} (hpending : m.isPendingInit id = true)
    (hchain : (ancestry id m.classes).1.reverse = before ++ x :: after)
    (hbefore : initializeAll k t before
      { m with linker := { m.linker with classes := (ancestry id m.classes).2 } } = .ok () m₁)
    (hfails : initializeOne k t x m₁ = .error e m₂) : ensureInitialized k t id m = .error e m₂ := by
  have happend : ∀ (before : List ClassId) (m : Machine), initializeAll k t before m = .ok () m₁ →
      initializeAll k t (before ++ x :: after) m = .error e m₂ := by
    intro before
    induction before with
    | nil =>
      intro m hdone
      cases hdone
      exact bind_of_error hfails
    | cons y rest ih =>
      intro m hdone
      unfold initializeAll at hdone
      show (initializeOne k t y >>= fun _ => initializeAll k t (rest ++ x :: after)) m = _
      cases hy : initializeOne k t y m with
      | ok u m' =>
        rw [bind_of_ok hy] at hdone ⊢
        exact ih m' hdone
      | error e' m' =>
        rw [bind_of_error hy] at hdone
        cases hdone
  unfold ensureInitialized
  rw [bind_get, if_pos hpending, bind_of_ok (show onClasses (ancestry id) m = .ok (ancestry id m.classes).1
    { m with linker := { m.linker with classes := (ancestry id m.classes).2 } } from rfl), hchain]
  exact happend before _ hbefore

end Counting

/-- Whatever a host does with a machine it made. Classes whose initializers were taken up come after
their superclasses, afterwards and between any two instructions meanwhile, and when an initializer starts
its class and the superclasses have been taken up. Of each class it starts once at most, and not after a
superclass has failed. It is found under its number, which fits sixteen bits where no class has more methods
than that. -/
theorem initialized_once_in_order {l : Linker} (hl : l.Reachable) {config : Config} {now : UInt64}
    {m : Machine} (hm : create l.classes config now = .ok m) (acts : List HostAct) :
    (HostAct.performed .silent acts m).classes.InOrder ∧
      (∀ p q, veil id (HostAct.performed (marking p q) acts m) =
        veil id (HostAct.performed .silent acts m)) ∧
      (∀ p q, (∀ method n, p method n = true →
          ¬(n.classes.Cleared method.owner ∧ n.classes.ClearedAbove method.owner)) →
        (∀ n, q n = true → ¬ n.classes.InOrder) → (HostAct.performed (marking p q) acts m).marks = 0) ∧
      (∀ p id, (∀ method n, p method n = true → method.owner = id) →
        (HostAct.performed (marking p fun _ => false) acts m).marks ≤ 1) ∧
      (∀ id c initializer, (HostAct.performed .silent acts m).classes.get? id = some c →
        c.staticInitializer? = some initializer → initializer.id.owner = id ∧
          (HostAct.performed .silent acts m).classes.method? initializer.id = some initializer ∧
          ((HostAct.performed .silent acts m).classes.Narrow → initializer.id.index < 65536)) ∧
      ∀ (k : Nested) (t : ThreadId) (id x : ClassId) (before after : List ClassId) (n n₁ n₂ : Machine)
        (e : Trap), n.isPendingInit id = true → (ancestry id n.classes).1.reverse = before ++ x :: after →
        initializeAll k t before
          { n with linker := { n.linker with classes := (ancestry id n.classes).2 } } = .ok () n₁ →
        initializeOne k t x n₁ = .error e n₂ → ensureInitialized k t id n = .error e n₂ := by
  have hveiled : ∀ p q, veil id (HostAct.performed (marking p q) acts m) =
      veil id (HostAct.performed .silent acts m) := fun p q =>
    HostAct.performed_alike (marking_alike p q) acts rfl
  have hordered : (HostAct.performed .silent acts m).classes.Ordered := by
    have hkept : Kept (fun _ => True)
        (HostAct.performed (marking (fun _ _ => false) fun _ => false) acts m) :=
      performed_kept ⟨fun _ _ => trivial, fun _ _ _ => trivial, fun _ _ _ _ _ _ _ => trivial⟩ acts
        (kept_of_create hl hm fun _ => trivial)
    have hclasses : (veil id (HostAct.performed (marking _ _) acts m)).classes =
        (veil id (HostAct.performed .silent acts m)).classes :=
      congrArg Machine.classes (hveiled (fun _ _ => false) fun _ => false)
    exact (show _ = (HostAct.performed .silent acts m).classes from hclasses) ▸ hkept.ordered
  refine ⟨hordered.inOrder, hveiled, fun p q hp hq => ?_, fun p id hp => ?_, fun id c initializer hc hi => ?_,
    fun _ _ _ _ _ _ _ _ _ _ => ensureInitialized_fails⟩
  · exact (performed_kept (tally_disorder hp hq) acts (kept_of_create hl hm fun h => h)).tally
  · rcases (performed_kept (tally_class hp) acts (kept_of_create hl hm .inl)).tally with h | ⟨h, _⟩
    · rw [h]
      exact Nat.zero_le 1
    · exact Nat.le_of_eq h
  · obtain ⟨howner, hmethod⟩ := method?_staticInitializer hordered hc hi
    exact ⟨howner, hmethod, fun hnarrow => hnarrow.method_lt hmethod⟩

/-- A class with an initializer. -/
def eagerBase : ClassDefinition where
  name := "Base"
  superName := some "java/lang/Object"
  methods := [{ name := "<clinit>", descriptor := "()V", flags := ⟨0x0008⟩, code := some { code := #[0xb1] } }]

/-- A class below it, with an initializer and a static method. -/
def eagerDerived : ClassDefinition where
  name := "Derived"
  superName := some "Base"
  methods :=
    [{ name := "<clinit>", descriptor := "()V", flags := ⟨0x0008⟩, code := some { code := #[0xb1] } },
     { name := "touch", descriptor := "()V", flags := ⟨0x0009⟩, code := some { code := #[0xb1] } }]

/-- Both classes are loaded, and the method is called twice. -/
def touching : List HostAct :=
  [.call (.load eagerBase), .call (.load eagerDerived), .call (.invoke 4 "Derived" "touch" "()V" []),
    .call (.invoke 4 "Derived" "touch" "()V" [])]

theorem initialized_once_in_order_touching :
    ({ access := .generic } : Linker).Reachable ∧ ∃ m : Machine, create {} {} 0 = .ok m ∧
      (HostAct.performed .silent touching m).classes.InOrder ∧
      (HostAct.performed (marking (fun _ _ => true) fun _ => false) touching m).marks = 2 ∧
      ∃ id, (HostAct.performed .silent touching m).classes.lookup? "Derived" = some id ∧
        (HostAct.performed (marking (fun method _ => method.owner = id) fun _ => false) touching m).marks = 1 ∧
        (HostAct.performed (marking (fun method _ => method.owner = id) fun _ => false) touching m).marks ≤ 1 := by
  have hrun : (create {} {} 0).toOption.any (fun m =>
      ((HostAct.performed .silent touching m).classes.lookup? "Derived").any fun id => decide (
        (HostAct.performed (marking (fun _ _ => true) fun _ => false) touching m).marks = 2 ∧
        (HostAct.performed (marking (fun method _ => method.owner = id) fun _ => false) touching m).marks = 1)) =
      true := by decide +kernel
  have hreachable : ({ access := .generic } : Linker).Reachable := ⟨.generic, .refl⟩
  obtain ⟨m, hm, hrun⟩ := (Option.any_eq_true ..).1 hrun
  obtain ⟨id, hid, hrun⟩ := (Option.any_eq_true ..).1 hrun
  obtain ⟨hall₂, hone⟩ := of_decide_eq_true hrun
  have hcreate := created_of_toOption hm
  have hall := initialized_once_in_order hreachable hcreate touching
  exact ⟨hreachable, m, hcreate, hall.1, hall₂, id, hid, hone,
    hall.2.2.2.1 _ id fun method n h => of_decide_eq_true h⟩

end Machine

end ClassMachine
