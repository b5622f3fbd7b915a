import ClassMachine.Proofs.Link.Initialization
import ClassMachine.Proofs.Machine.MethodMonitors
import ClassMachine.Proofs.Machine.RuleSteps

/-!
Initializers that are started are counted. Along all a machine does its class table stays ordered, and
whatever can be told of the count from the table alone is kept, as long as it is kept where a single
initializer is taken up and started.
-/
namespace ClassMachine

/-- No thread has the number zero, and none will. -/
def Scheduler.Zeroless (s : Scheduler FrameStack) : Prop := 0 < s.nextId ∧ s.get? 0 = none

theorem Scheduler.Zeroless.spares {s s' : Scheduler FrameStack} (h : s.Zeroless) {Q : ThreadId → Prop}
    (hQ : Q 0) (hs : s.Spares Q s') : s'.Zeroless := by
  refine ⟨UInt32.lt_of_lt_of_le h.1 hs.nextId, ?_⟩
  have hrel := hs.record 0 h.1 hQ
  rw [h.2] at hrel
  generalize s'.get? 0 = after at hrel
  cases hrel
  rfl

namespace Machine
open Stateful ClassTable

/-- Initializers that were counted, each by a row of a thread that there is none of. -/
def marks (m : Machine) : Nat := m.trace.countP (·.thread = 0)

/-- Counts what passed a test. -/
def marked (passed : Bool) (m : Machine) : Machine :=
  if passed then { m with trace := m.trace ++ [⟨0, m.scheduler.now, []⟩] } else m

theorem linker_marked (passed : Bool) (m : Machine) : (marked passed m).linker = m.linker := by
  unfold marked
  split <;> rfl

theorem scheduler_marked (passed : Bool) (m : Machine) :
    (marked passed m).scheduler = m.scheduler := by
  unfold marked
  split <;> rfl

theorem marks_marked (passed : Bool) (m : Machine) :
    (marked passed m).marks = m.marks + if passed then 1 else 0 := by
  unfold marked marks
  split <;> simp

/-- Counts the initializers that pass a test when they start, and the states between instructions that
pass another. -/
def marking (p : MethodId → Machine → Bool) (q : Machine → Bool) : Announcer where
  between _ := modify fun m => marked (q m) m
  start method := modify fun m => marked (p method m) m

/-- What can be told of the count from the class table, when it is kept where an initializer is taken up
and started. -/
structure Tally (p : MethodId → Machine → Bool) (q : Machine → Bool) (J : Machine → Prop) : Prop where
  between : ∀ {m : Machine}, J m → m.classes.Ordered → J (marked (q m) m)
  later : ∀ {m m' : Machine}, J m → m.classes.Precedes m'.classes → m'.marks = m.marks → J m'
  starts : ∀ {m m' : Machine} {method : MethodId}, J m → m.classes.Ordered →
    m.classes.Pending method.owner → m.classes.Precedes m'.classes → m'.marks = m.marks →
    m'.classes.Ordered → m'.classes.Cleared method.owner → J (marked (p method m') m')

/-- Initializers were taken up in order, and were counted as `J` says. -/
structure Kept (J : Machine → Prop) (m : Machine) : Prop where
  ordered : m.classes.Ordered
  zeroless : m.scheduler.Zeroless
  tally : J m

/-- The same later on. -/
structure Advances (J : Machine → Prop) (m m' : Machine) : Prop where
  kept : Kept J m'
  precedes : m.classes.Precedes m'.classes

/-- What does nothing about classes, initializers and the number zero. -/
structure Unrelated (m m' : Machine) : Prop where
  linker : m'.linker = m.linker
  marks : m'.marks = m.marks
  threads : ∃ Q : ThreadId → Prop, Q 0 ∧ m.scheduler.Spares Q m'.scheduler

/-- Whatever comes of it, `x` takes up initializers in order, and they are counted as `J` says. -/
def Proceeds (J : Machine → Prop) {ε α : Type} (x : EStateM ε Machine α) : Prop :=
  ∀ m, Kept J m → Ends (x m) (fun _ m' => Advances J m m') fun _ m' => Advances J m m'

section Proceeding

variable {ε α β : Type} {p : MethodId → Machine → Bool} {q : Machine → Bool} {J : Machine → Prop}
  {m m' m'' : Machine} {t : ThreadId}

theorem Advances.refl (h : Kept J m) : Advances J m m := ⟨h, .refl _⟩

theorem Advances.trans (h : Advances J m m') (h' : Advances J m' m'') : Advances J m m'' :=
  ⟨h'.kept, h.precedes.trans h'.precedes⟩

theorem Unrelated.of_eq (hl : m'.linker = m.linker) (ht : m'.trace = m.trace)
    (hs : m'.scheduler = m.scheduler) : m.Unrelated m' :=
  ⟨hl, by rw [Machine.marks, ht]; rfl, fun _ => True, trivial, by rw [hs]; exact .refl _ _⟩

theorem Unrelated.of_scheduler {s : Scheduler FrameStack} {Q : ThreadId → Prop} (hQ : Q 0)
    (hs : m.scheduler.Spares Q s) : m.Unrelated { m with scheduler := s } := ⟨rfl, rfl, Q, hQ, hs⟩

theorem Unrelated.advances (hp : Tally p q J) (h : m.Unrelated m') (hm : Kept J m) : Advances J m m' := by
  obtain ⟨hlinker, hmarks, Q, hQ, hs⟩ := h
  have hclasses : m'.classes = m.classes := congrArg Linker.classes hlinker
  have hprecedes : m.classes.Precedes m'.classes := by
    rw [hclasses]
    exact .refl _
  exact ⟨⟨by rw [hclasses]; exact hm.ordered, hm.zeroless.spares hQ hs,
    hp.later hm.tally hprecedes hmarks⟩, hprecedes⟩

theorem Proceeds.of_unrelated (hp : Tally p q J) {x : EStateM ε Machine α}
    (hx : ∀ m, Ends (x m) (fun _ m' => m.Unrelated m') fun _ m' => m.Unrelated m') : Proceeds J x :=
  fun m hm => (hx m).mono (fun _ _ h => h.advances hp hm) fun _ _ h => h.advances hp hm

theorem Proceeds.pure (a : α) : Proceeds J (Pure.pure a : EStateM ε Machine α) := fun _ hm => .refl hm

theorem Proceeds.throw (e : ε) : Proceeds J (throw e : EStateM ε Machine α) := fun _ hm => .refl hm

theorem Proceeds.along {x : EStateM ε Machine α} {f : α → EStateM ε Machine β} (hx : Proceeds J x)
    (hf : ∀ a, (∃ m m', x m = .ok a m') → Proceeds J (f a)) : Proceeds J (x >>= f) := by
  intro m hm
  have hends := hx m hm
  cases hr : x m with
  | ok a m₁ =>
    have h₁ := hends.of_ok hr
    rw [bind_of_ok hr]
    exact (hf a ⟨m, m₁, hr⟩ m₁ h₁.kept).mono (fun _ _ h => h₁.trans h) fun _ _ h => h₁.trans h
  | error e m₁ =>
    rw [bind_of_error hr]
    exact hends.of_error hr

theorem Proceeds.bind {x : EStateM ε Machine α} {f : α → EStateM ε Machine β} (hx : Proceeds J x)
    (hf : ∀ a, Proceeds J (f a)) : Proceeds J (x >>= f) := hx.along fun a _ => hf a

theorem Proceeds.read {f : Machine → EStateM ε Machine β} (hf : ∀ m, Proceeds J (f m)) :
    Proceeds J (get >>= f) := fun m hm => hf m m hm

theorem Proceeds.modify (hp : Tally p q J) {f : Machine → Machine} (hf : ∀ m, Unrelated m (f m)) :
    Proceeds J (modify f : EStateM ε Machine Unit) := .of_unrelated hp hf

theorem Proceeds.attempt {x : MachineM α} (hx : Proceeds J x) : Proceeds J (attempt x) := by
  intro m hm
  refine (attempt_ends (hx m hm)).mono (fun result m' h => ?_) fun _ _ h => h
  cases result <;> exact h

theorem Proceeds.ensuring (hp : Tally p q J) {x : MachineM α} {after : Machine → Machine}
    (hx : Proceeds J x) (ha : ∀ m, Unrelated m (after m)) : Proceeds J (ensuring x after) := by
  intro m hm
  have hends := hx m hm
  have hafter : ∀ m', Advances J m m' → Advances J m (after m') := fun m' h =>
    h.trans ((ha m').advances hp h.kept)
  unfold Machine.ensuring
  cases hr : x m with
  | ok a m' => exact hafter m' (hends.of_ok hr)
  | error e m' => exact hafter m' (hends.of_error hr)

theorem Proceeds.onScheduler (hp : Tally p q J) {f : Scheduler FrameStack → α × Scheduler FrameStack}
    (hf : ∀ s : Scheduler FrameStack, s.Alike (f s).2) : Proceeds J (onScheduler f) :=
  .of_unrelated hp fun m => .of_scheduler (Q := fun _ => True) trivial ((hf m.scheduler).spares _)

theorem Proceeds.updateThread (hp : Tally p q J) (ht : t ≠ 0)
    (f : Thread FrameStack → Thread FrameStack) : Proceeds J (updateThread t f) :=
  .modify hp fun m => .of_scheduler (Q := (· ≠ t)) (Ne.symm ht) (update_spares m.scheduler t f)

theorem Proceeds.onTop (hp : Tally p q J) (x : FrameM α) : Proceeds J (onTop x) := by
  refine .of_unrelated hp fun m => ?_
  unfold Machine.onTop
  split
  · exact .of_eq rfl rfl rfl
  · split <;> exact .of_eq rfl rfl rfl

theorem Proceeds.onSync (hp : Tally p q J) {x : SyncM FrameStack α} (hx : Sync.Tame x) :
    Proceeds J (onSync x) := by
  refine .of_unrelated hp fun m => ?_
  have hends := hx ⟨m.heap, m.scheduler⟩
  unfold Machine.onSync
  cases hr : x ⟨m.heap, m.scheduler⟩ with
  | ok a s => exact ⟨rfl, rfl, fun _ => True, trivial, hends.of_ok hr⟩
  | error e s => exact ⟨rfl, rfl, fun _ => True, trivial, (hends.of_error hr).1⟩

theorem Proceeds.updateHeap (hp : Tally p q J) (f : Heap → Heap) : Proceeds J (updateHeap f) :=
  .modify hp fun _ => .of_eq rfl rfl rfl

theorem Proceeds.pinning (hp : Tally p q J) (rs : List Ref) {x : MachineM α} (hx : Proceeds J x) :
    Proceeds J (pinning rs x) :=
  (Proceeds.updateHeap hp _).bind fun _ => hx.ensuring hp fun _ => .of_eq rfl rfl rfl

/-- Turns of the linker take up no initializer. -/
theorem Proceeds.onLinker (hp : Tally p q J) {x : StateM Linker α} (hx : Linker.Turning x) :
    Proceeds J (onLinker x) := by
  intro m hm
  have hturns := hx m.linker
  have hprecedes := hturns.unfolds.precedes
  exact ⟨⟨hm.ordered.unfolds hturns.unfolds (hturns.becomes.orderly hm.ordered.orderly), hm.zeroless,
    hp.later hm.tally hprecedes rfl⟩, hprecedes⟩

end Proceeding

section Instructions

variable {p : MethodId → Machine → Bool} {q : Machine → Bool} {J : Machine → Prop} {t : ThreadId} {k : Nested}

/-- As a relation, of a computation to whatever else. -/
abbrev Proceeding (J : Machine → Prop) : Comparison := fun _ x _ => Proceeds J x

theorem sequel_proceeds {β : Type} : Sequel (Proceeding J) (@Proceeding J β) :=
  ⟨fun hx hf => hx.along hf, fun hf _ => .read hf, fun e _ => .throw e⟩

theorem insertObject_proceeds (hp : Tally p q J) (o : Object) : Proceeds J (insertObject o) := by
  refine .of_unrelated hp fun m => ?_
  unfold Machine.insertObject
  dsimp only
  split <;> exact .of_eq rfl rfl rfl

theorem reserve_proceeds (hp : Tally p q J) (units : Nat) : Proceeds J (reserve units) := by
  refine .of_unrelated hp fun m => ?_
  unfold Machine.reserve
  split <;> exact .of_eq rfl rfl rfl

theorem rules_proceeds (hp : Tally p q J) (ht : t ≠ 0) : Rules t (Proceeding J) where
  seq := sequel_proceeds
  pure := .pure
  onTop _ := .onTop hp _
  popFrame := .modify hp fun _ => .of_eq rfl rfl rfl
  orPopFrame := by
    intro α x y hx m hm
    have hends := hx m hm
    unfold Machine.orPopFrame
    cases hr : x m with
    | ok a m' => exact hends.of_ok hr
    | error e m' =>
      have h := hends.of_error hr
      have hpopped : m'.Unrelated { m' with active := m'.active.tail } := .of_eq rfl rfl rfl
      exact h.trans (hpopped.advances hp h.kept)
  onLinker hx := .onLinker hp hx.turning
  reserve := reserve_proceeds hp
  newInstance id := sequel_proceeds.newInstance (.onLinker hp (Linker.consulting_prepare id).turning)
    (reserve_proceeds hp) fun _ => insertObject_proceeds hp _
  insertObject _ _ _ := insertObject_proceeds hp _
  setField r slot v := .updateHeap hp _
  intern text hmake := sequel_proceeds.internString .pure hmake fun _ => .updateHeap hp _
  registerMirror id r := .updateHeap hp _
  pinning rs _ _ hx := Proceeds.pinning hp rs hx
  collectGarbage := .of_unrelated hp fun m => .of_eq rfl rfl rfl
  currentThread := sequel_proceeds.threadObject .pure fun _ => .updateThread hp ht _
  interrupt target := .onScheduler hp fun s => (s.interrupt_wakes target).alike
  exit object := .onSync hp (Sync.exit_tame t object)
  notify object := .onSync hp (Sync.notify_tame t object)
  notifyAll object := .onSync hp (Sync.notifyAll_tame t object)

theorem free_proceeds (hp : Tally p q J) : Free (Proceeding J) where
  reframe _ := .modify hp fun _ => .of_eq rfl rfl rfl
  restatic _ := .modify hp fun _ => .of_eq rfl rfl rfl
  throw := .throw

theorem attachCompanion_proceeds (hp : Tally p q J) (object : Ref) (c : Companion) :
    Proceeds J (attachCompanion object c) := by
  unfold attachCompanion
  refine .read fun m => ?_
  split
  · split
    · exact (Proceeds.updateHeap hp _).bind fun _ => .pure _
    · exact .pure _
  · exact .pure _

/-- A native of the host leaves no row that would count as a mark. -/
theorem callHost_proceeds (hp : Tally p q J) (ht : t ≠ 0) (args : List Value) (native : HostNative) :
    Proceeds J (callHost t args native) := by
  have hr : Rules t (Proceeding J) := rules_proceeds hp ht
  have hraise : ∀ {α : Type} (className : String) (message : Option String),
      Proceeds J (raise className message : MachineM α) := fun className message =>
    hr.raise hr.seq className message
  cases native with
  | void => exact .pure _
  | const v => exact .pure _
  | echo index => exact .pure _
  | sum => exact .pure _
  | trace =>
    refine Proceeds.bind (.modify hp fun m => ⟨rfl, ?_, fun _ => True, trivial, .refl _ _⟩) fun _ => .pure _
    simp [Machine.marks, ht]
  | throw className message => exact hraise _ _
  | fatal detail => exact .throw _
  | string text => exact Proceeds.bind (hr.stringObject text) fun _ => .pure _
  | strlen =>
    refine .read fun m => ?_
    split <;> exact .pure _
  | new className =>
    refine .read fun m => ?_
    split
    · exact Proceeds.bind (hr.newInstance _) fun _ => .pure _
    · exact hraise _ _
  | attach companion => exact (attachCompanion_proceeds hp _ _).bind fun _ => .pure _
  | hold vetoes => exact (attachCompanion_proceeds hp _ _).bind fun _ => .pure _
  | bump =>
    refine .read fun m => ?_
    split
    · exact (Proceeds.updateHeap hp _).bind fun _ => .pure _
    · exact .pure _
  | peek => exact .read fun _ => .pure _
  | detach timeout =>
    exact (Proceeds.onScheduler hp fun s => s.detach_alike t timeout).bind fun _ => .pure _
  | yield => exact Proceeds.bind (.modify hp fun _ => .of_eq rfl rfl rfl) fun _ => .pure _
  | request r =>
    refine Proceeds.bind (.modify hp fun m => ?_) fun _ => .pure _
    have hsend : m.scheduler.Alike (m.scheduler.send r) :=
      Scheduler.pointwise_of_threads_eq Thread.Alike.refl rfl rfl
    exact .of_scheduler (Q := fun _ => True) trivial (hsend.spares _)
  | now => exact .read fun _ => .pure _
  | thread => exact .pure _
  | live => exact .read fun _ => .pure _
  | pin => exact (Proceeds.updateHeap hp _).bind fun _ => .pure _

theorem writes_proceeds (hp : Tally p q J) : Rules.Writes (Proceeding J) :=
  ⟨fun _ _ _ => insertObject_proceeds hp _, fun _ _ _ => .updateHeap hp _, fun _ _ _ => .updateHeap hp _⟩

theorem course_proceeds (hp : Tally p q J) (ht : t ≠ 0) :
    Course t (Proceeding J) (Proceeding J) (@Proceeding J Flow) := by
  have hr : Rules t (Proceeding J) := rules_proceeds hp ht
  have hw := writes_proceeds hp
  have henter : ∀ object, Proceeds J (onSync (Sync.enter t object)) := fun object =>
    .onSync hp (Sync.enter_tame t object)
  refine hr.course (hr.newPrimitiveArray hw) (hr.newMultiArray hw) (hr.arrayCopy hw.element)
    (hr.callBytecode (free_proceeds hp) hr.seq (hr.pure _) (hr.enterMonitor henter))
    (.onScheduler hp fun s => (s.takeInterrupt_wakes t).alike) henter
    (fun object timeout => .onSync hp (Sync.wait_tame t object timeout))
    (fun timeout => .onScheduler hp fun s => s.detach_alike t timeout)
    (fun target => .onScheduler hp fun s => s.join_alike t target) (.updateThread hp ht _)
    (.modify hp fun _ => .of_eq rfl rfl rfl) (.of_unrelated hp fun m => .of_eq rfl rfl rfl) ?_
  intro args id
  refine Proceeds.read fun m => ?_
  cases m.natives.get? id with
  | none => exact .throw _
  | some native => exact (callHost_proceeds hp ht args native).pinning hp _

end Instructions

section Nested

variable {α : Type} {p : MethodId → Machine → Bool} {q : Machine → Bool} {J : Machine → Prop}
  {t : ThreadId} {k : Nested}

/-- Calls that take up initializers in order themselves. -/
structure Nested.Proceeds (J : Machine → Prop) (k : Nested) : Prop where
  call : ∀ method args, Machine.Proceeds J (k.call method args)
  enter : ∀ thread method args, thread ≠ 0 → Machine.Proceeds J (k.enter thread method args)

theorem swapStack_unrelated (ht : t ≠ 0) (m : Machine) : m.Unrelated (swapStack t m) := by
  unfold swapStack
  cases m.scheduler.get? t with
  | none => exact .of_eq rfl rfl rfl
  | some r => exact ⟨rfl, rfl, (· ≠ t), Ne.symm ht, update_spares _ t _⟩

theorem Proceeds.withParked (hp : Tally p q J) (ht : t ≠ 0) {x : MachineM α} (hx : Proceeds J x) :
    Proceeds J (withParked t x) :=
  (Proceeds.modify hp (swapStack_unrelated ht)).bind fun _ => hx.ensuring hp (swapStack_unrelated ht)

/-- The initializer of a class is found under its number. -/
theorem method?_staticInitializer {table : ClassTable} (h : table.Ordered) {id : ClassId} {c : ClassInfo}
    (hc : table.get? id = some c) {initializer : Method} (hi : c.staticInitializer? = some initializer) :
    initializer.id.owner = id ∧ table.method? initializer.id = some initializer := by
  obtain ⟨i, _, hi⟩ := Option.bind_eq_some_iff.1 hi
  have hnumber := h.numbered id c hc i initializer hi
  refine ⟨by rw [hnumber], ?_⟩
  rw [hnumber, ClassTable.method?, hc]
  exact hi

/-- Starts an initializer that was taken up just before, and counts it. -/
theorem start_advances (hp : Tally p q J) (hk : Nested.Proceeds J k) (ht : t ≠ 0) {m m' : Machine}
    {method : MethodId} (hj : J m) (hbefore : m.classes.Ordered)
    (hpending : m.classes.Pending method.owner)
    (hprecedes : m.classes.Precedes m'.classes) (hmarks : m'.marks = m.marks)
    (hordered : m'.classes.Ordered) (hcleared : m'.classes.Cleared method.owner)
    (hzero : m'.scheduler.Zeroless) :
    Ends (Machine.withParked t ((announcing (marking p q) k).call method []) m')
      (fun _ n => Advances J m' n) fun _ n => Advances J m' n := by
  let parked := swapStack t m'
  obtain ⟨hlinker, hsame, Q, hQ, hs⟩ := swapStack_unrelated ht m'
  have hclasses : parked.classes = m'.classes := congrArg Linker.classes hlinker
  let started := marked (p method parked) parked
  have hstartedClasses : started.classes = m'.classes :=
    (congrArg Linker.classes (linker_marked _ parked)).trans hclasses
  have hkept : Kept J started := by
    refine ⟨by rw [hstartedClasses]; exact hordered, ?_, ?_⟩
    · rw [scheduler_marked]
      exact hzero.spares hQ hs
    · refine hp.starts hj hbefore hpending ?_ (hsame.trans hmarks) ?_ ?_
      · rw [hclasses]
        exact hprecedes
      · rw [hclasses]
        exact hordered
      · rw [hclasses]
        exact hcleared
  have hafter : ∀ n, Advances J started n → Advances J m' (swapStack t n) := by
    intro n hn
    have h := hn.trans ((swapStack_unrelated ht n).advances hp hn.kept)
    exact ⟨h.kept, by rw [← hstartedClasses]; exact h.precedes⟩
  show Ends (Machine.ensuring (k.call method []) (swapStack t) started) _ _
  have hcall := hk.call method [] started hkept
  unfold Machine.ensuring
  cases hr : k.call method [] started with
  | ok v n => exact hafter n (hcall.of_ok hr)
  | error e n => exact hafter n (hcall.of_error hr)

/-- A class whose superclasses are cleared is taken up in order. -/
theorem initializeOne_advances (hp : Tally p q J) (hk : Nested.Proceeds J k) (ht : t ≠ 0) {m : Machine}
    {id : ClassId} {S : ClassId → Prop} (hm : Kept J m) (hS : m.classes.Followed S) (hid : S id)
    (habove : m.classes.ClearedAbove id) :
    Ends (initializeOne (announcing (marking p q) k) t id m)
      (fun _ m' => Advances J m m' ∧ m'.classes.Cleared id) fun _ m' => Advances J m m' := by
  let m₁ : Machine := { m with linker := (Linker.prepare id m.linker).2 }
  have hprepare : Advances J m m₁ := Proceeds.onLinker hp (Linker.consulting_prepare id).turning m hm
  have hfound : (Linker.prepare id m.linker).1 = m₁.classes.get? id := prepare_fst id m.linker
  have hS₁ := hS.settles hprepare.precedes.settles
  obtain ⟨c, _, hc, _⟩ := hS₁ id hid
  unfold initializeOne
  rw [bind_of_ok (show Machine.onLinker (Linker.prepare id) m = .ok (m₁.classes.get? id) m₁ by
    rw [← hfound]; rfl), hc]
  dsimp only
  let m₂ : Machine := { m₁ with linker := { m₁.linker with classes := (takePendingInit id m₁.classes).2 } }
  have htake : Machine.onClasses (takePendingInit id) m₁ = .ok (some c.pendingInit) m₂ := by
    show EStateM.Result.ok ((m₁.classes.get? id).map (·.pendingInit)) m₂ = _
    rw [hc]
    rfl
  rw [bind_of_ok htake]
  have hprecedes : m₁.classes.Precedes m₂.classes := takePendingInit_precedes id m₁.classes
  have hordered : m₂.classes.Ordered := hprepare.kept.ordered.takePendingInit hS₁ hid
    (habove.precedes hprepare.precedes hS hid)
  have hcleared : m₂.classes.Cleared id :=
    ⟨_, by rw [show m₂.classes.get? id = _ from get?_takePendingInit .., if_pos rfl, hc]; rfl, rfl⟩
  have hkept : Advances J m m₂ := hprepare.trans
    ⟨⟨hordered, hprepare.kept.zeroless, hp.later hprepare.kept.tally hprecedes rfl⟩, hprecedes⟩
  split
  · next hpending =>
    rw [bind_modify]
    let m₃ : Machine := { m₂ with statics := m₂.statics.ensure id c.staticKinds }
    have hunrelated : m₂.Unrelated m₃ := .of_eq rfl rfl rfl
    have hstatics : Advances J m m₃ := hkept.trans (hunrelated.advances hp hkept.kept)
    cases hi : c.staticInitializer? with
    | none => exact ⟨hstatics, hcleared⟩
    | some initializer =>
      have howner := (method?_staticInitializer hprepare.kept.ordered hc hi).1
      have hstart : Ends (Machine.withParked t ((announcing (marking p q) k).call initializer.id []) m₃)
          (fun _ n => Advances J m₃ n) fun _ n => Advances J m₃ n :=
        start_advances hp hk ht hprepare.kept.tally hprepare.kept.ordered
          (by rw [howner]; exact ⟨c, hc, Option.some.inj hpending⟩) hprecedes rfl
          hordered (by rw [howner]; exact hcleared) hprepare.kept.zeroless
      refine (hstart.mono (fun _ _ h => h) fun _ _ h => hstatics.trans h).bind fun _ m' h => ?_
      exact ⟨hstatics.trans h, h.precedes.cleared hcleared⟩
  · exact ⟨hkept, hcleared⟩

end Nested

end Machine

end ClassMachine
