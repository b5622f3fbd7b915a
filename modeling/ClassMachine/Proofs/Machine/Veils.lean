import ClassMachine.Proofs.Machine.RuleSteps

/-!
What a running machine does not look at. Instructions depend neither on the length of slices nor on the
trace. So machines that are the same under a veil over these do the same, and are the same under the
veil afterwards.
-/
namespace ClassMachine.Machine
open Stateful

/-- The machine with the length of its slices and its trace changed. -/
def retouched (m : Machine) (g : UInt32 → UInt32) (f : List TraceRow → List TraceRow) : Machine :=
  m.veiled (g m.config.sliceCycles) (f m.trace)

/-- The outcome with its machine changed in that way. -/
def retouchedResult {ε α : Type} (g : UInt32 → UInt32) (f : List TraceRow → List TraceRow) :
    EStateM.Result ε Machine α → EStateM.Result ε Machine α
  | .ok a m => .ok a (m.retouched g f)
  | .error e m => .error e (m.retouched g f)

/-- Does the same whatever the length of slices and the trace are, and leaves them alone. -/
def Oblivious {ε α : Type} (x : EStateM ε Machine α) : Prop :=
  ∀ g f m, x (m.retouched g f) = retouchedResult g f (x m)

section Obliviousness

variable {α : Type} {t : ThreadId}

theorem oblivious_onTop (x : FrameM α) : Oblivious (onTop x) := by
  intro g f m
  unfold Machine.onTop
  rw [show (m.retouched g f).active = m.active from rfl]
  cases m.active with
  | nil => rfl
  | cons frame rest =>
    dsimp only
    cases x frame <;> rfl

theorem oblivious_onSync (x : SyncM FrameStack α) : Oblivious (onSync x) := by
  intro g f m
  unfold Machine.onSync
  rw [show (m.retouched g f).heap = m.heap from rfl, show (m.retouched g f).scheduler = m.scheduler from rfl]
  cases x ⟨m.heap, m.scheduler⟩ <;> rfl

theorem oblivious_reserve (units : Nat) : Oblivious (reserve units) := by
  intro g f m
  unfold Machine.reserve
  rw [show (m.retouched g f).heap = m.heap from rfl, show (m.retouched g f).roots = m.roots from rfl]
  rcases m.heap.reserve m.roots units with ⟨_ | _, h⟩ <;> rfl

theorem insertObject_eq (o : Object) (m : Machine) : insertObject o m =
    if m.heap.contains (m.heap.insert o).1 then .error .outOfFuel m
    else .ok (m.heap.insert o).1 { m with heap := (m.heap.insert o).2 } := rfl

theorem oblivious_insertObject (o : Object) : Oblivious (insertObject o) := by
  intro g f m
  rw [insertObject_eq, insertObject_eq, show (m.retouched g f).heap = m.heap from rfl]
  split <;> rfl

theorem oblivious_spawnThread (object : Ref) : Oblivious (spawnThread object) := by
  intro g f m
  unfold spawnThread
  rw [show (m.retouched g f).scheduler = m.scheduler from rfl]
  split <;> rfl

theorem oblivious_threadDied (exception : Ref) : Oblivious (threadDied t exception) := by
  intro g f m
  unfold threadDied
  rw [bind_get, bind_get, show (m.retouched g f).config.uncaught = m.config.uncaught from rfl]
  cases hu : m.config.uncaught <;> rfl

theorem retouched_swapStack (g : UInt32 → UInt32) (f : List TraceRow → List TraceRow) (m : Machine) :
    swapStack t (m.retouched g f) = (swapStack t m).retouched g f := by
  unfold swapStack
  rw [show (m.retouched g f).scheduler = m.scheduler from rfl]
  cases m.scheduler.get? t <;> rfl

theorem retouched_takeStack (g : UInt32 → UInt32) (f : List TraceRow → List TraceRow) (m : Machine) :
    takeStack t (m.retouched g f) = (takeStack t m).retouched g f := by
  unfold takeStack
  rw [show (m.retouched g f).scheduler = m.scheduler from rfl]
  cases m.scheduler.get? t <;> rfl

end Obliviousness

/-- What can be seen of a machine when its trace is hidden, and of its slices what `g` tells. -/
def veil (g : UInt32 → UInt32) (m : Machine) : Machine := m.retouched g fun _ => []

/-- The same outcome, and machines that are the same under the veil. -/
inductive Likewise (g : UInt32 → UInt32) {ε α : Type} :
    EStateM.Result ε Machine α → EStateM.Result ε Machine α → Prop
  | ok (a : α) {m n : Machine} (h : veil g m = veil g n) : Likewise g (.ok a m) (.ok a n)
  | error (e : ε) {m n : Machine} (h : veil g m = veil g n) : Likewise g (.error e m) (.error e n)

/-- From machines that are the same under the veil, `x` and `y` come to the same. -/
def Alike (g : UInt32 → UInt32) {ε α : Type} (x y : EStateM ε Machine α) : Prop :=
  ∀ m n, veil g m = veil g n → Likewise g (x m) (y n)

section Parts

variable {ε α β : Type} {g : UInt32 → UInt32} {t : ThreadId}

theorem Alike.pure (a : α) : Alike g (Pure.pure a : EStateM ε Machine α) (Pure.pure a) :=
  fun _ _ => .ok a

theorem Alike.throw (e : ε) : Alike g (throw e : EStateM ε Machine α) (throw e) := fun _ _ => .error e

theorem Alike.along {x y : EStateM ε Machine α} {f h : α → EStateM ε Machine β} (hx : Alike g x y)
    (hf : ∀ a, (∃ m m', x m = .ok a m') → Alike g (f a) (h a)) : Alike g (x >>= f) (y >>= h) := by
  intro m n hmn
  have hxy := hx m n hmn
  show Likewise g (EStateM.bind x f m) (EStateM.bind y h n)
  unfold EStateM.bind
  generalize hm : x m = r at hxy ⊢
  generalize y n = s at hxy ⊢
  cases hxy with
  | ok a hafter => exact hf a ⟨m, _, hm⟩ _ _ hafter
  | error e hafter => exact .error e hafter

theorem Alike.bind {x y : EStateM ε Machine α} {f h : α → EStateM ε Machine β} (hx : Alike g x y)
    (hf : ∀ a, Alike g (f a) (h a)) : Alike g (x >>= f) (y >>= h) := hx.along fun a _ => hf a

/-- What is read does not depend on what is hidden. -/
theorem Alike.read {f h : Machine → EStateM ε Machine β} (hf : ∀ m, Alike g (f m) (h m))
    (hveil : ∀ m, h (veil g m) = h m) : Alike g (get >>= f) (get >>= h) := by
  intro m n hmn
  show Likewise g (f m m) (h n n)
  rw [← hveil n, ← hmn, hveil m]
  exact hf m m n hmn

theorem Alike.attempt {x y : MachineM α} (hx : Alike g x y) : Alike g (attempt x) (attempt y) := by
  intro m n hmn
  have hxy := hx m n hmn
  unfold Machine.attempt
  generalize x m = r, y n = s at hxy ⊢
  cases hxy with
  | ok a hafter => exact .ok _ hafter
  | error e hafter => exact .ok _ hafter

theorem Alike.ensuring {x y : MachineM α} {u v : Machine → Machine} (hx : Alike g x y)
    (h : ∀ m n, veil g m = veil g n → veil g (u m) = veil g (v n)) :
    Alike g (ensuring x u) (ensuring y v) := by
  intro m n hmn
  have hxy := hx m n hmn
  unfold Machine.ensuring
  generalize x m = r, y n = s at hxy ⊢
  cases hxy with
  | ok a hafter => exact .ok a (h _ _ hafter)
  | error e hafter => exact .error e (h _ _ hafter)

theorem Alike.modify {u v : Machine → Machine}
    (h : ∀ m n, veil g m = veil g n → veil g (u m) = veil g (v n)) :
    Alike g (modify u : EStateM ε Machine PUnit) (modify v) := fun m n hmn => .ok _ (h m n hmn)

/-- What an oblivious computation does only depends on what is seen. -/
theorem Alike.of_oblivious {x : EStateM ε Machine α} (h : Oblivious x) : Alike g x x := by
  intro m n hmn
  have hm := h g (fun _ => []) m
  have hn := h g (fun _ => []) n
  rw [show n.retouched g _ = m.retouched g _ from hmn.symm, hm] at hn
  generalize x m = r, x n = s at hn ⊢
  cases r with
  | ok a m' =>
    cases s with
    | ok b n' =>
      have hsame : EStateM.Result.ok (ε := ε) a (veil g m') = .ok b (veil g n') := hn
      obtain ⟨rfl, hafter⟩ := EStateM.Result.ok.inj hsame
      exact .ok _ hafter
    | error e n' => nomatch hn
  | error e m' =>
    cases s with
    | ok b n' => nomatch hn
    | error e' n' =>
      have hsame : EStateM.Result.error (α := α) e (veil g m') = .error e' (veil g n') := hn
      obtain ⟨rfl, hafter⟩ := EStateM.Result.error.inj hsame
      exact .error _ hafter

/-- A change of what is seen. -/
theorem veil_eq {u : Machine → Machine} (h : ∀ m, veil g (u m) = u (veil g m)) {m n : Machine}
    (hmn : veil g m = veil g n) : veil g (u m) = veil g (u n) := by
  rw [h, hmn, h]

theorem Alike.onScheduler (h : Scheduler FrameStack → α × Scheduler FrameStack) :
    Alike g (onScheduler h) (onScheduler h) := .of_oblivious fun _ _ _ => rfl

theorem Alike.updateThread (u : Thread FrameStack → Thread FrameStack) :
    Alike g (updateThread t u) (updateThread t u) := .of_oblivious fun _ _ _ => rfl

theorem Alike.updateHeap (h : Heap → Heap) : Alike g (updateHeap h) (updateHeap h) :=
  .of_oblivious fun _ _ _ => rfl

theorem Alike.onSync (x : SyncM FrameStack α) : Alike g (onSync x) (onSync x) := .of_oblivious (oblivious_onSync x)

theorem Alike.onTop (x : FrameM α) : Alike g (onTop x) (onTop x) := .of_oblivious (oblivious_onTop x)

end Parts

section Instructions

/-- As a relation of computations with whatever results. -/
abbrev Likeness (g : UInt32 → UInt32) : Comparison := fun _ x y => Alike g x y

variable {g : UInt32 → UInt32} {t : ThreadId} {k l : Nested}

theorem sequel_alike {β : Type} : Sequel (Likeness g) (@Likeness g β) :=
  ⟨.along, fun hf hveiled => .read hf fun m => hveiled m _ _, fun e _ => .throw e⟩

theorem rules_alike : Rules t (Likeness g) where
  seq := sequel_alike
  pure := .pure
  onTop _ := Alike.onTop _
  popFrame := Alike.of_oblivious fun _ _ _ => rfl
  orPopFrame := by
    intro α x y hx m n hmn
    have hxy := hx m n hmn
    unfold Machine.orPopFrame
    generalize x m = r, y n = s at hxy ⊢
    cases hxy with
    | ok a hafter => exact .ok a hafter
    | error e hafter =>
      exact .error e (veil_eq (u := fun m => { m with active := m.active.tail }) (fun _ => rfl) hafter)
  onLinker _ := Alike.of_oblivious fun _ _ _ => rfl
  reserve units := Alike.of_oblivious (oblivious_reserve units)
  newInstance _ := sequel_alike.newInstance (Alike.of_oblivious fun _ _ _ => rfl)
    (fun units => Alike.of_oblivious (oblivious_reserve units))
    fun _ => Alike.of_oblivious (oblivious_insertObject _)
  insertObject _ _ _ := Alike.of_oblivious (oblivious_insertObject _)
  setField _ _ _ := Alike.updateHeap _
  intern _ hmake := sequel_alike.internString .pure hmake fun _ => Alike.updateHeap _
  registerMirror _ _ := Alike.updateHeap _
  pinning _ _ _ hx := (Alike.updateHeap _).bind fun _ => Alike.ensuring hx fun _ _ =>
    veil_eq (u := fun m => { m with heap := m.heap.unpinAll _ }) fun _ => rfl
  collectGarbage := Alike.of_oblivious fun _ _ _ => rfl
  currentThread := sequel_alike.threadObject .pure fun _ => Alike.updateThread _
  interrupt _ := Alike.onScheduler _
  exit _ := Alike.onSync _
  notify _ := Alike.onSync _
  notifyAll _ := Alike.onSync _

theorem free_alike : Free (Likeness g) where
  reframe _ := Alike.of_oblivious fun _ _ _ => rfl
  restatic _ := Alike.of_oblivious fun _ _ _ => rfl
  throw := .throw

theorem attachCompanion_alike (object : Ref) (c : Companion) :
    Alike g (attachCompanion object c) (attachCompanion object c) := by
  refine sequel_alike.read (fun m => ?_) fun _ _ _ => rfl
  split
  · split
    · exact (Alike.updateHeap _).bind fun _ => .pure _
    · exact .pure _
  · exact .pure _

theorem callHost_alike (args : List Value) (native : HostNative) :
    Alike g (callHost t args native) (callHost t args native) := by
  have hr : Rules t (Likeness g) := rules_alike
  have hraise : ∀ {α : Type} (className : String) (message : Option String),
      Alike g (raise className message : MachineM α) (raise className message) :=
    fun className message => hr.raise hr.seq className message
  cases native with
  | void => exact .pure _
  | const v => exact .pure _
  | echo index => exact .pure _
  | sum => exact .pure _
  | trace => exact Alike.bind (.modify fun m n hmn => hmn) fun _ => .pure _
  | throw className message => exact hraise _ _
  | fatal detail => exact .throw _
  | string text => exact Alike.bind (hr.stringObject text) fun _ => .pure _
  | strlen =>
    refine hr.seq.read (fun m => ?_) fun _ _ _ => rfl
    split <;> exact .pure _
  | new className =>
    refine hr.seq.read (fun m => ?_) fun _ _ _ => rfl
    split
    · exact Alike.bind (hr.newInstance _) fun _ => .pure _
    · exact hraise _ _
  | attach companion => exact (attachCompanion_alike _ _).bind fun _ => .pure _
  | hold vetoes => exact (attachCompanion_alike _ _).bind fun _ => .pure _
  | bump =>
    refine hr.seq.read (fun m => ?_) fun _ _ _ => rfl
    split
    · exact (Alike.updateHeap _).bind fun _ => .pure _
    · exact .pure _
  | peek => exact hr.seq.read (fun _ => .pure _) fun _ _ _ => rfl
  | detach timeout => exact (Alike.onScheduler _).bind fun _ => .pure _
  | yield => exact Alike.bind (.of_oblivious fun _ _ _ => rfl) fun _ => .pure _
  | request r => exact Alike.bind (.of_oblivious fun _ _ _ => rfl) fun _ => .pure _
  | now => exact hr.seq.read (fun _ => .pure _) fun _ _ _ => rfl
  | thread => exact .pure _
  | live => exact hr.seq.read (fun _ => .pure _) fun _ _ _ => rfl
  | pin => exact (Alike.updateHeap _).bind fun _ => .pure _

theorem writes_alike : Rules.Writes (Likeness g) :=
  ⟨fun _ _ _ => Alike.of_oblivious (oblivious_insertObject _), fun _ _ _ => Alike.updateHeap _,
    fun _ _ _ => Alike.updateHeap _⟩

theorem course_alike : Course t (Likeness g) (Likeness g) (@Likeness g Flow) := by
  have hr : Rules t (Likeness g) := rules_alike
  refine hr.course (hr.newPrimitiveArray writes_alike) (hr.newMultiArray writes_alike) (hr.arrayCopy writes_alike.element)
    (hr.callBytecode free_alike hr.seq (hr.pure _) (hr.enterMonitor fun _ => Alike.onSync _))
    (Alike.onScheduler _) (fun object => Alike.onSync _)
    (fun object _ => Alike.onSync _) (fun _ => Alike.onScheduler _) (fun _ => Alike.onScheduler _)
    (Alike.updateThread _) (.of_oblivious fun _ _ _ => rfl) (.of_oblivious fun _ _ _ => rfl) fun args id => ?_
  refine sequel_alike.read (fun m => ?_) fun _ _ _ => rfl
  cases m.natives.get? id with
  | none => exact .throw _
  | some native => exact hr.pinning _ (callHost_alike args native)

end Instructions

end ClassMachine.Machine
