import ClassMachine.Proofs.Heap.Weights
import ClassMachine.Proofs.Machine.PassageRuns
import ClassMachine.Proofs.Machine.StaticRuns

/-!
Whole runs, from the things they are made of. Whatever a host asks for, a machine changes objects and classes,
puts up frames and hands threads on; and nothing else comes of calls, initializers, slices and exceptions, however
they end. A relation between machines that holds of each of these things, and of what is done one after the other,
holds from the beginning of a run to its end.
-/
namespace ClassMachine.Machine
open Stateful

variable {ε α β : Type} {m m' : Machine} {R : Machine → Machine → Prop} {t : ThreadId} {k : Nested}

/-- What leaves objects, pins and literals alone besides. Objects that stand for classes may be others. -/
structure Beside (m m' : Machine) : Prop extends Aside m m' where
  heap : ∃ mirrors, m'.heap = { m.heap with mirrors := mirrors }
  spare : m'.outOfMemory = m.outOfMemory

theorem Aside.beside (h : m.Aside m') (hheap : m'.heap = m.heap) (hspare : m'.outOfMemory = m.outOfMemory) :
    m.Beside m' := ⟨h, ⟨m.heap.mirrors, hheap⟩, hspare⟩

theorem Beside.of_eq (hclasses : m'.classes = m.classes) (hstatics : m'.statics = m.statics)
    (hactive : m'.active = m.active) (hscheduler : m'.scheduler = m.scheduler) (hheap : m'.heap = m.heap)
    (hspare : m'.outOfMemory = m.outOfMemory) : m.Beside m' :=
  Aside.beside (.of_eq hclasses hstatics hactive hscheduler) hheap hspare

theorem Beside.of_alike {s : Scheduler FrameStack} (hs : m.scheduler.Alike s) : m.Beside { m with scheduler := s } :=
  (Aside.of_alike hs).beside rfl rfl

theorem swapStack_beside (t : ThreadId) (m : Machine) : m.Beside (swapStack t m) := by
  refine (swapStack_aside t m).beside ?_ ?_ <;> unfold swapStack <;> split <;> rfl

theorem takeStack_beside (t : ThreadId) (m : Machine) : m.Beside (takeStack t m) := by
  refine (takeStack_aside t m).beside ?_ ?_ <;> unfold takeStack <;> split <;> rfl

theorem saveStack_beside (t : ThreadId) (m : Machine) : m.Beside (saveStack t m) :=
  (saveStack_aside t m).beside rfl rfl

/-- However `x` ends, `R` leads from the machine it began with to the one it leaves. -/
def Follows (R : Machine → Machine → Prop) (x : EStateM ε Machine α) : Prop := ∀ m, R m (final (x m))

theorem Follows.read {f : Machine → EStateM ε Machine β} (hf : ∀ m, Follows R (f m)) : Follows R (get >>= f) :=
  fun m => hf m m

theorem Follows.attempt {x : MachineM α} (hx : Follows R x) : Follows R (Machine.attempt x) := by
  intro m
  have hends := hx m
  unfold Machine.attempt
  cases hr : x m with
  | ok a m' => rwa [hr] at hends
  | error e m' => rwa [hr] at hends

theorem Follows.forHost {x : MachineM α} (hx : Follows R x) : Follows R (Machine.forHost x) := by
  intro m
  have hends := hx m
  unfold Machine.forHost
  cases hr : x m with
  | ok a m' => rwa [hr] at hends
  | error e m' => rwa [hr] at hends

/-- Where it matters what `x` has come to. -/
theorem leads_bind {m₀ : Machine} {x : EStateM ε Machine α} {f : α → EStateM ε Machine β}
    (hx : R m₀ (final (x m))) (hf : ∀ a m', x m = .ok a m' → R m₀ m' → R m₀ (final (f a m'))) :
    R m₀ (final ((x >>= f) m)) := by
  cases hr : x m with
  | ok a m' =>
    rw [hr] at hx
    rw [bind_of_ok hr]
    exact hf a m' hr hx
  | error e m' =>
    rw [hr] at hx
    rw [bind_of_error hr]
    exact hx

/-- Where it is of no account what is pinned. -/
theorem Follows.pinning (htrans : ∀ {m m' m'' : Machine}, R m m' → R m' m'' → R m m'')
    (hpins : ∀ (m : Machine) {h : Heap}, h.objects = m.heap.objects → h.nextHandle = m.heap.nextHandle →
      h.used = m.heap.used → R m { m with heap := h }) (rs : List Ref) {x : MachineM α} (hx : Follows R x) :
    Follows R (Machine.pinning rs x) := by
  intro m
  have hpinned : R m { m with heap := m.heap.pinAll rs } :=
    hpins m (m.heap.objects_pinAll rs).1 (m.heap.objects_pinAll rs).2 (m.heap.used_pinAll rs)
  show R m (final (Machine.ensuring x (fun n => { n with heap := n.heap.unpinAll rs })
    { m with heap := m.heap.pinAll rs }))
  rw [final_ensuring]
  exact htrans (htrans hpinned (hx _)) (hpins _ (Heap.objects_unpinAll ..).1 (Heap.objects_unpinAll ..).2
    (Heap.used_unpinAll ..))

/-- As a relation, of a computation to whatever else. -/
abbrev Following (R : Machine → Machine → Prop) : Comparison := fun _ x _ => Follows R x

/-- A relation that leads on from one thing to the next, past what changes neither objects nor classes. Frames may
be exchanged for others that stand in the same bodies, and what was pinned for a while may be let go again. -/
structure Trail (R : Machine → Machine → Prop) : Prop where
  trans : ∀ {m m' m'' : Machine}, R m m' → R m' m'' → R m m''
  beside : ∀ {m m' : Machine}, m.Beside m' → R m m'
  pin : ∀ (m : Machine) (r : Ref), R m { m with heap := m.heap.pin r }
  pinning : ∀ {α : Type} (rs : List Ref) {x : MachineM α}, Follows R x → Follows R (pinning rs x)
  reframe : ∀ {m m' : Machine} {frames : FrameStack}, R m m' →
    (∀ f ∈ frames, ∃ g ∈ m.active, f.code = g.code) → R m { m' with active := frames }

namespace Trail

theorem refl (h : Trail R) (m : Machine) : R m m := h.beside (.of_eq rfl rfl rfl rfl rfl rfl)

theorem still (h : Trail R) {x : EStateM ε Machine α} (hx : ∀ m : Machine, m.Beside (final (x m))) :
    Follows R x := fun m => h.beside (hx m)

theorem pure (h : Trail R) (a : α) : Follows R (Pure.pure a : EStateM ε Machine α) := h.refl

theorem throw (h : Trail R) (e : ε) : Follows R (throw e : EStateM ε Machine α) := h.refl

theorem along (h : Trail R) {x : EStateM ε Machine α} {f : α → EStateM ε Machine β} (hx : Follows R x)
    (hf : ∀ a, (∃ m m', x m = .ok a m') → Follows R (f a)) : Follows R (x >>= f) := fun m =>
  leads_bind (hx m) fun a m' hr h' => h.trans h' (hf a ⟨m, m', hr⟩ m')

theorem bind (h : Trail R) {x : EStateM ε Machine α} {f : α → EStateM ε Machine β} (hx : Follows R x)
    (hf : ∀ a, Follows R (f a)) : Follows R (x >>= f) := h.along hx fun a _ => hf a

/-- What comes of `x` is of no interest. -/
theorem discard (h : Trail R) {x : EStateM ε Machine α} (hx : Follows R x) (b : β) :
    Follows R (do let _ ← x; Pure.pure b) := h.bind hx fun _ => h.pure b

theorem sequel (h : Trail R) : Sequel (Following R) (@Following R β) :=
  ⟨fun hx hf => h.along hx hf, fun hf _ m => hf m m, fun e _ => h.throw e⟩

theorem modify (h : Trail R) {f : Machine → Machine} (hf : ∀ m : Machine, m.Beside (f m)) :
    Follows R (modify f : EStateM ε Machine Unit) := h.still hf

/-- What is done after `x` is of no account. -/
theorem ensuring (h : Trail R) {x : MachineM α} {after : Machine → Machine} (hx : Follows R x)
    (hafter : ∀ m : Machine, m.Beside (after m)) : Follows R (ensuring x after) := fun m => by
  rw [final_ensuring]
  exact h.trans (hx m) (h.beside (hafter _))

theorem onScheduler (h : Trail R) {f : Scheduler FrameStack → α × Scheduler FrameStack}
    (hf : ∀ s : Scheduler FrameStack, s.Alike (f s).2) : Follows R (onScheduler f) :=
  h.still fun m => .of_alike (hf m.scheduler)

theorem updateThread (h : Trail R) (t : ThreadId) {f : Thread FrameStack → Thread FrameStack}
    (hf : ∀ r, (f r).stack = r.stack) : Follows R (updateThread t f) :=
  h.still fun _ => Aside.beside (.updateThread t hf) rfl rfl

theorem onTop (h : Trail R) {x : FrameM α} (hx : Frame.Plain x) : Follows R (onTop x) := by
  intro m
  unfold Machine.onTop
  cases ha : m.active with
  | nil => exact h.refl m
  | cons f rest =>
    have hplain := hx f
    dsimp only
    cases hr : x f with
    | ok a g => exact h.beside (Aside.beside (.refront ha (hplain.of_ok hr)) rfl rfl)
    | error e g => exact h.beside (Aside.beside (.refront ha (hplain.of_error hr).1) rfl rfl)

theorem popFrame (h : Trail R) : Follows R popFrame := h.modify fun m => (popFrame_aside m).beside rfl rfl

theorem orPopFrame (h : Trail R) {x : MachineM α} (hx : Follows R x) : Follows R (orPopFrame x) := by
  intro m
  have hends := hx m
  unfold Machine.orPopFrame
  cases hr : x m with
  | ok a m' => rwa [hr] at hends
  | error e m' =>
    rw [hr] at hends
    exact h.trans hends (h.popFrame m')

theorem withParked (h : Trail R) {x : MachineM α} (hx : Follows R x) : Follows R (withParked t x) :=
  h.bind (h.modify (swapStack_beside t)) fun _ => h.ensuring hx (swapStack_beside t)

/-- The frames that come back were there before. -/
theorem onFreshStack (h : Trail R) {x : MachineM α} (hx : Follows R x) : Follows R (onFreshStack x) := by
  intro m
  have hcleared : m.Beside { m with active := [] } := Aside.beside (.of_threads
    (fun t r hr _ hf => .inr ⟨t, r, hr, hf⟩) (List.forall_mem_nil _) rfl rfl rfl rfl) rfl rfl
  show R m (final (Machine.ensuring x (fun n => { n with active := m.active }) { m with active := [] }))
  rw [final_ensuring]
  exact h.reframe (h.trans (h.beside hcleared) (hx _)) fun f hf => ⟨f, hf, rfl⟩

theorem spawnThread (h : Trail R) (object : Ref) : Follows R (spawnThread object) := by
  refine h.still fun m => ?_
  unfold Machine.spawnThread
  split
  · exact .of_eq rfl rfl rfl rfl rfl rfl
  · exact (spawned_aside object m).beside rfl rfl

theorem threadDied (h : Trail R) (thread : ThreadId) (exception : Ref) : Follows R (threadDied thread exception) := by
  refine h.still fun m => ?_
  unfold Machine.threadDied
  rw [bind_get]
  cases m.config.uncaught <;> exact (ended_aside thread _ m).beside rfl rfl

theorem awaitDeadline (h : Trail R) (method : MethodId) : Follows R (awaitDeadline t method) := by
  refine Follows.read fun m => ?_
  cases (m.scheduler.get? t).map (·.state) with
  | none => exact h.throw _
  | some state =>
    cases state with
    | ready => exact h.pure _
    | detached => exact h.throw _
    | terminated => exact h.throw _
    | detachedUntil deadline => exact h.modify fun m => (idled_aside deadline m).beside rfl rfl

theorem takeParkedInterrupt (h : Trail R) : Follows R (takeParkedInterrupt t) := by
  refine Follows.read fun m => ?_
  split
  · split
    · exact h.bind (h.updateThread t fun _ => rfl) fun _ => h.pure _
    · exact h.pure _
  · exact h.pure _

end Trail

/-- Frames go on in the bodies they stand in. -/
theorem Stands.onTop {code : LinkedCode} {x : FrameM α} {a : α} (h : m.Stands code) (hx : Frame.Plain x)
    (hr : onTop x m = .ok a m') : m'.Stands code := by
  unfold Machine.onTop at hr
  split at hr
  · cases hr
  · next f rest hactive =>
    split at hr
    · next b g hg =>
      cases hr
      cases h with
      | running hf hcode =>
        rw [hactive] at hf
        rcases List.mem_cons.1 hf with rfl | hf
        · exact .running List.mem_cons_self (((hx _).of_ok hg).trans hcode)
        · exact .running (List.mem_cons_of_mem g hf) hcode
      | parked hu hf hcode => exact .parked hu hf hcode
    · cases hr

/-- What is fetched is an instruction of a body that a frame stands in. -/
theorem of_fetched {i : Instruction} (h : onTop fetch m = .ok i m') :
    ∃ code, m'.Stands code ∧ i ∈ code.instructions := by
  have hrun := h
  unfold onTop at hrun
  split at hrun
  · cases hrun
  · next f rest hactive =>
    split at hrun
    · next j g hg =>
      cases hrun
      have hstands : m.Stands f.code := .running (hactive ▸ List.mem_cons_self) rfl
      exact ⟨f.code, hstands.onTop plain_fetch h, fetch_mem hg⟩
    · cases hrun

/-- A trail along what instructions do to objects and classes, but for the making of arrays. -/
structure Track (R : Machine → Machine → Prop) : Prop extends Trail R where
  onLinker : ∀ {α : Type} {x : StateM Linker α}, Linker.Consulting x → Follows R (onLinker x)
  onSync : ∀ {α : Type} {r : Option ThreadId} {x : SyncM FrameStack α}, Sync.Doing r x →
    Sync.Gentle (fun _ => True) x → Follows R (onSync x)
  reserve : ∀ units : Nat, Follows R (reserve units)
  collectGarbage : Follows R collectGarbage
  newInstance : ∀ id : ClassId, Follows R (newInstance id)
  insertObject : ∀ (type : ClassId) {p : Payload}, (Object.ofPayload type [] p).elements? = none →
    Follows R (insertObject (Object.ofPayload type [] p))
  setField : ∀ (r : Ref) (slot : Nat) (v : Value), Follows R (updateHeap fun h => h.update r (·.setField slot v))
  intern : ∀ text : String, Follows R (stringObject text) → Follows R (internString text)
  writeElement : ∀ (array : Ref) (index : Nat) (v : Value), Follows R (writeElement array index v)

/-- A trail along all that a machine does to objects and classes, and past the frames it puts up. -/
structure Road (R : Machine → Machine → Prop) : Prop extends Track R where
  register : ∀ d : ClassDefinition, Follows R (onClasses (ClassTable.register d))
  takePendingInit : ∀ id : ClassId, Follows R (onClasses (ClassTable.takePendingInit id))
  takeUp : ∀ {m : Machine} {id : ClassId} (kinds : List Kind),
    (ClassTable.takePendingInit id m.classes).1 = some true → R m { m with
      linker := { m.linker with classes := (ClassTable.takePendingInit id m.classes).2 }
      statics := m.statics.ensure id kinds }
  setStatic : ∀ {m : Machine} {s : Statics} {id : ClassId} {slot : Nat} {v : Value},
    m.statics.set? id slot v = some s → R m { m with statics := s }
  newPrimitiveArray : ∀ kind : Kind, Follows R (newPrimitiveArray kind)
  newMultiArray : ∀ (lengths : List Int32) (id : ClassId), Follows R (newMultiArray lengths id)
  newRefArray : ∀ {m : Machine} {code : LinkedCode} {id : ClassId} (length : Int32), m.Stands code →
    .newRefArray id ∈ code.instructions → R m (final (newArray id .reference length m))
  attach : ∀ {m : Machine} {object : Ref} {o : Object} (c : Companion), m.heap.get? object = some o →
    o.payload = .none ∨ (∃ c, o.payload = .companion c) →
    R m { m with heap := m.heap.update object fun o => { o with payload := .companion c } }
  call : ∀ {m : Machine} {id : MethodId} {code : LinkedCode} (args : List Value),
    (Linker.link id m.linker).1 = .ok code → R m { m with
      linker := (Linker.link id m.linker).2
      active := Frame.ofCall id code args :: m.active }

namespace Track

theorem rules (h : Track R) : Rules t (Following R) where
  seq := h.sequel
  pure := h.pure
  onTop hx := h.onTop hx
  popFrame := h.popFrame
  orPopFrame hx := h.orPopFrame hx
  onLinker := h.onLinker
  reserve := h.reserve
  newInstance := h.newInstance
  insertObject := h.insertObject
  setField := h.setField
  intern := h.intern
  registerMirror _ _ := h.still fun _ => ⟨.of_eq rfl rfl rfl rfl, ⟨_, rfl⟩, rfl⟩
  pinning rs _ _ hx := h.pinning rs hx
  collectGarbage := h.collectGarbage
  currentThread := h.sequel.threadObject h.pure fun _ => h.updateThread t fun _ => rfl
  interrupt target := h.onScheduler fun s => (s.interrupt_wakes target).alike
  exit object := h.onSync (Sync.exit_doing (r := none) object) (Sync.exit_gentle t object)
  notify object := h.onSync (Sync.notify_doing (r := none) object) (Sync.notify_gentle t object)
  notifyAll object := h.onSync (Sync.notifyAll_doing (r := none) object) (Sync.notifyAll_gentle t object)

theorem raise (h : Track R) (className : String) (message : Option String) :
    Follows R (raise className message : MachineM β) := (h.rules (t := 1)).raise h.sequel className message

end Track

namespace Road

section Natives

theorem attachCompanion (h : Road R) (object : Ref) (c : Companion) : Follows R (attachCompanion object c) := by
  intro m
  unfold Machine.attachCompanion
  rw [bind_get]
  cases ho : m.heap.get? object with
  | none => exact h.refl m
  | some o =>
    dsimp only
    split
    · next hempty => exact h.attach c ho (.inl hempty)
    · exact h.refl m

/-- Hits are counted where there is a counter. -/
theorem bump (h : Road R) (args : List Value) : Follows R (callHost t args .bump) := by
  intro m
  unfold callHost
  dsimp only
  rw [bind_get]
  cases hhits : m.hits? (callHost.first args) with
  | none => exact h.refl m
  | some hits =>
    unfold hits? at hhits
    obtain ⟨o, ho, hhits⟩ := Option.bind_eq_some_iff.1 hhits
    obtain ⟨c, hc, _⟩ := Option.bind_eq_some_iff.1 hhits
    exact h.attach _ ho (.inr ⟨c, Object.companion?_eq_some.1 hc⟩)

theorem callHost (h : Road R) (args : List Value) (native : HostNative) : Follows R (callHost t args native) := by
  have hr : Rules t (Following R) := h.rules
  have hquick : ∀ {x : MachineM Unit} (v : Option Value), Follows R x → Follows R (x >>= fun _ => Pure.pure v) :=
    fun v hx => h.bind hx fun _ => h.pure v
  cases native with
  | void => exact h.pure _
  | const v => exact h.pure _
  | echo index => exact h.pure _
  | sum => exact h.pure _
  | trace => exact hquick _ (h.modify fun _ => .of_eq rfl rfl rfl rfl rfl rfl)
  | throw className message => exact h.raise _ _
  | fatal detail => exact h.throw _
  | string text => exact h.bind (hr.stringObject text) fun _ => h.pure _
  | strlen =>
    refine Follows.read fun m => ?_
    split <;> exact h.pure _
  | new className =>
    refine Follows.read fun m => ?_
    split
    · exact h.bind (h.newInstance _) fun _ => h.pure _
    · exact h.raise _ _
  | attach companion => exact h.bind (h.attachCompanion _ _) fun _ => h.pure _
  | hold vetoes => exact h.bind (h.attachCompanion _ _) fun _ => h.pure _
  | bump => exact h.bump args
  | peek => exact fun m => h.refl m
  | detach timeout => exact h.bind (h.onScheduler fun s => s.detach_alike t timeout) fun _ => h.pure _
  | yield => exact hquick _ (h.modify fun _ => .of_eq rfl rfl rfl rfl rfl rfl)
  | request r => exact hquick _ (h.modify fun m => .of_alike (alike_of_threads_eq rfl rfl))
  | now => exact fun m => h.refl m
  | thread => exact h.pure _
  | live => exact fun m => h.refl m
  | pin => exact hquick _ fun m => h.pin m _

end Natives

section Calls

theorem callBytecode (h : Road R) (method : Method) (args : List Value) : Follows R (callBytecode t method args) := by
  have hr : Rules t (Following R) := h.rules
  have henter : ∀ object : Ref, Follows R (enterMonitor t object) := hr.enterMonitor fun object =>
    h.onSync (Sync.enter_doing (r := some t) rfl object) (Sync.enter_gentle t trivial)
  intro m
  unfold Machine.callBytecode
  refine leads_bind (h.onLinker (Linker.consulting_link method.id) m) fun linked m₁ hlinked h₁ => ?_
  cases linked with
  | error e => exact h₁
  | ok code =>
    dsimp only
    rw [bind_get]
    split
    · exact h.trans h₁ (h.raise _ _ m₁)
    · have hcode : (Linker.link method.id m.linker).1 = .ok code := by
        injection hlinked
      have hlater : { m with linker := (Linker.link method.id m.linker).2 } = m₁ := by
        injection hlinked
      subst hlater
      refine h.trans (h.call args hcode) ?_
      have hrest : Follows R (if method.isSynchronized then do
          let object ←
            if method.isStatic then Machine.orPopFrame (mirror method.id.owner)
            else Pure.pure ((args.head?.map Value.refOrNull).getD .null)
          enterMonitor t object
        else return .next) := by
        split
        · split
          · exact h.bind (h.orPopFrame (hr.mirror _)) henter
          · exact h.bind (h.pure _) henter
        · exact h.pure _
      exact hrest _

/-- A handler goes on in a frame that was there. -/
theorem unwindFrames (h : Road R) (exception : Ref) (thrown : ClassId) (frames : FrameStack) {m₀ m : Machine}
    (hm : R m₀ m) (hframes : ∀ f ∈ frames, ∃ g ∈ m₀.active, f.code = g.code) :
    R m₀ (final (unwindFrames t exception thrown frames m)) := by
  have hr : Rules t (Following R) := h.rules
  induction frames generalizing m with
  | nil => exact hm
  | cons f rest ih =>
    have hrest := fun g hg => hframes g (List.mem_cons_of_mem f hg)
    unfold Machine.unwindFrames
    refine leads_bind (h.trans hm (hr.handlerOf thrown f m)) fun handler m₁ _ h₁ => ?_
    cases handler with
    | some handler =>
      refine h.reframe h₁ fun g hg => ?_
      rcases List.mem_cons.1 hg with rfl | hg
      · exact hframes f List.mem_cons_self
      · exact hrest g hg
    | none =>
      have h₂ : R m₀ { m₁ with active := rest } := h.reframe h₁ hrest
      show R m₀ (final ((releaseMonitor t f >>= fun _ => Machine.unwindFrames t exception thrown rest)
        { m₁ with active := rest }))
      exact leads_bind (h.trans h₂ (hr.releaseMonitor f _)) fun _ m₃ _ h₃ => ih h₃ hrest

theorem unwind (h : Road R) (exception : Ref) : Follows R (unwind t exception) := by
  intro m
  unfold Machine.unwind
  rw [bind_get]
  cases m.heap.get? exception with
  | none => exact h.refl m
  | some o => exact h.unwindFrames exception o.type m.active (h.refl m) fun f hf => ⟨f, hf, rfl⟩

theorem handleTrap (h : Road R) (trap : Trap) : Follows R (handleTrap t trap) := by
  cases trap with
  | exception exception =>
    refine h.bind (h.unwind exception) fun found => ?_
    cases found <;> exact h.pure _
  | fatal e => exact h.throw _
  | outOfFuel => exact h.throw _

theorem course (h : Road R) : Course t (Following R) (Following R) (@Following R Flow) := by
  have hr : Rules t (Following R) := h.rules
  refine hr.course h.newPrimitiveArray h.newMultiArray (hr.arrayCopy h.writeElement) h.callBytecode
    (h.onScheduler fun s => (s.takeInterrupt_wakes t).alike)
    (fun object => h.onSync (Sync.enter_doing (r := some t) rfl object) (Sync.enter_gentle t trivial))
    (fun object timeout => h.onSync (Sync.wait_doing (r := some t) rfl object timeout)
      (Sync.wait_gentle t trivial timeout))
    (fun timeout => h.onScheduler fun s => s.detach_alike t timeout)
    (fun target => h.onScheduler fun s => s.join_alike t target) (h.updateThread t fun _ => rfl)
    (h.modify fun _ => .of_eq rfl rfl rfl rfl rfl rfl)
    (h.still fun m => .of_eq rfl rfl rfl rfl rfl rfl) fun args id => Follows.read fun m => ?_
  cases m.natives.get? id with
  | none => exact h.throw _
  | some native => exact h.pinning _ (h.callHost args native)

end Calls

end Road

/-- Calls that `R` leads through. -/
structure Nested.Follows (R : Machine → Machine → Prop) (k : Nested) : Prop where
  call : ∀ method args, Machine.Follows R (k.call method args)
  enter : ∀ thread method args, Machine.Follows R (k.enter thread method args)

namespace Road

section Initialization

theorem initializeOne (h : Road R) (hk : Nested.Follows R k) (id : ClassId) : Follows R (initializeOne k t id) := by
  refine h.bind (h.onLinker (Linker.consulting_prepare id)) fun prepared => ?_
  cases prepared with
  | none => exact h.pure _
  | some c =>
    intro m
    let cleared : Linker := { m.linker with classes := (ClassTable.takePendingInit id m.classes).2 }
    have htaken : onClasses (ClassTable.takePendingInit id) m =
        .ok (ClassTable.takePendingInit id m.classes).1 { m with linker := cleared } := rfl
    dsimp only
    rw [bind_of_ok htaken]
    split
    · next hpending =>
      refine h.trans (h.takeUp c.staticKinds hpending) ?_
      cases c.staticInitializer? with
      | none => exact h.pure _ _
      | some initializer => exact h.discard (h.withParked (hk.call initializer.id [])) _ _
    · exact h.takePendingInit id m

theorem initializeAll (h : Road R) (hk : Nested.Follows R k) (ids : List ClassId) :
    Follows R (initializeAll k t ids) := by
  induction ids with
  | nil => exact h.pure _
  | cons id ids ih => exact h.bind (h.initializeOne hk id) fun _ => ih

theorem ensureInitialized (h : Road R) (hk : Nested.Follows R k) (id : ClassId) :
    Follows R (ensureInitialized k t id) := by
  refine Follows.read fun m => ?_
  split
  · exact h.bind (h.onLinker (Linker.consulting_asks (ClassTable.ancestry_asks id))) fun ids => h.initializeAll hk _
  · exact h.pure _

end Initialization

section Instructions

theorem threadStart (h : Road R) (hk : Nested.Follows R k) (object : Ref) : Follows R (threadStart k t object) := by
  have hc : Course t (Following R) (Following R) (@Following R Flow) := h.course
  unfold Machine.threadStart
  split
  · exact h.raise _ _
  · refine Follows.read fun m => ?_
    split
    · exact h.raise _ _
    · refine Follows.read fun m => h.bind (hc.selectVirtual object _) fun run =>
        h.bind (h.spawnThread object) fun started => ?_
      refine h.bind ((h.withParked (hk.enter started run [.ref object])).attempt) fun result => ?_
      cases result with
      | ok u => exact h.pure _
      | error trap =>
        cases trap with
        | exception exception => exact h.threadDied started exception
        | fatal e => exact h.throw _
        | outOfFuel => exact h.throw _

theorem invokeMethod (h : Road R) (hk : Nested.Follows R k) (method : MethodId) (args : List Value) :
    Follows R (invokeMethod k t method args) := h.course.invokeMethod (l := k) method args (h.threadStart hk)

theorem accessStatic (h : Road R) (hk : Nested.Follows R k) (i : Instruction) (hi : i.isStaticAccess = true) :
    Follows R (executeInstruction k t i) := by
  have hc : Course t (Following R) (Following R) (@Following R Flow) := h.course
  cases i with
  | getStatic owner slot kind =>
    have hget : Follows R (getStatic k t owner slot) := by
      refine h.bind (h.ensureInitialized hk owner) fun _ => Follows.read fun m => ?_
      cases m.statics.get? owner slot with
      | some v => exact h.pure v
      | none => exact h.throw _
    exact hc.pushing (y := getStatic k t owner slot) hget
  | putStatic owner slot kind =>
    refine h.bind (h.bind (h.ensureInitialized hk owner) fun _ => h.bind (h.onTop Frame.plain_pop) fun v m => ?_)
      fun _ => hc.next
    rw [bind_get]
    cases hs : m.statics.set? owner slot (v.narrowTo kind) with
    | some s => exact h.setStatic hs
    | none => exact h.refl m
  | _ => cases hi

/-- What is fetched is an instruction of a body that a frame stands in. -/
theorem executeOne (h : Road R) (hk : Nested.Follows R k) : Follows R (executeOne k t) := by
  have hc : Course t (Following R) (Following R) (@Following R Flow) := h.course
  intro m
  refine leads_bind (h.onTop plain_fetch m) fun i m₁ hfetch h₁ => h.trans h₁ ?_
  by_cases hmakes : ∃ id, i = .newRefArray id
  · obtain ⟨id, rfl⟩ := hmakes
    obtain ⟨code, hstands, hmem⟩ := of_fetched hfetch
    have hmade : R m₁ (final ((Machine.onTop Frame.popInt >>= newArray id .reference) m₁)) :=
      leads_bind (h.onTop Frame.plain_popInt m₁) fun length m₂ hpop h₂ =>
        h.trans h₂ (h.newRefArray length (hstands.onTop Frame.plain_popInt hpop) hmem)
    exact leads_bind hmade fun r m₃ _ h₃ => h.trans h₃ (h.bind (hc.push (.ref r)) (fun _ => h.pure _) m₃)
  · refine hc.executeInstruction (l := k) i (h.accessStatic hk i)
      (fun id hi => absurd ⟨id, hi⟩ hmakes) (fun kind => ?_) (h.ensureInitialized hk) (h.threadStart hk) m₁
    exact h.bind (h.onTop Frame.plain_pop) fun v => h.bind (h.onTop Frame.plain_popInt) fun index =>
      h.bind (h.onTop Frame.plain_popRef) fun array =>
        h.bind (hc.toRules.storeElement h.writeElement array index v) fun _ => h.pure _

theorem execute (h : Road R) (hk : Nested.Follows R k) (budget : Nat) : Follows R (execute k t budget) := by
  induction budget with
  | zero => exact h.pure _
  | succ budget ih =>
    refine h.bind ((h.executeOne hk).attempt) fun result => ?_
    cases result with
    | ok flow =>
      cases flow with
      | next => exact ih
      | pause => exact fun m => h.refl m
      | finished v => exact h.pure _
    | error trap =>
      refine h.bind (h.handleTrap trap) fun ended => ?_
      cases ended with
      | none => exact ih
      | some ended => exact h.pure _

end Instructions

section Slices

theorem resume (h : Road R) (hk : Nested.Follows R k) (budget : Nat) : Follows R (resume k t budget) := by
  have hrun := h.execute (t := t) hk budget
  refine h.bind (h.onSync (Sync.resume_doing (r := some t) rfl) (Sync.resume_gentle t)) fun result => ?_
  cases result with
  | error e =>
    cases e with
    | fatal e => exact h.throw _
    | monitor e => exact h.raise _ _
  | ok outcome =>
    cases outcome with
    | blocked => exact h.pure _
    | _ =>
      refine h.bind h.takeParkedInterrupt fun interrupted => ?_
      split
      · refine h.bind ((h.raise (β := Unit) CoreName.interrupted none).attempt) fun result => ?_
        cases result with
        | ok u => exact hrun
        | error trap =>
          refine h.bind (h.handleTrap trap) fun ended => ?_
          cases ended with
          | none => exact hrun
          | some ended => exact h.pure _
      · exact hrun

theorem runSlice (h : Road R) (hk : Nested.Follows R k) : Follows R (runSlice k t) := by
  refine h.bind (h.modify fun _ => .of_eq rfl rfl rfl rfl rfl rfl) fun _ =>
    Follows.read fun m => ?_
  cases m.scheduler.get? t with
  | none => exact h.pure _
  | some r => exact h.bind (h.modify (takeStack_beside t)) fun _ => h.ensuring (h.resume hk _) (saveStack_beside t)

theorem driveSlices (h : Road R) (hk : Nested.Follows R k) (method : MethodId) (fuel : Nat) :
    Follows R (driveSlices k t method fuel) := by
  induction fuel with
  | zero => exact h.throw _
  | succ fuel ih =>
    refine h.bind (h.runSlice hk) fun ended => ?_
    cases ended with
    | finished v => exact h.pure _
    | uncaught exception => exact h.throw _
    | yielded => exact ih
    | blocked => exact h.bind (h.awaitDeadline method) fun _ => ih

theorem drive (h : Road R) (hk : Nested.Follows R k) (fuel : Nat) (method : MethodId) (args : List Value) :
    Follows R (drive k fuel t method args) := by
  refine h.onFreshStack (h.bind (h.ensureInitialized hk method.owner) fun _ =>
    h.bind (h.invokeMethod hk method args) fun flow => ?_)
  have hrest : Follows R (modify (saveStack t) >>= fun _ => Machine.driveSlices k t method fuel) :=
    h.bind (h.modify (saveStack_beside t)) fun _ => h.driveSlices hk method fuel
  cases flow with
  | finished v => exact h.pure _
  | next => exact hrest
  | pause => exact hrest

theorem runSynthetic (h : Road R) (hk : Nested.Follows R k) (fuel : Nat) (method : MethodId) (args : List Value) :
    Follows R (runSynthetic k fuel method args) :=
  Follows.read fun m₀ => h.bind (h.spawnThread .null) fun thread =>
    h.bind (h.updateThread thread fun _ => rfl) fun _ =>
      h.ensuring (h.drive hk fuel method args) fun m => (removed_aside thread m₀.yieldRequested m).beside rfl rfl

theorem enterThread (h : Road R) (hk : Nested.Follows R k) (method : MethodId) (args : List Value) :
    Follows R (enterThread k t method args) := by
  refine h.onFreshStack (h.bind (h.ensureInitialized hk method.owner) fun _ =>
    h.bind (h.ensuring (h.invokeMethod hk method args) (saveStack_beside t)) fun flow => ?_)
  cases flow with
  | finished v => exact h.bind (h.onScheduler fun s => s.terminate_alike t) fun _ => h.pure _
  | next => exact h.pure _
  | pause => exact h.pure _

theorem nested (h : Road R) (fuel : Nat) : Nested.Follows R (nested fuel) := by
  induction fuel with
  | zero => exact ⟨fun _ _ => h.throw _, fun _ _ _ => h.throw _⟩
  | succ fuel ih =>
    exact ⟨fun method args => h.runSynthetic ih fuel method args,
      fun thread method args => h.enterThread ih method args⟩

theorem step (h : Road R) (fuel : Nat) : Follows R (step fuel) := by
  refine h.bind (h.onScheduler fun s => s.next_wakes.alike) fun next => ?_
  cases next with
  | none => exact h.pure _
  | some thread =>
    have hslice : Follows R (Machine.ensuring (Machine.runSlice (Machine.nested fuel) thread) fun m =>
        { m with scheduler := m.scheduler.endSlice }) :=
      h.ensuring (h.runSlice (h.nested fuel)) fun m => .of_alike (alike_of_threads_eq rfl rfl)
    refine h.bind hslice fun ended => ?_
    cases ended with
    | finished v => exact h.bind (h.onScheduler fun s => s.terminate_alike thread) fun _ => h.pure _
    | uncaught exception => exact h.bind (h.threadDied thread exception) fun _ => h.pure _
    | yielded => exact h.pure _
    | blocked => exact h.pure _

theorem runSlices (h : Road R) (fuel slices : Nat) : Follows R (runSlices fuel slices) := by
  induction slices with
  | zero => exact h.throw _
  | succ slices ih =>
    refine h.bind (h.onScheduler fun s => s.drain_wakes.alike) fun stop => ?_
    split
    · exact h.pure _
    · refine Follows.read fun m => ?_
      split
      · exact h.pure _
      · refine h.bind (h.step fuel) fun picked => ?_
        cases picked with
        | some thread => exact ih
        | none =>
          refine Follows.read fun m => ?_
          cases m.scheduler.nextDeadline? with
          | none => exact h.pure _
          | some deadline =>
            exact h.bind (h.modify fun m => .of_alike (alike_of_threads_eq rfl rfl)) fun _ => ih

end Slices

section Serving

theorem findMethod (h : Road R) (className name descriptor : String) :
    Follows R (findMethod className name descriptor) := by
  refine Follows.read fun m => ?_
  cases m.classes.lookup? className with
  | none => exact h.throw _
  | some id =>
    have hfind := Linker.consulting_asks (ClassTable.resolveMethod_asks id name descriptor)
    refine h.bind ((h.onLinker hfind).forHost) fun found => ?_
    cases found with
    | ok method => exact h.pure _
    | error e => exact h.throw _

theorem load (h : Road R) (d : ClassDefinition) : Follows R (load d) := by
  refine h.bind ((h.register d).forHost) fun result => ?_
  cases result with
  | ok id => exact h.bind ((h.onLinker (Linker.consulting_prepare id)).forHost) fun _ => h.pure _
  | error e => exact h.throw _

theorem spawn (h : Road R) (fuel : Nat) (className name descriptor : String) (args : List Value) :
    Follows R (spawn fuel className name descriptor args) := by
  refine h.bind (h.findMethod _ _ _) fun method => Follows.forHost ?_
  refine h.bind (h.spawnThread .null) fun thread => ?_
  refine h.bind (((h.nested fuel).enter thread method args).attempt) fun result => ?_
  cases result with
  | ok u => exact h.pure _
  | error trap => exact h.bind (h.onScheduler fun s => s.terminate_alike thread) fun _ => h.throw _

theorem registerNative (h : Road R) (owner name descriptor : String) (native : HostNative) :
    Follows R (registerNative owner name descriptor native) :=
  h.still fun _ => .of_eq rfl rfl rfl rfl rfl rfl

/-- Whatever a host asks for, and whatever comes of it. -/
theorem serve (h : Road R) (c : HostCall) : Follows R c.serve := by
  have hr : Rules 1 (Following R) := h.rules
  cases c with
  | load d => exact h.discard (h.load d) _
  | invoke fuel className name descriptor args =>
    exact h.discard (h.bind (h.findMethod _ _ _) fun method => ((h.nested fuel).call method args).forHost) _
  | spawn fuel className name descriptor args => exact h.discard (h.spawn fuel _ _ _ args) _
  | step fuel => exact h.discard (h.step fuel).forHost _
  | run fuel => exact h.discard (h.runSlices fuel fuel).forHost _
  | send r => exact h.modify fun m => .of_alike (alike_of_threads_eq rfl rfl)
  | attach t => exact h.modify fun m => .of_alike (m.scheduler.attach_wakes t).alike
  | interrupt t => exact h.modify fun m => .of_alike (m.scheduler.interrupt_wakes t).alike
  | advance millis => exact h.modify fun m => .of_alike (alike_of_threads_eq rfl rfl)
  | newString text => exact h.discard (Follows.forHost (hr.stringObject text)) _
  | collect => exact h.discard (Follows.forHost hr.collectGarbage) _

theorem announced (h : Road R) (act : HostAct) (m : Machine) : R m (HostAct.leaving (act.announced .silent) m) := by
  rw [leaving_eq_final]
  cases act with
  | offer owner name descriptor native => exact h.discard (h.registerNative owner name descriptor native) () m
  | call c =>
    rw [HostAct.announced, HostCall.announced_silent]
    exact h.serve c m

/-- Whatever a host does, one thing after the other. -/
theorem performed (h : Road R) (acts : List HostAct) (m : Machine) : R m (HostAct.performed .silent acts m) := by
  induction acts generalizing m with
  | nil => exact h.refl m
  | cons act acts ih => exact h.trans (h.announced act m) (ih _)

end Serving

end Road

end ClassMachine.Machine
