import ClassMachine.Proofs.Machine.ArrayWrites
import ClassMachine.Proofs.Machine.ClosedRun
import ClassMachine.Proofs.Machine.StaticRuns

/-!
Arrays in whole runs. A store compares an object to the class of the elements only if the object is live, so
arrays stay as their classes allow in machines without dangling references, whatever such a machine runs.
-/
namespace ClassMachine.Machine
open Stateful ClassTable

variable {α β : Type} {t : ThreadId} {k : Nested} {pins : Pins} {m : Machine}

section Courses

/-- The frame of a call stands in a body that was linked just before. -/
theorem callBytecode_maintains (method : Method) (args : List Value) : Maintaining (callBytecode t method args) := by
  have hr : Rules t Maintained := rules_maintained
  have henter : ∀ object : Ref, Maintaining (enterMonitor t object) :=
    hr.enterMonitor fun object => .onSync (Sync.enter_gentle t trivial)
  intro m hm
  let m₁ : Machine := { m with linker := (Linker.link method.id m.linker).2 }
  have h₁ : Maintains m m₁ := (Maintaining.onLinker (Linker.consulting_link method.id) m hm).of_ok rfl
  have hbody := (Linker.link_bodies lasting_grounded method.id hm.moored hm.grounded).2
  unfold callBytecode
  rw [bind_of_ok (show Machine.onLinker (Linker.link method.id) m = .ok (Linker.link method.id m.linker).1 m₁ from rfl)]
  cases hlinked : (Linker.link method.id m.linker).1 with
  | error e => exact h₁
  | ok code =>
    dsimp only
    rw [bind_get]
    split
    · exact (raise_maintains h₁.furnished _ _).mono (fun _ _ h => h) fun _ _ h => h₁.trans h
    · let m₂ : Machine := { m₁ with active := Frame.ofCall method.id code args :: m₁.active }
      have h₂ : Maintains m m₂ := by
        refine h₁.trans (.reframe h₁.furnished fun f hf => ?_)
        rcases List.mem_cons.1 hf with rfl | hf
        · exact hbody code hlinked
        · exact h₁.furnished.bodies _ (.running hf rfl)
      have hrest : Maintaining (if method.isSynchronized then do
          let object ←
            if method.isStatic then orPopFrame (mirror method.id.owner)
            else Pure.pure ((args.head?.map Value.refOrNull).getD .null)
          enterMonitor t object
        else return .next) := by
        split
        · split
          · exact Maintaining.bind (hr.orPopFrame (hr.mirror _)) henter
          · exact (Maintaining.pure _).bind henter
        · exact .pure _
      exact (hrest m₂ h₂.furnished).mono (fun _ _ h => h₂.trans h) fun _ _ h => h₂.trans h

/-- Natives of the host there are none. -/
theorem course_maintained : Course t Maintained Maintained (@Maintained Flow) := by
  have hr : Rules t Maintained := rules_maintained
  have hmulti : ∀ (lengths : List Int32) (id : ClassId), Maintaining (newMultiArray lengths id) := fun lengths id m hm =>
    (newMultiArray_maintains lengths id hm).mono (fun _ _ h => h.1) fun _ _ h => h
  refine hr.course newPrimitiveArray_maintains hmulti arrayCopy_maintains callBytecode_maintains
    (.onScheduler fun s => (s.takeInterrupt_wakes t).alike)
    (fun object => .onSync (Sync.enter_gentle t trivial))
    (fun object timeout => .onSync (Sync.wait_gentle t trivial timeout))
    (fun timeout => .onScheduler fun s => s.detach_alike t timeout)
    (fun target => .onScheduler fun s => s.join_alike t target) (.updateThread t fun _ => rfl)
    (.of_aside fun m => ⟨.of_eq rfl rfl rfl rfl, rfl, .refl _⟩)
    (.of_aside fun m => ⟨.of_eq rfl rfl rfl rfl, rfl, .refl _⟩) ?_
  intro args id m hm
  unfold runHost
  rw [bind_get, hm.hostless id]
  exact .refl hm

/-- A handler goes on in a frame that was there. -/
theorem unwindFrames_maintains (exception : Ref) (thrown : ClassId) (frames : FrameStack) (hm : Furnished m)
    (hframes : ∀ f ∈ frames, f.code.Grounded m.classes) :
    Ends (unwindFrames t exception thrown frames m) (fun _ m' => Maintains m m') fun _ m' => Maintains m m' := by
  have hr : Rules t Maintained := rules_maintained
  induction frames generalizing m with
  | nil => exact .refl hm
  | cons f rest ih =>
    unfold unwindFrames
    refine Ends.bind (E := fun (_ : Trap) m' => Maintains m m') (hr.handlerOf thrown f m hm) fun handler m₁ h₁ => ?_
    have hlater : ∀ g ∈ f :: rest, g.code.Grounded m₁.classes := fun g hg =>
      lasting_grounded.code (hframes g hg) h₁.precedes
    have hrest : ∀ g ∈ rest, g.code.Grounded m₁.classes := fun g hg => hlater g (List.mem_cons_of_mem _ hg)
    cases handler with
    | some handler =>
      refine h₁.trans (.reframe h₁.furnished fun g hg => ?_)
      rcases List.mem_cons.1 hg with rfl | hg
      · exact hlater f List.mem_cons_self
      · exact hrest g hg
    | none =>
      have h₂ : Maintains m { m₁ with active := rest } := h₁.trans (.reframe h₁.furnished hrest)
      show Ends ((releaseMonitor t f >>= fun _ => unwindFrames t exception thrown rest)
        { m₁ with active := rest }) _ _
      have hreleased : Ends (releaseMonitor t f { m₁ with active := rest })
          (fun _ m' => Maintains { m₁ with active := rest } m') fun _ m' => Maintains m m' :=
        (hr.releaseMonitor f _ h₂.furnished).mono (fun _ _ h => h) fun _ _ h => h₂.trans h
      refine hreleased.bind fun _ m₃ h₃ => ?_
      have h := h₂.trans h₃
      exact (ih h.furnished fun g hg => lasting_grounded.code (hrest g hg) h₃.precedes).mono
        (fun _ _ h' => h.trans h') fun _ _ h' => h.trans h'

theorem unwind_maintains (exception : Ref) : Maintaining (unwind t exception) := by
  intro m hm
  unfold unwind
  rw [bind_get]
  cases m.heap.get? exception with
  | none => exact .refl hm
  | some o => exact unwindFrames_maintains exception o.type m.active hm fun f hf => hm.bodies _ (.running hf rfl)

theorem handleTrap_maintains (trap : Trap) : Maintaining (handleTrap t trap) := by
  cases trap with
  | exception exception =>
    refine (unwind_maintains exception).bind fun found => ?_
    cases found <;> exact .pure _
  | fatal e => exact .throw _
  | outOfFuel => exact .throw _

theorem threadDied_maintains (thread : ThreadId) (exception : Ref) : Maintaining (threadDied thread exception) := by
  refine .of_aside fun m => ?_
  unfold threadDied
  rw [bind_get]
  cases m.config.uncaught with
  | terminateThread => exact ⟨ended_aside thread _ m, rfl, .refl _⟩
  | abort => exact ⟨ended_aside thread _ m, rfl, .refl _⟩

end Courses

section Stacks

theorem saveStack_maintains (hm : Furnished m) : Maintains m (saveStack t m) :=
  .of_aside hm (saveStack_aside t m) rfl (.refl _)

theorem takeStack_maintains (hm : Furnished m) : Maintains m (takeStack t m) := by
  refine .of_aside hm (takeStack_aside t m) ?_ ?_
  all_goals
    unfold takeStack
    split
  · rfl
  · rfl
  · exact .refl _
  · exact .refl _

theorem swapStack_maintains (hm : Furnished m) : Maintains m (swapStack t m) := by
  refine .of_aside hm (swapStack_aside t m) ?_ ?_
  all_goals
    unfold swapStack
    split
  · rfl
  · rfl
  · exact .refl _
  · exact .refl _

theorem spawnThread_maintains (object : Ref) : Maintaining (spawnThread object) := by
  intro m hm
  unfold spawnThread
  split
  · exact .refl hm
  · exact .of_aside hm (spawned_aside object m) rfl (.refl _)

end Stacks

section Upkeep

/-- Run on `m`, `x` leaves arrays as their classes allow. -/
abbrev Upkeep (m : Machine) (x : MachineM α) : Prop :=
  Ends (x m) (fun _ m' => Maintains m m') fun _ m' => Maintains m m'

variable {x : MachineM α} {f : α → MachineM β}

theorem Upkeep.bind {Q : α → Machine → Prop} {E : Trap → Machine → Prop} (hx : Upkeep m x) (hq : Ends (x m) Q E)
    (hf : ∀ a m', Q a m' → Furnished m' → Upkeep m' (f a)) : Upkeep m (x >>= f) := by
  unfold Upkeep
  cases hr : x m with
  | ok a m' =>
    have h := hx.of_ok hr
    rw [bind_of_ok hr]
    exact (hf a m' (hq.of_ok hr) h.furnished).mono (fun _ _ h' => h.trans h') fun _ _ h' => h.trans h'
  | error e m' =>
    rw [bind_of_error hr]
    exact hx.of_error hr

theorem Upkeep.then (hx : Upkeep m x) (hf : ∀ a, Maintaining (f a)) : Upkeep m (x >>= f) :=
  hx.bind (Q := fun _ _ => True) (E := fun _ _ => True) (hx.mono (fun _ _ _ => trivial) fun _ _ _ => trivial)
    fun a m' _ hm' => hf a m' hm'

theorem Upkeep.ensuring {after : Machine → Machine} (hx : Upkeep m x)
    (hafter : ∀ m', Furnished m' → Maintains m' (after m')) : Upkeep m (ensuring x after) := by
  unfold Upkeep Machine.ensuring
  cases hr : x m with
  | ok a m' => exact (hx.of_ok hr).trans (hafter m' (hx.of_ok hr).furnished)
  | error e m' => exact (hx.of_error hr).trans (hafter m' (hx.of_error hr).furnished)

/-- What comes of `x` is looked at, and may be passed on. -/
theorem Upkeep.attempt {g : Except Trap α → MachineM β} {Q : α → Machine → Prop} {E : Trap → Machine → Prop}
    (hx : Upkeep m x) (hq : Ends (x m) Q E)
    (hg : ∀ result m', Attempted Q E result m' → Furnished m' → Upkeep m' (g result)) :
    Upkeep m (Machine.attempt x >>= g) := by
  have hends : Ends (Machine.attempt x m) (fun _ m' => Maintains m m') fun _ m' => Maintains m m' :=
    (attempt_ends (F := fun _ m' => Maintains m m') hx).mono (fun result _ h => by cases result <;> exact h)
      fun _ _ h => h
  exact Upkeep.bind hends (attempt_ends (F := fun _ _ => True) hq) hg

/-- The frames of a thread are in its record while `x` runs. -/
theorem withParked_upkeep (hm : Furnished m) (hx : Furnished (swapStack t m) → Upkeep (swapStack t m) x) :
    Upkeep m (withParked t x) := by
  have h₁ : Maintains m (swapStack t m) := swapStack_maintains hm
  have hparked := Upkeep.ensuring (hx h₁.furnished) fun _ => swapStack_maintains (t := t)
  unfold withParked Upkeep
  rw [bind_modify]
  exact hparked.mono (fun _ _ h => h₁.trans h) fun _ _ h => h₁.trans h

/-- The frames that come back were there before. -/
theorem onFreshStack_upkeep (hactive : m.active = []) (hx : Upkeep m x) :
    Upkeep m (onFreshStack x) := by
  have hsame : ({ m with active := [] } : Machine) = m := by
    rw [← hactive]
  show Ends (Machine.ensuring x (fun n => { n with active := m.active }) { m with active := [] }) _ _
  rw [hsame]
  refine Upkeep.ensuring hx fun m' hm' => .reframe hm' fun f hf => ?_
  rw [hactive] at hf
  cases hf

end Upkeep

/-- Calls that leave arrays as their classes allow, on machines without dangling references. -/
structure Furnishing (k : Nested) : Prop where
  settled : Settled k
  call : ∀ pins method m, Tidy pins m → m.active = [] → Furnished m → Upkeep m (k.call method [])
  enter : ∀ pins thread method object r m, Tidy pins m → m.active = [] →
    m.scheduler.get? thread = some r → r.stack = [] → r.object = object → object.isNull = false → Furnished m →
    Upkeep m (k.enter thread method [.ref object])

section Initialization

theorem initializeOne_upkeep (hk : Furnishing k) (hm : Tended t pins m) (hf : Furnished m) (id : ClassId) :
    Upkeep m (initializeOne k t id) := by
  unfold initializeOne
  refine Upkeep.bind (Maintaining.onLinker (Linker.consulting_prepare id) m hf) (onLinker_tended hm _)
    fun found m₁ ⟨h₁, _⟩ hf₁ => ?_
  cases found with
  | none => exact .refl hf₁
  | some c =>
    let m₂ : Machine := { m₁ with linker := { m₁.linker with classes := (takePendingInit id m₁.classes).2 } }
    have h₂ : Maintains m₁ m₂ := .relink hf₁ (retains_takePendingInit id _) (takePendingInit_precedes id _)
      (hf₁.grounded.takePendingInit lasting_grounded id)
    refine Upkeep.bind (show Upkeep m₁ (onClasses (takePendingInit id)) from h₂) (onClasses_tended h₁ _)
      fun taken m₃ ⟨h₃, _⟩ hf₃ => ?_
    split
    · unfold Upkeep
      rw [bind_modify]
      have hstatics := Maintains.restatic hf₃ (m₃.statics.ensure id c.staticKinds)
      have h₄ := h₃.of_statics (ensure_within h₃.tidy.closed.statics id c.staticKinds)
      cases c.staticInitializer? with
      | none => exact hstatics
      | some initializer =>
        have hparked := withParked_upkeep hstatics.furnished fun hswapped =>
          hk.call pins initializer.id _ (h₄.tidy.swapStack t) h₄.active_swapStack hswapped
        exact (hparked.then fun _ => .pure _).mono (fun _ _ h => hstatics.trans h) fun _ _ h => hstatics.trans h
    · exact .refl hf₃

theorem initializeAll_upkeep (hk : Furnishing k) (ids : List ClassId) (hm : Tended t pins m) (hf : Furnished m) :
    Upkeep m (initializeAll k t ids) := by
  induction ids generalizing m with
  | nil => exact .refl hf
  | cons id rest ih =>
    exact (initializeOne_upkeep hk hm hf id).bind (initializeOne_tended hk.settled hm id) fun _ m₁ h₁ hf₁ => ih h₁ hf₁

theorem ensureInitialized_upkeep (hk : Furnishing k) (hm : Tended t pins m) (hf : Furnished m) (id : ClassId) :
    Upkeep m (ensureInitialized k t id) := by
  unfold ensureInitialized Upkeep
  rw [bind_get]
  split
  · exact Upkeep.bind (Maintaining.onLinker (Linker.consulting_asks (ancestry_asks id)) m hf) (onClasses_tended hm _)
      fun ids m₁ ⟨h₁, _⟩ hf₁ => initializeAll_upkeep hk _ h₁ hf₁
  · exact .refl hf

end Initialization

section Calls

variable {args : List Value}

theorem threadStart_upkeep (hk : Furnishing k) (hm : Tended t pins m) (hf : Furnished m) {object : Ref}
    (ho : m.heap.Names object) : Upkeep m (threadStart k t object) := by
  unfold threadStart
  split
  · exact raise_maintains hf _ _
  · next hnull =>
    unfold Upkeep
    rw [bind_get]
    split
    · exact raise_maintains hf _ _
    · rw [bind_get]
      have hselect := course_maintained.selectVirtual (t := t) object m.core.run m hf
      refine Upkeep.bind hselect (selectVirtual_steady object _ pins m hm) fun run m₁ hrun hf₁ => ?_
      obtain ⟨h₁, hn₁⟩ := hrun
      have hspawn := spawnThread_maintains object m₁ hf₁
      unfold Upkeep
      cases hs : spawnThread object m₁ with
      | error e m₂ =>
        rw [bind_of_error hs]
        exact hspawn.of_error hs
      | ok started m₂ =>
        rw [bind_of_ok hs]
        have hf₂ := hspawn.of_ok hs
        obtain ⟨h₂, _, r, hrecord, hstack, hobject⟩ := h₁.started (hn₁ object ho) hs
        have hparked := withParked_upkeep hf₂.furnished fun hswapped =>
          hk.enter pins started run object r _ (h₂.tidy.swapStack t) h₂.active_swapStack hrecord
            hstack hobject (by simpa using hnull) hswapped
        have hany : Ends (withParked t (k.enter started run [.ref object]) m₂) (fun _ _ => True) fun _ _ => True :=
          hparked.mono (fun _ _ _ => trivial) fun _ _ _ => trivial
        refine Ends.mono (hparked.attempt hany fun result m₃ _ hf₃ => ?_) (fun _ _ h => hf₂.trans h)
          fun _ _ h => hf₂.trans h
        cases result with
        | ok u => exact .refl hf₃
        | error trap =>
          cases trap with
          | exception exception => exact threadDied_maintains started exception m₃ hf₃
          | fatal e => exact .refl hf₃
          | outOfFuel => exact .refl hf₃

theorem runNative_upkeep (hk : Furnishing k) (hm : Tended t pins m) (hf : Furnished m)
    (hargs : ∀ v ∈ args, v.Within m.heap.Names) (method : Method) (binding : NativeBinding) :
    Upkeep m (runNative k t method args binding) := by
  have hc : Course t Maintained Maintained (@Maintained Flow) := course_maintained
  by_cases hstart : binding = .builtin .threadStart
  · subst hstart
    refine Upkeep.bind (hc.refArgument args 0 m hf) (refArgument_ends (P := fun _ => True) trivial hargs 0)
      fun object m₁ h₁ hf₁ => ?_
    obtain ⟨rfl, ho⟩ := h₁
    exact (threadStart_upkeep hk hm hf ho).then fun _ => .pure _
  · exact hc.runNative (k := k) (l := k) method args binding (fun h => absurd h hstart) m hf

theorem callNative_upkeep (hk : Furnishing k) (hm : Tended t pins m) (hf : Furnished m)
    (hargs : ∀ v ∈ args, v.Within m.heap.Names) (method : Method) : Upkeep m (callNative k t method args) := by
  have hr : Rules t Maintained := rules_maintained
  have hfinish : ∀ result, Maintaining (finishNative t result) := by
    intro result
    refine Maintaining.bind (.of_aside fun m => ⟨.of_eq rfl rfl rfl rfl, rfl, .refl _⟩) fun paused => ?_
    exact Maintaining.bind (hr.deliver result) fun flow => by cases flow <;> exact .pure _
  unfold callNative Upkeep
  rw [bind_get]
  refine Upkeep.bind (Maintaining.onLinker (Linker.consulting_bindNative _ method.id) m hf) (onLinker_tended hm _)
    fun binding m₁ ⟨h₁, hheap⟩ hf₁ => ?_
  exact (runNative_upkeep hk h₁ hf₁ (hheap ▸ hargs) method (binding.getD .unbound)).then hfinish

theorem invokeMethod_upkeep (hk : Furnishing k) (hm : Tended t pins m) (hf : Furnished m)
    (hargs : ∀ v ∈ args, v.Within m.heap.Names) (method : MethodId) : Upkeep m (invokeMethod k t method args) := by
  unfold invokeMethod Upkeep
  rw [bind_get]
  cases m.classes.method? method with
  | none => exact .refl hf
  | some found =>
    dsimp only
    cases found.body with
    | abstract => exact raise_maintains hf _ _
    | native binding => exact callNative_upkeep hk hm hf hargs found
    | bytecode raw linked => exact callBytecode_maintains found args m hf

end Calls

section Instructions

theorem executeInstruction_upkeep (hk : Furnishing k) (hm : Tended t pins m) (hf : Furnished m) (i : Instruction)
    (hi : i.Grounded m.classes) : Upkeep m (executeInstruction k t i) := by
  have hc : Course t Maintained Maintained (@Maintained Flow) := course_maintained
  have hinit := ensureInitialized_upkeep hk hm hf
  have hpush : ∀ {x : MachineM Value} {m : Machine}, Upkeep m x → Upkeep m (pushing x) := fun hx =>
    hx.then fun v => (hc.push v).bind fun _ => .pure _
  have hpushRef : ∀ {x : MachineM Ref} {m : Machine}, Upkeep m x → Upkeep m (pushingRef x) := fun hx =>
    hx.then fun r => (hc.push (.ref r)).bind fun _ => .pure _
  have hpopN : ∀ {m : Machine} (n : Nat), Furnished m → Upkeep m (onTop (Frame.popN n)) := fun n hf =>
    Maintaining.onTop (Frame.plain_popN n) _ hf
  have hvirtual : ∀ signature params, Upkeep m (invokeVirtual k t signature params) := by
    intro signature params
    refine (hpopN _ hf).bind (popArgs_tended hm _) fun args m₁ ⟨h₁, hargs⟩ hf₁ => ?_
    refine Upkeep.bind (hc.selectVirtual _ signature m₁ hf₁) (selectVirtual_steady _ signature pins m₁ h₁)
      fun method m₂ ⟨h₂, hn₂⟩ hf₂ => ?_
    exact invokeMethod_upkeep hk h₂ hf₂ (fun v hv => (hargs v hv).mono hn₂) method
  cases i with
  | newRefArray id =>
    refine hpushRef (Upkeep.bind (Maintaining.onTop Frame.plain_popInt m hf)
      (Maintaining.onTop Frame.plain_popInt m hf) fun length m₁ h₁ hf₁ => ?_)
    exact (newArray_maintains hf₁ (h₁.known hi) .reference length).mono (fun _ _ h => h.1) fun _ _ h => h
  | arrayStore kind =>
    refine Upkeep.bind (Maintaining.onTop Frame.plain_pop m hf) (onTop_tended hm draws_pop)
      fun v m₁ ⟨h₁, heap₁, hv⟩ hf₁ => ?_
    refine Upkeep.bind (Maintaining.onTop Frame.plain_popInt m₁ hf₁) (onTop_tended h₁ draws_popInt)
      fun index m₂ ⟨h₂, heap₂, _⟩ hf₂ => ?_
    refine Upkeep.bind (Maintaining.onTop Frame.plain_popRef m₂ hf₂) (onTop_tended h₂ draws_popRef)
      fun array m₃ ⟨_, heap₃, _⟩ hf₃ => ?_
    rw [← heap₁, ← heap₂, ← heap₃] at hv
    exact Upkeep.then (storeElement_maintains hf₃ array index hv) fun _ => .pure _
  | getStatic owner slot kind =>
    refine hpush ((hinit owner).then fun _ => .read fun m => ?_)
    cases m.statics.get? owner slot with
    | some v => exact .pure v
    | none => exact .throw _
  | putStatic owner slot kind =>
    refine Upkeep.then ((hinit owner).then fun _ => (Maintaining.onTop Frame.plain_pop).bind fun v => .read fun m => ?_)
      fun _ => .pure _
    cases m.statics.set? owner slot (v.narrowTo kind) with
    | some s => exact .modify fun m hm => .restatic hm s
    | none => exact .throw _
  | new id => exact hpushRef ((hinit id).then fun _ => hc.newInstance id)
  | invokeStatic method site =>
    refine (hinit method.owner).bind (ensureInitialized_tended hk.settled hm method.owner) fun _ m₁ h₁ hf₁ => ?_
    refine (hpopN _ hf₁).bind (popArgs_tended h₁ _) fun args m₂ ⟨h₂, hargs⟩ hf₂ => ?_
    exact invokeMethod_upkeep hk h₂ hf₂ hargs method
  | invokeSpecial method site =>
    refine (hpopN _ hf).bind (popArgs_tended hm _) fun args m₁ ⟨h₁, hargs⟩ hf₁ => ?_
    split
    · exact raise_maintains hf₁ _ _
    · exact invokeMethod_upkeep hk h₁ hf₁ hargs method
  | invokeVirtual signature site => exact hvirtual signature site.params.length
  | invokeInterface signature site => exact hvirtual signature site.params.length
  | invokeVoidNoArgs signature => exact hvirtual signature 0
  | _ => exact hc.executePlain (k := k) (l := k) _ rfl m hf

/-- What is fetched is an instruction of a body, and makes arrays of classes that are there. -/
theorem executeOne_upkeep (hk : Furnishing k) (hm : Tended t pins m) (hf : Furnished m) :
    Upkeep m (executeOne k t) := by
  have hfetch : Ends (onTop fetch m) (fun i m₁ => Tended t pins m₁ ∧ i.Grounded m₁.classes)
      (Trapped (Tended t pins)) := by
    have hends := onTop_tended hm (draws_fetch (S := m.heap.Names))
    cases hrun : onTop fetch m with
    | error e m₁ => exact hends.of_error hrun
    | ok i m₁ =>
      refine ⟨(hends.of_ok hrun).1, ?_⟩
      unfold onTop at hrun
      split at hrun
      · cases hrun
      · next f rest hactive =>
        split at hrun
        · next i' g hfetched =>
          cases hrun
          exact hf.bodies f.code (.running (hactive ▸ List.mem_cons_self) rfl) i (fetch_mem hfetched)
        · cases hrun
  exact Upkeep.bind (Maintaining.onTop plain_fetch m hf) hfetch fun i m₁ ⟨h₁, hi⟩ hf₁ =>
    executeInstruction_upkeep hk h₁ hf₁ i hi

end Instructions

section Slices

theorem execute_upkeep (hk : Furnishing k) (budget : Nat) (hm : Tended t pins m) (hf : Furnished m) :
    Upkeep m (execute k t budget) := by
  induction budget generalizing m with
  | zero => exact .refl hf
  | succ budget ih =>
    unfold execute
    refine (executeOne_upkeep hk hm hf).attempt (executeOne_tended hk.settled hm) fun result m₁ h₁ hf₁ => ?_
    cases result with
    | ok flow =>
      cases flow with
      | next => exact ih h₁ hf₁
      | pause => exact .refl hf₁
      | finished v => exact .refl hf₁
    | error trap =>
      refine Upkeep.bind (handleTrap_maintains trap m₁ hf₁) (handleTrap_tended h₁) fun ended m₂ h₂ hf₂ => ?_
      cases ended with
      | some ended => exact .refl hf₂
      | none => exact ih h₂.1 hf₂

theorem takeParkedInterrupt_maintains : Maintaining (takeParkedInterrupt t) := by
  unfold takeParkedInterrupt
  refine .read fun m => ?_
  split
  · split
    · exact (Maintaining.updateThread t (f := fun u => { u with interruptible := false, interrupted := false })
        fun _ => rfl).bind fun _ => .pure _
    · exact .pure _
  · exact .pure _

theorem resume_upkeep (hk : Furnishing k) (budget : Nat) (hm : Tended t pins m) (hf : Furnished m) :
    Upkeep m (resume k t budget) := by
  unfold resume
  refine Upkeep.bind (Maintaining.onSync (Sync.resume_gentle t) m hf) (onSync_tended hm (Sync.resume_gentle t))
    fun result m₁ ⟨h₁, _⟩ hf₁ => ?_
  cases result with
  | error e =>
    cases e with
    | fatal e => exact .refl hf₁
    | monitor e => exact raise_maintains hf₁ _ _
  | ok outcome =>
    cases outcome with
    | blocked => exact .refl hf₁
    | _ =>
      refine Upkeep.bind (takeParkedInterrupt_maintains m₁ hf₁) (takeParkedInterrupt_steady t pins m₁ h₁)
        fun interrupted m₂ ⟨h₂, _⟩ hf₂ => ?_
      cases interrupted with
      | false => exact execute_upkeep hk budget h₂ hf₂
      | true =>
        refine Upkeep.attempt (raise_maintains hf₂ _ _) (raise_tended (Q := fun _ _ => False) h₂ _ _)
          fun result m₃ h₃ hf₃ => ?_
        cases result with
        | ok u => exact h₃.elim
        | error trap =>
          refine Upkeep.bind (handleTrap_maintains trap m₃ hf₃) (handleTrap_tended h₃) fun ended m₄ h₄ hf₄ => ?_
          cases ended with
          | some ended => exact .refl hf₄
          | none => exact execute_upkeep hk budget h₄.1 hf₄

theorem runSlice_upkeep (hk : Furnishing k) (hm : Tidy pins m) (hf : Furnished m) : Upkeep m (runSlice k t) := by
  let m₁ : Machine := { m with yieldRequested := false }
  have htidy : Tidy pins m₁ := hm.refit m.linker false m.uncaught
  have h₁ : Maintains m m₁ := .of_aside hf (.of_eq rfl rfl rfl rfl) rfl (.refl _)
  unfold runSlice Upkeep
  rw [bind_modify, bind_get]
  cases hr : m.scheduler.get? t with
  | none => exact h₁
  | some r =>
    dsimp only
    rw [bind_modify]
    have h₂ : Maintains m (takeStack t m₁) := h₁.trans (takeStack_maintains h₁.furnished)
    have hresumed := (resume_upkeep hk m.config.sliceCycles.toNat (htidy.takeStack hr) h₂.furnished).ensuring
      fun _ => saveStack_maintains (t := t)
    exact hresumed.mono (fun _ _ h => h₂.trans h) fun _ _ h => h₂.trans h

theorem awaitDeadline_maintains (method : MethodId) : Maintaining (awaitDeadline t method) := by
  refine .read fun m => ?_
  cases (m.scheduler.get? t).map (·.state) with
  | none => exact .throw _
  | some state =>
    cases state with
    | ready => exact .pure _
    | detached => exact .throw _
    | terminated => exact .throw _
    | detachedUntil deadline => exact .modify fun m hm => .of_aside hm (idled_aside deadline m) rfl (.refl _)

theorem driveSlices_upkeep (hk : Furnishing k) (method : MethodId) (fuel : Nat) (hm : Tidy pins m)
    (hf : Furnished m) : Upkeep m (driveSlices k t method fuel) := by
  induction fuel generalizing m with
  | zero => exact .refl hf
  | succ fuel ih =>
    unfold driveSlices
    refine (runSlice_upkeep hk hm hf).bind (runSlice_tidy hk.settled hm) fun ended m₁ hended hf₁ => ?_
    obtain ⟨h₁, _⟩ := hended
    cases ended with
    | finished v => exact .refl hf₁
    | uncaught exception => exact .refl hf₁
    | yielded => exact ih h₁ hf₁
    | blocked =>
      exact Upkeep.bind (awaitDeadline_maintains method m₁ hf₁) (awaitDeadline_tidy h₁ method)
        fun _ m₂ h₂ hf₂ => ih h₂ hf₂

theorem drive_upkeep (hk : Furnishing k) (fuel : Nat) (method : MethodId) {args : List Value}
    (hactive : m.active = []) (hm : Tended t pins m) (hf : Furnished m) (hargs : Handed k t method args m) :
    Upkeep m (drive k fuel t method args) := by
  unfold drive
  refine onFreshStack_upkeep hactive ?_
  refine (ensureInitialized_upkeep hk hm hf method.owner).bind (hargs.initialized hk.settled hm)
    fun _ m₁ ⟨h₁, hargs₁⟩ hf₁ => ?_
  refine (invokeMethod_upkeep hk h₁ hf₁ hargs₁ method).bind (invokeMethod_tended hk.settled h₁ hargs₁ method)
    fun flow m₂ h₂ hf₂ => ?_
  have hgoOn : Upkeep m₂ (modify (saveStack t) >>= fun _ => driveSlices k t method fuel) := by
    have hsaved := saveStack_maintains (t := t) hf₂
    unfold Upkeep
    rw [bind_modify]
    exact (driveSlices_upkeep hk method fuel h₂.tidy.saveStack hsaved.furnished).mono (fun _ _ h => hsaved.trans h)
      fun _ _ h => hsaved.trans h
  cases flow with
  | finished v => exact .refl hf₂
  | next => exact hgoOn
  | pause => exact hgoOn

/-- A thread that is borrowed has no frames yet. -/
theorem borrowing_maintains (hf : Furnished m) : Maintains m { m with scheduler := borrowing m.scheduler } := by
  refine .of_aside hf (.of_threads (s := borrowing m.scheduler) (fun u r hr f hf => ?_) (fun _ hf => .inl hf)
    rfl rfl rfl rfl) rfl (.refl _)
  rw [get?_borrowing] at hr
  split at hr
  · cases hr
    cases hf
  · exact .inr ⟨u, r, hr, hf⟩

theorem runSynthetic_upkeep (hk : Furnishing k) (fuel : Nat) (method : MethodId) {args : List Value}
    (hm : Tidy pins m) (hactive : m.active = []) (hf : Furnished m)
    (hargs : Handed k m.scheduler.nextId method args { m with scheduler := borrowing m.scheduler }) :
    Upkeep m (runSynthetic k fuel method args) := by
  unfold Upkeep
  rw [runSynthetic_eq]
  split
  · exact .refl hf
  · next hid =>
    have h₁ := borrowing_maintains hf
    have hdriven := (drive_upkeep (m := { m with scheduler := borrowing m.scheduler }) hk fuel method hactive
      (hm.borrowing hid) h₁.furnished hargs).ensuring fun m' hm' =>
        Maintains.of_aside hm' (removed_aside m.scheduler.nextId m.yieldRequested m') rfl (.refl _)
    exact hdriven.mono (fun _ _ h => h₁.trans h) fun _ _ h => h₁.trans h

theorem enterThread_upkeep (hk : Furnishing k) (method : MethodId) {args : List Value} (hm : Tended t pins m)
    (hactive : m.active = []) (hf : Furnished m) (hargs : Handed k t method args m) :
    Upkeep m (enterThread k t method args) := by
  unfold enterThread
  refine onFreshStack_upkeep hactive ?_
  refine (ensureInitialized_upkeep hk hm hf method.owner).bind (hargs.initialized hk.settled hm)
    fun _ m₁ ⟨h₁, hargs₁⟩ hf₁ => ?_
  refine ((invokeMethod_upkeep hk h₁ hf₁ hargs₁ method).ensuring fun _ => saveStack_maintains (t := t)).then
    fun flow => ?_
  cases flow with
  | finished v => exact (Maintaining.onScheduler fun s => s.terminate_alike t).bind fun _ => .pure _
  | next => exact .pure _
  | pause => exact .pure _

theorem nested_furnishing (fuel : Nat) : Furnishing (nested fuel) := by
  induction fuel with
  | zero => exact ⟨nested_settled 0, fun _ _ _ _ _ hf => .refl hf, fun _ _ _ _ _ _ _ _ _ _ _ _ hf => .refl hf⟩
  | succ fuel ih =>
    refine ⟨nested_settled (fuel + 1), fun pins method m hm hactive hf => ?_, ?_⟩
    · exact runSynthetic_upkeep ih fuel method hm hactive hf (handed_nil _ _ _ _)
    · intro pins thread method object r m hm hactive hr hstack hobject hnull hf
      have hrun : Tended thread pins m := ⟨hm, r, hr, hstack⟩
      exact enterThread_upkeep ih method hrun hactive hf (handed_object ih.settled method hrun hr hobject hnull)

theorem step_upkeep (fuel : Nat) (hm : Tidy pins m) (hf : Furnished m) : Upkeep m (step fuel) := by
  unfold step
  refine Upkeep.bind (Maintaining.onScheduler (fun s => s.next_wakes.alike) m hf)
    (Q := fun _ m' => Tidy pins m') (E := fun _ _ => True) ?_ fun next m₁ h₁ hf₁ => ?_
  · exact hm.of_alike m.scheduler.next_wakes.alike
  · cases next with
    | none => exact .refl hf₁
    | some thread =>
      refine ((runSlice_upkeep (nested_furnishing fuel) h₁ hf₁).ensuring fun m' hm' => ?_).then fun ended => ?_
      · exact Maintains.of_aside hm' (.of_alike (@alike_of_threads_eq m'.scheduler m'.scheduler.endSlice rfl rfl))
          rfl (.refl _)
      · cases ended with
        | finished v => exact (Maintaining.onScheduler fun s => s.terminate_alike thread).bind fun _ => .pure _
        | uncaught exception => exact (threadDied_maintains thread exception).bind fun _ => .pure _
        | yielded => exact .pure _
        | blocked => exact .pure _

theorem runSlices_upkeep (fuel slices : Nat) (hm : Tidy pins m) (hf : Furnished m) :
    Upkeep m (runSlices fuel slices) := by
  induction slices generalizing m with
  | zero => exact .refl hf
  | succ slices ih =>
    unfold runSlices
    refine Upkeep.bind (Maintaining.onScheduler (fun s => s.drain_wakes.alike) m hf)
      (Q := fun _ m' => Tidy pins m') (E := fun _ _ => True) (hm.of_alike m.scheduler.drain_wakes.alike)
      fun stop m₁ h₁ hf₁ => ?_
    split
    · exact .refl hf₁
    · unfold Upkeep
      rw [bind_get]
      split
      · exact .refl hf₁
      · refine (step_upkeep fuel h₁ hf₁).bind (step_tidy fuel h₁) fun picked m₂ h₂ hf₂ => ?_
        cases picked with
        | some thread => exact ih h₂ hf₂
        | none =>
          dsimp only
          unfold Upkeep
          rw [bind_get]
          cases m₂.scheduler.nextDeadline? with
          | none => exact .refl hf₂
          | some deadline =>
            have halike : m₂.scheduler.Alike (m₂.scheduler.idleUntil deadline) := alike_of_threads_eq rfl rfl
            have h₃ : Maintains m₂ _ := .of_aside hf₂ (.of_alike halike) rfl (.refl _)
            dsimp only
            rw [bind_modify]
            exact (ih (h₂.of_alike halike) h₃.furnished).mono (fun _ _ h => h₃.trans h) fun _ _ h => h₃.trans h

end Slices

end ClassMachine.Machine
