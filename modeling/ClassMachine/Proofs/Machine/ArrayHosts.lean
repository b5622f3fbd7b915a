import ClassMachine.Proofs.Machine.ArrayRuns
import ClassMachine.Proofs.Machine.StaticRuns

/-!
Arrays, whatever a host does with a machine. A host may hand in any reference, and one that names nothing fits
into any array. Where it hands in only what is null or live, arrays hold what their classes allow from the time
the machine is made.
-/
namespace ClassMachine

/-- What a host hands in is null or live when it is used, once the class of the method is initialized. -/
def HostCall.HandsIn (m : Machine) : HostCall → Prop
  | invoke fuel className name descriptor args => ∀ method m₁,
      Machine.findMethod className name descriptor m = .ok method m₁ →
        Machine.Handed (Machine.nested (fuel - 1)) m₁.scheduler.nextId method args
          { m₁ with scheduler := Machine.borrowing m₁.scheduler }
  | spawn fuel className name descriptor args => ∀ method m₁,
      Machine.findMethod className name descriptor m = .ok method m₁ →
        Machine.Handed (Machine.nested (fuel - 1)) m₁.scheduler.nextId method args
          { m₁ with scheduler := (m₁.scheduler.spawn .null []).2 }
  | _ => True

namespace Machine
open Stateful ClassTable

variable {α : Type} {m m' : Machine} {pins : Pins}

/-- Machines a host has made and used, whatever came of it, that has handed in only what is null or live. -/
inductive HostedLive : Machine → Prop
  | made {l : Linker} {config : Config} {now : UInt64} {m : Machine} (hl : l.Reachable)
      (h : create l.classes config now = .ok m) : HostedLive m
  | served {m : Machine} {c : HostCall} (h : HostedLive m) (hc : c.HandsIn m) :
      HostedLive (HostAct.leaving c.serve m)

/-- No thread runs, nothing dangles, and arrays hold what their classes allow. -/
structure Serving (m : Machine) : Prop where
  tidy : ∃ pins, Tidy pins m
  idle : m.active = []
  furnished : Furnished m

/-- The same after something was asked for. -/
structure Serves (m m' : Machine) : Prop where
  serving : Serving m'
  maintains : Maintains m m'

theorem Serves.refl (hm : Serving m) : Serves m m := ⟨hm, .refl hm.furnished⟩

theorem Serves.trans {m'' : Machine} (h : Serves m m') (h' : Serves m' m'') : Serves m m'' :=
  ⟨h'.serving, h.maintains.trans h'.maintains⟩

section Creation

/-- A machine over some classes, with one object, which is no array. -/
theorem furnished_fresh (config : Config) {linker : Linker} (core : CoreClasses) (now : UInt64) {object : Object}
    (ho : object.elements? = none) (hl : linker.classes.Moored ∧ linker.classes.Grounded) :
    Furnished { config := config, linker := linker, core := core, scheduler := { now := now }
                heap := ((Heap.ofConfig config).insert object).2.pin ⟨1⟩, outOfMemory := ⟨1⟩ } := by
  have hempty : (Heap.ofConfig config).Furnished linker.classes := by
    intro r o hr
    simp [Heap.get?, Heap.ofConfig] at hr
  have hcarries := Heap.insert_carries (h := Heap.ofConfig config) (o := object) (by rfl) ho
  refine ⟨hl.1, hl.2, fun code hcode => ?_, fun _ => rfl, fun r hr => ?_, ?_, ?_⟩
  · cases hcode with
    | running hf _ => cases hf
    | parked hr _ _ => simp [Scheduler.get?] at hr
  · rw [List.mem_singleton.1 (show r ∈ [⟨1⟩] from hr)]
    rfl
  · have hpin : (((Heap.ofConfig config).insert object).2.pin ⟨1⟩).nextHandle = Heap.successor 1 := rfl
    exact hpin ▸ Heap.successor_ne_zero 1
  · exact (hempty.carries hcarries).of_objects_eq rfl

theorem serving_of_create {l : Linker} (hl : l.Reachable) {config : Config} {now : UInt64}
    (h : create l.classes config now = .ok m) : Serving m := by
  obtain ⟨hclosed, hmade, hhost⟩ := create_closed h
  refine ⟨⟨hmade.pins, hmade.tidy hclosed hhost⟩, (kept_by_create (Linker.keeping_bodies lasting_grounded) h).2.2.1, ?_⟩
  have hl : l.classes.Moored ∧ l.classes.Grounded := hl.bodies lasting_grounded moored_empty
  have hl' := (kept_by_create (Linker.keeping_bodies lasting_grounded) h).1 hl
  obtain ⟨core, linker, id, object, -, hobject, rfl⟩ := create_eq h
  exact furnished_fresh config core now (by rw [hobject]; rfl) hl'

end Creation

section Idle

variable {k : Nested} {t : ThreadId}

/-- Run while no thread runs, `x` leaves it so. -/
abbrev Idles (m : Machine) (x : MachineM α) : Prop :=
  Ends (x m) (fun _ m' => m'.active = []) fun _ m' => m'.active = []

theorem idles_ensuring (x : MachineM α) {after : Machine → Machine} (hafter : ∀ m', (after m').active = []) :
    Idles m (ensuring x after) := by
  unfold Idles ensuring
  cases x m <;> exact hafter _

theorem idles_onFreshStack (hm : m.active = []) (x : MachineM α) : Idles m (onFreshStack x) :=
  idles_ensuring (m := { m with active := [] }) x fun _ => hm

theorem Idles.ensuring {x : MachineM α} {after : Machine → Machine} (hx : Idles m x)
    (hafter : ∀ m', m'.active = [] → (after m').active = []) : Idles m (ensuring x after) := by
  unfold Idles Machine.ensuring
  cases hr : x m with
  | ok a m' => exact hafter m' (hx.of_ok hr)
  | error e m' => exact hafter m' (hx.of_error hr)

theorem nested_call_idles (fuel : Nat) (hm : m.active = []) (method : MethodId) (args : List Value) :
    Idles m ((nested fuel).call method args) := by
  cases fuel with
  | zero => exact hm
  | succ fuel =>
    show Idles m (runSynthetic (nested fuel) fuel method args)
    unfold Idles
    rw [runSynthetic_eq]
    split
    · exact hm
    · have hdriven : Idles { m with scheduler := borrowing m.scheduler }
          (drive (nested fuel) fuel m.scheduler.nextId method args) :=
        idles_onFreshStack (show ({ m with scheduler := borrowing m.scheduler } : Machine).active = [] from hm) _
      exact hdriven.ensuring fun _ hm' => hm'

theorem nested_enter_idles (fuel : Nat) (hm : m.active = []) (thread : ThreadId) (method : MethodId)
    (args : List Value) : Idles m ((nested fuel).enter thread method args) := by
  cases fuel with
  | zero => exact hm
  | succ fuel => exact idles_onFreshStack hm _

theorem runSlice_idles (hm : m.active = []) : Idles m (runSlice k t) := by
  unfold runSlice Idles
  rw [bind_modify, bind_get]
  cases m.scheduler.get? t with
  | none => exact hm
  | some r =>
    dsimp only
    rw [bind_modify]
    exact idles_ensuring _ fun _ => rfl

theorem step_idles (fuel : Nat) (hm : m.active = []) : Idles m (step fuel) := by
  unfold step
  have hnext : Idles m (onScheduler Scheduler.next) := hm
  refine hnext.bind fun next m₁ h₁ => ?_
  cases next with
  | none => exact h₁
  | some thread =>
    have hslice : Idles m₁ (ensuring (runSlice (nested fuel) thread) fun m =>
        { m with scheduler := m.scheduler.endSlice }) := (runSlice_idles h₁).ensuring fun _ h => h
    refine hslice.bind fun ended m₂ h₂ => ?_
    cases ended with
    | yielded => exact h₂
    | blocked => exact h₂
    | finished v => exact h₂
    | uncaught exception =>
      have hdied : Idles m₂ (threadDied thread exception) := by
        unfold threadDied Idles
        rw [bind_get]
        cases m₂.config.uncaught <;> exact h₂
      exact hdied.bind fun _ _ h₃ => h₃

theorem runSlices_idles (fuel slices : Nat) (hm : m.active = []) : Idles m (runSlices fuel slices) := by
  induction slices generalizing m with
  | zero => exact hm
  | succ slices ih =>
    unfold runSlices
    have hdrain : Idles m (onScheduler Scheduler.drain) := hm
    refine hdrain.bind fun stop m₁ h₁ => ?_
    split
    · exact h₁
    · rw [bind_get]
      split
      · exact h₁
      · refine (step_idles fuel h₁).bind fun picked m₂ h₂ => ?_
        cases picked with
        | some thread => exact ih h₂
        | none =>
          dsimp only
          rw [bind_get]
          cases m₂.scheduler.nextDeadline? with
          | none => exact h₂
          | some deadline =>
            dsimp only
            rw [bind_modify]
            exact ih h₂

end Idle

section Serving

variable {ε β : Type}

theorem Trapped.holds {P : Machine → Prop} {e : Trap} (h : Trapped P e m) : P m := by
  cases e with
  | exception r => exact h.1
  | fatal error => exact h
  | outOfFuel => exact h

/-- Asked for `x`, a machine that serves a host goes on serving it, whatever comes of `x`. -/
abbrev GoesOn (m : Machine) (x : EStateM ε Machine α) : Prop :=
  Ends (x m) (fun _ m' => Serves m m') fun _ m' => Serves m m'

theorem goesOn_of {x : MachineM α} (htidy : Ends (x m) (fun _ m' => Tidy pins m') (Trapped (Tidy pins)))
    (hidle : Idles m x) (hkeep : Upkeep m x) : GoesOn m x := by
  unfold GoesOn
  cases hr : x m with
  | ok a m' =>
    have h := hkeep.of_ok hr
    exact ⟨⟨⟨pins, htidy.of_ok hr⟩, hidle.of_ok hr, h.furnished⟩, h⟩
  | error e m' =>
    have h := hkeep.of_error hr
    exact ⟨⟨⟨pins, (htidy.of_error hr).holds⟩, hidle.of_error hr, h.furnished⟩, h⟩

theorem GoesOn.bind {x : EStateM ε Machine α} {f : α → EStateM ε Machine β} (hx : GoesOn m x)
    (hf : ∀ a m', x m = .ok a m' → Serving m' → GoesOn m' (f a)) : GoesOn m (x >>= f) := by
  unfold GoesOn
  cases hr : x m with
  | ok a m' =>
    have h := hx.of_ok hr
    rw [bind_of_ok hr]
    exact (hf a m' hr h.serving).mono (fun _ _ h' => h.trans h') fun _ _ h' => h.trans h'
  | error e m' =>
    rw [bind_of_error hr]
    exact hx.of_error hr

theorem GoesOn.forHost {x : MachineM α} (hx : GoesOn m x) : GoesOn m (forHost x) := by
  unfold GoesOn Machine.forHost
  cases hr : x m with
  | ok a m' => exact hx.of_ok hr
  | error e m' => exact hx.of_error hr

theorem GoesOn.discard {x : HostM α} (hx : GoesOn m x) : GoesOn m (do let _ ← x : HostM Unit) :=
  hx.bind fun _ _ _ hm' => Serves.refl hm'

theorem GoesOn.attempt {x : MachineM α} {g : Except Trap α → MachineM β} (hx : GoesOn m x)
    (hg : ∀ result m', Serving m' → GoesOn m' (g result)) : GoesOn m (Machine.attempt x >>= g) := by
  have hattempt : GoesOn m (Machine.attempt x) := by
    unfold GoesOn Machine.attempt
    cases hr : x m with
    | ok a m' => exact hx.of_ok hr
    | error e m' => exact hx.of_error hr
  exact hattempt.bind fun result m' _ hm' => hg result m' hm'

/-- Classes are loaded, and questions about them answered. -/
theorem Serving.relink {l : Linker} (hm : Serving m) (hturns : m.linker.Turns l) (hgrounded : l.classes.Grounded) :
    Serves m { m with linker := l } := by
  obtain ⟨pins, htidy⟩ := hm.tidy
  have h := Maintains.of_turns hm.furnished hturns hgrounded
  exact ⟨⟨⟨pins, htidy.refit l m.yieldRequested m.uncaught⟩, hm.idle, h.furnished⟩, h⟩

theorem Serving.consult (hm : Serving m) {x : StateM Linker α} (hx : Linker.Consulting x) : GoesOn m (onLinker x) :=
  hm.relink (hx.turning m.linker) (Linker.Consults.bodies lasting_grounded (hx m.linker) hm.furnished.moored
    hm.furnished.grounded)

theorem Serving.reschedule (hm : Serving m) {s : Scheduler FrameStack} (hs : m.scheduler.Alike s) :
    Serves m { m with scheduler := s } := by
  obtain ⟨pins, htidy⟩ := hm.tidy
  have h : Maintains m { m with scheduler := s } := .of_aside hm.furnished (.of_alike hs) rfl (.refl _)
  exact ⟨⟨⟨pins, htidy.of_alike hs⟩, hm.idle, h.furnished⟩, h⟩

theorem Serving.reheap (hm : Serving m) {h : Heap} (hc : Heap.Collected m.heap m.roots h)
    (hcarries : m.heap.Carries h) : Serves m { m with heap := h } := by
  obtain ⟨pins, htidy⟩ := hm.tidy
  have h := Maintains.reheap hm.furnished hcarries
  exact ⟨⟨⟨pins, htidy.of_collected hc⟩, hm.idle, h.furnished⟩, h⟩

theorem findMethod_goesOn (hm : Serving m) (className name descriptor : String) :
    GoesOn m (findMethod className name descriptor) := by
  unfold findMethod GoesOn
  rw [bind_get]
  cases m.classes.lookup? className with
  | none => exact .refl hm
  | some id =>
    refine (hm.consult (Linker.consulting_asks (resolveMethod_asks id name descriptor))).forHost.bind
      fun found m₁ _ h₁ => ?_
    cases found with
    | ok method => exact .refl h₁
    | error e => exact .refl h₁

theorem load_goesOn (hm : Serving m) (d : ClassDefinition) : GoesOn m (load d) := by
  have hregister : GoesOn m (onClasses (ClassTable.register d)) := hm.relink (Linker.turning_register d m.linker)
    (Linker.register_bodies lasting_grounded d m.linker hm.furnished.grounded)
  refine hregister.forHost.bind fun result m₁ _ h₁ => ?_
  cases result with
  | ok id => exact (h₁.consult (Linker.consulting_prepare id)).forHost.bind fun _ _ _ h₂ => .refl h₂
  | error e => exact .refl h₁

theorem call_goesOn (hm : Serving m) (fuel : Nat) (method : MethodId) (args : List Value)
    (hargs : Handed (nested (fuel - 1)) m.scheduler.nextId method args
      { m with scheduler := borrowing m.scheduler }) : GoesOn m ((nested fuel).call method args) := by
  obtain ⟨pins, htidy⟩ := hm.tidy
  have hidle := nested_call_idles fuel hm.idle method args
  cases fuel with
  | zero => exact .refl hm
  | succ fuel =>
    exact goesOn_of (runSynthetic_tidy (nested_settled fuel) fuel method htidy hm.idle hargs) hidle
      (runSynthetic_upkeep (nested_furnishing fuel) fuel method htidy hm.idle hm.furnished hargs)

theorem spawn_goesOn (hm : Serving m) (fuel : Nat) (method : MethodId) (args : List Value)
    (hargs : Handed (nested (fuel - 1)) m.scheduler.nextId method args
      { m with scheduler := (m.scheduler.spawn .null []).2 }) :
    GoesOn m (do
      let thread ← spawnThread .null
      match ← attempt ((nested fuel).enter thread method args) with
      | .ok () => return thread
      | .error trap =>
        let _ ← onScheduler (·.terminate thread)
        throw trap : MachineM ThreadId) := by
  by_cases hid : m.scheduler.nextId = 0xffffffff
  · have hspawn : spawnThread .null m = .error .outOfFuel m := if_pos hid
    unfold GoesOn
    rw [bind_of_error hspawn]
    exact .refl hm
  · obtain ⟨pins, htidy⟩ := hm.tidy
    let m₁ : Machine := { m with scheduler := (m.scheduler.spawn .null []).2 }
    have hspawn : spawnThread .null m = .ok m.scheduler.nextId m₁ := if_neg hid
    obtain ⟨htidy₁, _, _, ⟨r, hr, hstack, _⟩, _⟩ := (spawnThread_tidy htidy m.heap.names_null).of_ok hspawn
    have hspawned := (spawnThread_maintains .null m hm.furnished).of_ok hspawn
    have h₁ : Serves m m₁ := ⟨⟨⟨pins, htidy₁⟩, hm.idle, hspawned.furnished⟩, hspawned⟩
    have henter : GoesOn m₁ ((nested fuel).enter m.scheduler.nextId method args) := by
      have hidle := nested_enter_idles fuel h₁.serving.idle m.scheduler.nextId method args
      cases fuel with
      | zero => exact .refl h₁.serving
      | succ fuel =>
        have hrun : Tended m.scheduler.nextId pins m₁ := ⟨htidy₁, r, hr, hstack⟩
        exact goesOn_of (enterThread_tidy (nested_settled fuel) method hrun h₁.serving.idle hargs) hidle
          (enterThread_upkeep (nested_furnishing fuel) method hrun h₁.serving.idle h₁.serving.furnished hargs)
    unfold GoesOn
    rw [bind_of_ok hspawn]
    refine (henter.attempt (g := fun
      | .ok () => Pure.pure m.scheduler.nextId
      | .error trap => do
        let _ ← onScheduler (·.terminate m.scheduler.nextId)
        throw trap) fun result m₂ h₂ => ?_).mono (fun _ _ h => h₁.trans h) fun _ _ h => h₁.trans h
    cases result with
    | ok u => exact .refl h₂
    | error trap => exact h₂.reschedule (m₂.scheduler.terminate_alike m.scheduler.nextId)

theorem stringObject_goesOn (hm : Serving m) (text : String) : GoesOn m (stringObject text) := by
  unfold stringObject GoesOn
  rw [bind_get]
  have hreserve : ∀ units, GoesOn m (reserve units) := by
    intro units
    obtain ⟨pins, htidy⟩ := hm.tidy
    have hreheap := hm.reheap (Heap.reserve_collected htidy.closed.heap htidy.closed.roots units)
      (Heap.reserve_carries m.roots m.heap units)
    unfold GoesOn reserve
    split
    all_goals
      next hr =>
        rw [hr] at hreheap
        exact hreheap
  refine (hreserve _).bind fun _ m₁ _ h₁ => ?_
  obtain ⟨pins, htidy⟩ := h₁.tidy
  unfold insertObject GoesOn
  dsimp only
  split
  · exact .refl h₁
  · next hfree =>
    obtain ⟨hgrown, _⟩ := Heap.insert_grown htidy.closed.heap
      ((blank_string m.core.string text).mono fun _ hr => m₁.heap.names_of_isNull hr)
    exact h₁.reheap ⟨hgrown.closed, hgrown.pinned, fun r hr => hgrown.names r (htidy.closed.roots r hr)⟩
      (Heap.insert_carries (Bool.eq_false_iff.2 hfree) rfl)

/-- Whatever a host asks for, where what it hands in is null or live. -/
theorem serve_goesOn (hm : Serving m) {c : HostCall} (hc : c.HandsIn m) : GoesOn m c.serve := by
  obtain ⟨pins, htidy⟩ := hm.tidy
  cases c with
  | load d => exact (load_goesOn hm d).discard
  | invoke fuel className name descriptor args =>
    refine GoesOn.discard ((findMethod_goesOn hm className name descriptor).bind fun method m₁ hfound h₁ => ?_)
    exact (call_goesOn h₁ fuel method args (hc method m₁ hfound)).forHost
  | spawn fuel className name descriptor args =>
    refine GoesOn.discard ((findMethod_goesOn hm className name descriptor).bind fun method m₁ hfound h₁ => ?_)
    exact (spawn_goesOn h₁ fuel method args (hc method m₁ hfound)).forHost
  | step fuel =>
    exact (goesOn_of (step_tidy fuel htidy) (step_idles fuel hm.idle)
      (step_upkeep fuel htidy hm.furnished)).forHost.discard
  | run fuel =>
    exact (goesOn_of (runSlices_tidy fuel fuel htidy) (runSlices_idles fuel fuel hm.idle)
      (runSlices_upkeep fuel fuel htidy hm.furnished)).forHost.discard
  | send r => exact hm.reschedule (alike_of_threads_eq rfl rfl)
  | attach t => exact hm.reschedule (m.scheduler.attach_wakes t).alike
  | interrupt t => exact hm.reschedule (m.scheduler.interrupt_wakes t).alike
  | advance millis => exact hm.reschedule (alike_of_threads_eq rfl rfl)
  | newString text => exact (stringObject_goesOn hm text).forHost.discard
  | collect =>
    have hcollect : GoesOn m collectGarbage := hm.reheap
      (Heap.collect_collected htidy.closed.heap htidy.closed.roots) (Heap.collect_carries m.roots m.heap)
    exact hcollect.forHost.discard

theorem GoesOn.leaving {x : HostM Unit} (hx : GoesOn m x) : Serves m (HostAct.leaving x m) := by
  unfold HostAct.leaving
  split
  · next hr => exact hx.of_ok hr
  · next hr => exact hx.of_error hr

theorem HostedLive.serving (h : HostedLive m) : Serving m := by
  induction h with
  | made hl h => exact serving_of_create hl h
  | served h hc ih => exact (serve_goesOn ih hc).leaving.serving

end Serving

/-- Arrays of references hold live objects of the classes they are arrays of, whatever a host asks for that
hands in only what is null or live. What is asked for makes no subtype cease to be one, and the instructions
and natives that write to arrays keep to what arrays may hold, also where they stop midway. -/
theorem arrays_of_hostedLive (h : HostedLive m) :
    (∀ array o c inner, m.heap.get? array = some o → m.classes.get? o.type = some c →
      c.element = some (.reference inner) → ∀ r, o.HasElement r →
        ∃ o', m.heap.get? r = some o' ∧ m.classes.Is o'.type inner) ∧
    (∀ c : HostCall, c.HandsIn m → ∀ sub sup, m.classes.Is sub sup →
      (HostAct.leaving c.serve m).classes.Is sub sup) ∧
    ∀ n : Machine, Furnished n →
      (∀ fuel t pins, Tended t pins n →
        Upkeep n (executeInstruction (nested fuel) t (.arrayStore .reference))) ∧
      (∀ source sourcePos target targetPos length,
        Upkeep n (arrayCopy source sourcePos target targetPos length)) ∧
      ∀ lengths id, Upkeep n (newMultiArray lengths id) := by
  have hserving := h.serving
  have hfurnished := hserving.furnished
  refine ⟨fun array o c inner ho hc hinner r hr => ?_, fun c hc sub sup his => ?_, fun n hn => ⟨?_, ?_, ?_⟩⟩
  · have harray : o.elements?.isSome := by
      obtain ⟨-, _, _, helements, -⟩ := hr
      rw [helements]
      rfl
    exact (hfurnished.arrays array o ho harray).elements c inner hc hinner r hr
  · exact his.retains (serve_goesOn hserving hc).leaving.maintains.retains hfurnished.moored
  · exact fun fuel t pins ht => executeInstruction_upkeep (nested_furnishing fuel) ht hn _ trivial
  · exact fun source sourcePos target targetPos length =>
      arrayCopy_maintains source sourcePos target targetPos length n hn
  · exact fun lengths id => (newMultiArray_maintains lengths id hn).mono (fun _ _ h => h.1) fun _ _ h => h

section Filling

/-- A method whose class needs no initializing, and arguments that are null or live. -/
def takesNow (method : MethodId) (args : List Value) (m : Machine) : Bool :=
  args.isEmpty || !m.isPendingInit method.owner &&
    args.all fun v => v.ref?.all fun r => r.isNull || m.heap.contains r

theorem handed_of_takesNow {k : Nested} {t : ThreadId} {method : MethodId} {args : List Value}
    (h : takesNow method args m = true) : Handed k t method args m := by
  rcases Bool.or_eq_true_iff.1 h with hempty | h
  · rw [List.isEmpty_iff.1 hempty]
    exact handed_nil k t method m
  · obtain ⟨hpending, hargs⟩ := Bool.and_eq_true_iff.1 h
    intro m' hm' v hv
    have hsame : ensureInitialized k t method.owner m = .ok () m := by
      unfold ensureInitialized
      rw [bind_get, if_neg fun hp => by rw [hp] at hpending; cases hpending]
      rfl
    cases hsame.symm.trans hm'
    refine Value.within_iff_ref?.2 fun r hr hnull => ?_
    have hlive := List.all_eq_true.1 hargs v hv
    rw [hr, Option.all_some, hnull, Bool.false_or] at hlive
    exact Std.ExtTreeMap.contains_iff_mem.1 hlive

/-- Whether all a call hands in is seen to be null or live before the call. -/
def isReady (m : Machine) : HostCall → Bool
  | .invoke _ className name descriptor args | .spawn _ className name descriptor args =>
    match findMethod className name descriptor m with
    | .ok method m₁ => takesNow method args m₁
    | .error _ _ => true
  | _ => true

theorem handsIn_of_isReady {c : HostCall} (h : m.isReady c = true) : c.HandsIn m := by
  cases c with
  | invoke fuel className name descriptor args | spawn fuel className name descriptor args =>
    intro method m₁ hfound
    simp only [isReady, hfound] at h
    exact handed_of_takesNow (show takesNow method args { m₁ with scheduler := _ } = true from h)
  | _ => trivial

/-- Asks for one thing after the other, if all of it comes to an end and hands in what is null or live. -/
def serveReady (cs : List HostCall) (m : Machine) : Option Machine :=
  cs.foldlM (fun m c => if m.isReady c then HostCall.serveAll [c] m else none) m

theorem HostedLive.serveReady {cs : List HostCall} (h : HostedLive m) (hserve : Machine.serveReady cs m = some m') :
    HostedLive m' := by
  induction cs generalizing m with
  | nil =>
    cases hserve
    exact h
  | cons c cs ih =>
    unfold Machine.serveReady at hserve
    rw [List.foldlM_cons] at hserve
    obtain ⟨m₁, hfirst, hrest⟩ := Option.bind_eq_some_iff.1 hserve
    split at hfirst
    · next hready =>
      have hserved := h.served (handsIn_of_isReady hready)
      obtain ⟨m₂, hr, hlast⟩ := HostCall.serveAll_cons.1 hfirst
      cases hlast
      rw [HostAct.leaving, hr] at hserved
      exact ih hserved hrest
    · cases hfirst

/-- A class with methods that make an array, make an object to put into it, and put what they are given. -/
def filling : ClassDefinition where
  name := "Filling"
  superName := some objectClass
  constants := [.type "Item"]
  methods := [
    { name := "make", descriptor := "()[LItem;", flags := ⟨0x0009⟩
      code := some { maxStack := 1, code := #[0x04, 0xbd, 0x00, 0x01, 0xb0] } },
    { name := "fresh", descriptor := "()LItem;", flags := ⟨0x0009⟩
      code := some { maxStack := 1, code := #[0xbb, 0x00, 0x01, 0xb0] } },
    { name := "put", descriptor := "([LItem;LItem;)V", flags := ⟨0x0009⟩
      code := some { maxStack := 3, maxLocals := 2, code := #[0x2a, 0x03, 0x2b, 0x53, 0xb1] } }]

/-- An array has been made. -/
def made : List HostCall :=
  [.load { name := "Item", superName := some objectClass }, .load filling, .invoke 40 "Filling" "make" "()[LItem;" []]

/-- Something is put into the array. -/
def put (r : Ref) : HostCall := .invoke 40 "Filling" "put" "([LItem;LItem;)V" [.ref ⟨2⟩, .ref r]

/-- A machine in which an array has been made and an item put into it. -/
def filled : Option Machine :=
  (create {} {} 0).toOption.bind
    (serveReady (made ++ [.invoke 40 "Filling" "fresh" "()LItem;" [], put ⟨3⟩]))

/-- What an array of references is an array of, and its elements. -/
def heldAt (m : Machine) (array : Ref) : Option (ClassId × Array Value) := do
  let o ← m.heap.get? array
  let c ← m.classes.get? o.type
  match c.element, o.elements? with
  | some (.reference inner), some (_, elements) => return (inner, elements)
  | _, _ => none

theorem hasElement_of_heldAt {array r : Ref} {inner : ClassId} {elements : Array Value}
    (h : m.heldAt array = some (inner, elements)) (hr : r.isNull = false) (hmem : Value.ref r ∈ elements) :
    ∃ o c, m.heap.get? array = some o ∧ m.classes.get? o.type = some c ∧
      c.element = some (.reference inner) ∧ o.HasElement r := by
  unfold heldAt at h
  obtain ⟨o, ho, h⟩ := Option.bind_eq_some_iff.1 h
  obtain ⟨c, hc, h⟩ := Option.bind_eq_some_iff.1 h
  split at h
  · next helement helements =>
    cases h
    exact ⟨o, c, ho, hc, helement, hr, _, _, helements, hmem⟩
  · cases h

/-- A host that hands in what names nothing has it put into arrays. -/
theorem exists_element_of_nothing : ∃ m : Machine,
    (create {} {} 0).toOption.bind (HostCall.serveAll (made ++ [put ⟨3⟩])) = some m ∧
      ∃ o c inner, m.heap.get? ⟨2⟩ = some o ∧ m.classes.get? o.type = some c ∧
        c.element = some (.reference inner) ∧ o.HasElement ⟨3⟩ ∧ m.heap.get? ⟨3⟩ = none := by
  have hrun : ((create {} {} 0).toOption.bind (HostCall.serveAll (made ++ [put ⟨3⟩]))).any (fun m =>
      decide (m.heldAt ⟨2⟩ = some (31, #[.ref ⟨3⟩]) ∧ m.heap.get? ⟨3⟩ = none)) = true := by decide +kernel
  obtain ⟨m, hm, hholds⟩ := (Option.any_eq_true ..).1 hrun
  obtain ⟨hheld, hnothing⟩ := of_decide_eq_true hholds
  obtain ⟨o, c, ho, hc, helement, hr⟩ := hasElement_of_heldAt hheld (r := ⟨3⟩) rfl (by simp)
  exact ⟨m, hm, o, c, 31, ho, hc, helement, hr, hnothing⟩

theorem arrays_of_hostedLive_filled : ∃ m : Machine, filled = some m ∧ HostedLive m ∧
    (∃ o c inner o', m.heap.get? ⟨2⟩ = some o ∧ m.classes.get? o.type = some c ∧
      c.element = some (.reference inner) ∧ o.HasElement ⟨3⟩ ∧ m.heap.get? ⟨3⟩ = some o' ∧
        m.classes.Is o'.type inner) ∧
    (∀ d sub sup, m.classes.Is sub sup →
      (HostAct.leaving (HostCall.load d).serve m).classes.Is sub sup) ∧
    Upkeep m (arrayCopy ⟨2⟩ 0 ⟨2⟩ 0 1) := by
  have hrun : filled.any (fun m => decide (m.heldAt ⟨2⟩ = some (31, #[.ref ⟨3⟩]))) = true := by decide +kernel
  obtain ⟨m, hm, hholds⟩ := (Option.any_eq_true ..).1 hrun
  obtain ⟨o, c, ho, hc, helement, hr⟩ := hasElement_of_heldAt (of_decide_eq_true hholds) (r := ⟨3⟩) rfl (by simp)
  obtain ⟨m₀, hcreate, hserve⟩ := Option.bind_eq_some_iff.1 hm
  have hmade : HostedLive m₀ := .made (l := {}) ⟨.generic, .refl⟩ (created_of_toOption hcreate)
  have hhosted : HostedLive m := hmade.serveReady hserve
  obtain ⟨harrays, hstays, hwrites⟩ := arrays_of_hostedLive hhosted
  obtain ⟨o', ho', his⟩ := harrays ⟨2⟩ o c 31 ho hc helement ⟨3⟩ hr
  exact ⟨m, hm, hhosted, ⟨o, c, 31, o', ho, hc, helement, hr, ho', his⟩, fun d => hstays (.load d) trivial,
    (hwrites m hhosted.serving.furnished).2.1 ⟨2⟩ 0 ⟨2⟩ 0 1⟩

end Filling

end Machine

end ClassMachine
