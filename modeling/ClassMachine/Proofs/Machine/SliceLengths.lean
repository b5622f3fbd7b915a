import ClassMachine.Proofs.Machine.Creation
import ClassMachine.Proofs.Machine.SliceCuts

/-!
Calls of a host come to the same whatever the length of slices, as long as no monitor holds a token for a
thread that is yet to be made. One machine may take many slices where the other takes one, never more than
the instructions it executes, so fuel for the one gives a bound on fuel for the other. Where a token was
left behind for a thread that is made only later, the thread is woken by mistake, and then it matters
whether a slice ends before its next instruction.
-/
namespace ClassMachine.Machine
open Stateful

variable {cycles : UInt32} {shelf : Shelf} {t : ThreadId} {m m' : Machine} {k l : Nested} {α : Type}

section Driving

variable {method : MethodId} {fuel fuel' most : Nat}

theorem restOf_out_of_budget (m : Machine) :
    restOf k t method fuel (execute k t 0) m = driveSlices k t method fuel (saveStack t m) := rfl

theorem Underway.retuned {free : Bool} (hm : Underway free shelf t m) (cycles : UInt32) :
    Underway free shelf t (m.retuned cycles) := hm.spared (spared_of_arena rfl rfl rfl)

/-- Both machines go on alike after a slice if they do from where a thread can be resumed. -/
theorem endsAlike_of_drive (hdrive : ∀ m, Halted shelf t m → Shadows cycles (fun _ => Sheltered shelf)
      (Sheltered shelf) (driveSlices k t method fuel m) (driveSlices l t method fuel' (m.retuned cycles))) :
    EndsAlike cycles shelf t (goOn k t method fuel) (goOn l t method fuel') := by
  intro ended m hm
  cases ended with
  | finished v => exact ⟨rfl, hm⟩
  | uncaught exception => exact ⟨rfl, hm⟩
  | yielded => exact hdrive m hm
  | blocked => exact (awaitDeadline_shadows hm method).bind fun _ n hn => hdrive n hn

/-- Instruction by instruction: where the first machine is left with nothing of its slice, it begins
another one without the second; where the second is, it does so without the first. -/
theorem runsAlike_of_ends (hk : Nested.Shadows cycles k l) (hcycles : 0 < cycles)
    (hends : ∀ fuel', fuel * most ≤ fuel' →
      EndsAlike cycles shelf t (goOn k t method fuel) (goOn l t method fuel'))
    (hout : ∀ fuel' budget', fuel * most ≤ fuel' → RunsAlike cycles shelf t
      (restOf k t method fuel (execute k t 0)) (restOf l t method fuel' (execute l t budget')))
    (budget fuel' budget' : Nat) (henough : fuel * most + budget ≤ fuel') :
    RunsAlike cycles shelf t (restOf k t method fuel (execute k t budget))
      (restOf l t method fuel' (execute l t budget')) := by
  induction budget generalizing fuel' budget' with
  | zero => exact hout fuel' budget' (by omega)
  | succ budget ih =>
    cases budget' with
    | succ budget' => exact execute_runsAlike (hends fuel' (by omega)) hk (ih fuel' budget' (by omega))
    | zero =>
      obtain ⟨rest, rfl⟩ : ∃ rest, fuel' = rest + 1 := ⟨fuel' - 1, by omega⟩
      obtain ⟨left, hleft⟩ : ∃ left, cycles.toNat = left + 1 :=
        ⟨cycles.toNat - 1, by have := UInt32.lt_iff_toNat_lt.1 hcycles; simp at this; omega⟩
      have hstep := execute_runsAlike (hends rest (by omega)) hk (ih rest left (by omega))
      intro m hm
      rw [restOf_out_of_budget, driveSlices_takesUp (hm.retuned cycles),
        show (m.retuned cycles).config.sliceCycles.toNat = left + 1 from hleft]
      exact hstep m hm

/-- With as many slices as the first machine could execute instructions, the second one keeps up. -/
theorem slices_alike (hmost : ∀ c : UInt32, c.toNat < most) (hk : Nested.Shadows cycles k l)
    (hcycles : 0 < cycles) (fuel : Nat) :
    (∀ fuel', fuel * most ≤ fuel' →
      EndsAlike cycles shelf t (goOn k t method fuel) (goOn l t method fuel')) ∧
    ∀ budget fuel' budget', fuel * most + budget ≤ fuel' →
      RunsAlike cycles shelf t (restOf k t method fuel (execute k t budget))
        (restOf l t method fuel' (execute l t budget')) := by
  induction fuel with
  | zero =>
    have hends : ∀ fuel', 0 * most ≤ fuel' →
        EndsAlike cycles shelf t (goOn k t method 0) (goOn l t method fuel') :=
      fun _ _ => endsAlike_of_drive fun _ _ => trivial
    exact ⟨hends, runsAlike_of_ends hk hcycles hends fun _ _ _ _ _ => trivial⟩
  | succ fuel ih =>
    have hends : ∀ fuel', (fuel + 1) * most ≤ fuel' →
        EndsAlike cycles shelf t (goOn k t method (fuel + 1)) (goOn l t method fuel') := by
      intro fuel' henough
      rw [Nat.succ_mul] at henough
      have hpos := hmost 0
      obtain ⟨rest, rfl⟩ : ∃ rest, fuel' = rest + 1 := ⟨fuel' - 1, by omega⟩
      exact endsAlike_of_drive fun m hm => driveSlices_shadows (ih.1 rest (by omega))
        (fun c => ih.2 c.toNat rest _ (by have := hmost c; omega)) hm
    refine ⟨hends, runsAlike_of_ends hk hcycles hends fun fuel' budget' henough m hm => ?_⟩
    rw [Nat.succ_mul] at henough
    have hlt := hmost m.config.sliceCycles
    rw [restOf_out_of_budget, driveSlices_takesUp hm]
    exact ih.2 _ fuel' budget' (by omega) m hm

end Driving

section Calling

variable {most : Nat}

/-- The frames of a caller come back after a call. -/
theorem onFreshStack_shadows {x y : MachineM α}
    (hx : Shadows cycles (fun _ => Sheltered shelf) (Sheltered shelf) (x { m with active := [] })
      (y ({ m with active := [] }.retuned cycles))) :
    Shadows cycles (fun _ n => Sheltered shelf n ∧ n.active = m.active)
      (fun n => Sheltered shelf n ∧ n.active = m.active) (onFreshStack x m) (onFreshStack y (m.retuned cycles)) := by
  have hback : ∀ n, Sheltered shelf n →
      Sheltered shelf { n with active := m.active } ∧ ({ n with active := m.active } : Machine).active = m.active :=
    fun n hn => ⟨hn.passesBy (Q := fun _ => True) (.refl _) (fun _ _ => trivial) rfl, rfl⟩
  exact hx.ensuring (fun _ => rfl) (fun _ => hback) hback

/-- A method that is started goes on in slices. -/
theorem drive_shadows (hmost : ∀ c : UInt32, c.toNat < most) (hk : Nested.Shadows cycles k l)
    (hcycles : 0 < cycles) {fuel fuel' : Nat} (henough : fuel * most ≤ fuel') (method : MethodId)
    (args : List Value) (hm : Underway true shelf t m) :
    Shadows cycles (fun _ n => Sheltered shelf n ∧ n.active = m.active)
      (fun n => Sheltered shelf n ∧ n.active = m.active) (drive k fuel t method args m)
      (drive l fuel' t method args (m.retuned cycles)) := by
  have hends : EndsAlike cycles shelf t (goOn k t method fuel) (goOn l t method fuel') :=
    (slices_alike hmost hk hcycles fuel).1 fuel' henough
  have hstarted : Underway true shelf t { m with active := [] } := hm.spared (spared_of_arena rfl rfl rfl)
  refine onFreshStack_shadows ?_
  refine ((ensureInitialized_carries hk method.owner _ hstarted).mono (fun _ _ h => h)
    fun _ h => h.toSheltered).bind fun _ m₁ h₁ => ?_
  refine ((invokeMethod_flows hk method args m₁ h₁).mono (fun _ _ h => h) fun _ h => h.toSheltered).bind
    fun flow m₂ h₂ => ?_
  cases flow with
  | finished v => exact ⟨rfl, h₂.1⟩
  | next => exact hends .yielded _ h₂.halted.saved
  | pause => exact hends .yielded _ h₂.1.saved

/-- A thread that was made for a call is gone, and nobody misses it. -/
theorem Sheltered.dismissed (hm : Sheltered shelf m) (hothers : ∀ e ∈ shelf, e.1 ≠ t) (yielding : Bool) :
    Sheltered shelf { m with
      scheduler := ((m.scheduler.terminate t).2.remove t).2
      yieldRequested := yielding } := by
  have hended : Sheltered shelf { m with scheduler := (m.scheduler.terminate t).2 } :=
    hm.spares hothers (Arena.passesBy_of_scheduler (a := m.arena)
      (m.scheduler.terminate_passesBy fun h => h rfl)) rfl
  exact ⟨⟨hm.noHost, Arena.numbered_remove hended.numbered t, hended.ticketed⟩,
    fun e he => (hended.idle e he).remove (hothers e he)⟩

theorem runSynthetic_shadows (hmost : ∀ c : UInt32, c.toNat < most) (hk : Nested.Shadows cycles k l)
    (hcycles : 0 < cycles) {fuel fuel' : Nat} (henough : fuel * most ≤ fuel')
    (method : MethodId) (args : List Value) (hm : Sheltered shelf m) :
    Shadows cycles (fun _ => Returned shelf m) (Returned shelf m) (runSynthetic k fuel method args m)
      (runSynthetic l fuel' method args (m.retuned cycles)) := by
  unfold runSynthetic
  rw [bind_get, bind_get]
  refine ((oblivious_spawnThread .null).shadows (spawnThread_sheltered hm .null)).bind
    fun started m₁ ⟨hshelved, hidle, hothers, hactive, _⟩ => ?_
  have hmarked : m₁.scheduler.PassesBy (fun _ => True)
      (m₁.scheduler.update started fun r => { r with synthetic := true }) :=
    m₁.scheduler.update_passesBy started fun _ => ⟨rfl, rfl, rfl, fun h => h⟩
  have hnew : Underway true shelf started
      { m₁ with scheduler := m₁.scheduler.update started fun r => { r with synthetic := true } } :=
    Underway.spared ⟨hshelved, hidle, hothers, fun h => by cases h⟩ (spared_of_scheduler hmarked)
  have hback : ∀ n, Sheltered shelf n ∧ n.active = m₁.active → Returned shelf m { n with
      scheduler := ((n.scheduler.terminate started).2.remove started).2
      yieldRequested := m.yieldRequested } :=
    fun n hn => ⟨hn.1.dismissed hothers _, hn.2.trans hactive, id⟩
  exact (drive_shadows hmost hk hcycles henough method args hnew).ensuring (fun _ => rfl) (fun _ => hback) hback

theorem enterThread_shadows (hk : Nested.Shadows cycles k l) (method : MethodId) (args : List Value)
    (hm : Sheltered shelf m) (hidle : m.arena.Idle t []) (hothers : ∀ e ∈ shelf, e.1 ≠ t) :
    Shadows cycles (fun _ => Returned shelf m) (Returned shelf m) (enterThread k t method args m)
      (enterThread l t method args (m.retuned cycles)) := by
  let free := m.yieldRequested
  have hstarted : Underway free shelf t { m with active := [] } :=
    Underway.spared (m := m) ⟨hm, hidle, hothers, fun h => h⟩ (spared_of_arena rfl rfl rfl)
  have hback : ∀ n, Sheltered shelf n ∧ (free = false → n.yieldRequested = false) →
      Returned shelf m { n with active := m.active } :=
    fun n hn => ⟨hn.1.passesBy (Q := fun _ => True) (.refl _) (fun _ _ => trivial) rfl, rfl, hn.2⟩
  have hstays : ∀ n, Underway free shelf t n → Sheltered shelf n ∧ (free = false → n.yieldRequested = false) :=
    fun n hn => ⟨hn.toSheltered, hn.unyielding⟩
  refine Shadows.ensuring (Q := fun _ n => Sheltered shelf n ∧ (free = false → n.yieldRequested = false))
    (P := fun n => Sheltered shelf n ∧ (free = false → n.yieldRequested = false)) ?_ (fun _ => rfl)
    (fun _ => hback) hback
  refine ((ensureInitialized_carries hk method.owner _ hstarted).mono (fun _ _ h => h) hstays).bind
    fun _ m₁ h₁ => ?_
  have hsaved : ∀ n, Sheltered shelf n ∧ (free = false → n.yieldRequested = false) →
      Sheltered shelf (saveStack t n) ∧ (free = false → (saveStack t n).yieldRequested = false) :=
    fun n hn => ⟨hn.1.spares hothers (saveStack_passesBy n) rfl, hn.2⟩
  have hinvoked : Shadows cycles (fun _ n => Sheltered shelf n ∧ (free = false → n.yieldRequested = false))
      (fun n => Sheltered shelf n ∧ (free = false → n.yieldRequested = false))
      (ensuring (invokeMethod k t method args) (saveStack t) m₁)
      (ensuring (invokeMethod l t method args) (saveStack t) (m₁.retuned cycles)) := by
    refine (invokeMethod_flows hk method args m₁ h₁).ensuring (fun _ => rfl) (fun flow n hn => ?_)
      fun n hn => hsaved n (hstays n hn)
    cases flow with
    | next => exact hsaved n (hstays n hn)
    | pause => exact hsaved n ⟨hn.1.toSheltered, hn.2⟩
    | finished v => exact hsaved n hn
  refine hinvoked.bind fun flow m₂ h₂ => ?_
  cases flow with
  | next => exact ⟨rfl, h₂⟩
  | pause => exact ⟨rfl, h₂⟩
  | finished v =>
    exact ⟨rfl, h₂.1.spares hothers (Arena.passesBy_of_scheduler (a := m₂.arena)
      (m₂.scheduler.terminate_passesBy fun h => h rfl)) rfl, h₂.2⟩

/-- Calls that nest come to the same with fuel enough. -/
theorem nested_shadows (hmost : ∀ c : UInt32, c.toNat < most) (hcycles : 0 < cycles) {fuel fuel' : Nat}
    (henough : fuel * most ≤ fuel') :
    Nested.Shadows cycles (nested fuel) (nested fuel') := by
  induction fuel generalizing fuel' with
  | zero => exact ⟨fun _ _ _ => trivial, fun _ _ _ _ _ _ => trivial⟩
  | succ fuel ih =>
    rw [Nat.succ_mul] at henough
    have hpos := hmost 0
    obtain ⟨rest, rfl⟩ : ∃ rest, fuel' = rest + 1 := ⟨fuel' - 1, by omega⟩
    have hk : Nested.Shadows cycles (nested fuel) (nested rest) := ih (by omega)
    exact ⟨fun method args hm => runSynthetic_shadows hmost hk hcycles (by omega) method args hm,
      fun t method args hm hidle hothers => enterThread_shadows hk method args hm hidle hothers⟩

end Calling

section Hosting

/-- The same outcome, of a machine with slices of another length. -/
abbrev retunedResult (cycles : UInt32) (r : EStateM.Result HostError Machine α) :
    EStateM.Result HostError Machine α := retouchedResult (fun _ => cycles) id r

/-- A request has come to an end, be it with an error. -/
def Concluded : EStateM.Result HostError Machine α → Prop
  | .error .outOfFuel _ => False
  | _ => True

theorem Unclaimed.retuned (hm : Unclaimed m) (cycles : UInt32) : Unclaimed (m.retuned cycles) :=
  hm.passesBy (Q := fun _ => True) (.refl _) rfl

/-- Classes have nothing to do with threads. -/
theorem Unclaimed.withLinker (hm : Unclaimed m) (l : Linker) : Unclaimed { m with linker := l } :=
  hm.passesBy (Q := fun _ => True) (.refl _) rfl

theorem forHost_onClasses (x : StateM ClassTable α) (m : Machine) :
    forHost (onClasses x) m =
      .ok (x m.classes).1 { m with linker := { m.linker with classes := (x m.classes).2 } } := rfl

theorem oblivious_findMethod (className name descriptor : String) :
    Oblivious (findMethod className name descriptor) := by
  intro g f m
  unfold findMethod
  rw [bind_get, bind_get, show (m.retouched g f).classes = m.classes from rfl]
  cases m.classes.lookup? className with
  | none => rfl
  | some id =>
    dsimp only
    rw [bind_of_ok (forHost_onClasses _ m), bind_of_ok (forHost_onClasses _ (m.retouched g f))]
    rw [show (m.retouched g f).classes = m.classes from rfl]
    cases (ClassTable.resolveMethod id name descriptor m.classes).1 <;> rfl

theorem findMethod_unclaimed (hm : Unclaimed m) (className name descriptor : String) :
    Ends (findMethod className name descriptor m) (fun _ n => Unclaimed n) fun _ _ => True := by
  unfold findMethod
  rw [bind_get]
  cases m.classes.lookup? className with
  | none => trivial
  | some id =>
    dsimp only
    rw [bind_of_ok (forHost_onClasses _ m)]
    cases (ClassTable.resolveMethod id name descriptor m.classes).1 with
    | ok method => exact hm.withLinker _
    | error e => trivial

/-- A call that comes to an end does so in the same way with slices of another length, given the fuel. -/
theorem invoke_concludes (hm : Unclaimed m) (hcycles : 0 < cycles) {fuel fuel' : Nat}
    (henough : fuel * UInt32.size ≤ fuel') (className name descriptor : String) (args : List Value)
    (hconcluded : Concluded (invoke fuel className name descriptor args m)) :
    invoke fuel' className name descriptor args (m.retuned cycles) =
      retunedResult cycles (invoke fuel className name descriptor args m) := by
  have hfind := findMethod_unclaimed hm className name descriptor
  have hretuned : findMethod className name descriptor (m.retuned cycles) =
      retouchedResult (fun _ => cycles) id (findMethod className name descriptor m) :=
    oblivious_findMethod className name descriptor _ _ m
  unfold invoke at hconcluded ⊢
  cases hfound : findMethod className name descriptor m with
  | error e n =>
    rw [hfound] at hretuned
    rw [bind_of_error hfound, bind_of_error hretuned]
    rfl
  | ok method n =>
    rw [hfound] at hretuned
    rw [bind_of_ok hfound] at hconcluded ⊢
    rw [bind_of_ok hretuned]
    have hunclaimed : Unclaimed n := hfind.of_ok hfound
    have hsheltered : Sheltered [] n := ⟨hunclaimed, fun _ he => by cases he⟩
    have hshadows := (nested_shadows UInt32.toNat_lt_size hcycles henough).call method args hsheltered
    unfold forHost at hconcluded ⊢
    cases hrun : (nested fuel).call method args n with
    | ok v n' =>
      rw [hrun] at hshadows
      have hrun' := hshadows.1
      unfold Machine.retuned at hrun'
      rw [hrun']
      rfl
    | error e n' =>
      rw [hrun] at hshadows hconcluded
      by_cases he : e = .outOfFuel
      · subst he
        exact hconcluded.elim
      · have hrun' := (hshadows.of_error he).1
        unfold Machine.retuned at hrun'
        rw [hrun']
        cases e with
        | outOfFuel => exact absurd rfl he
        | exception r => rfl
        | fatal error => rfl

/-- A call of a host comes to an end with slices of one length if and only if it does with slices of
another, and then with the same value, exception or fatal error, and with machines that are the same but
for that length. -/
theorem invoke_sliceLength (hm : Unclaimed m) {c d : UInt32} (hc : 0 < c) (hd : 0 < d)
    (className name descriptor : String) (args : List Value) :
    ((∃ fuel, Concluded (invoke fuel className name descriptor args (m.retuned c))) ↔
      ∃ fuel, Concluded (invoke fuel className name descriptor args (m.retuned d))) ∧
    ∀ fuel fuel', Concluded (invoke fuel className name descriptor args (m.retuned c)) →
      Concluded (invoke fuel' className name descriptor args (m.retuned d)) → ∀ e,
        retunedResult e (invoke fuel className name descriptor args (m.retuned c)) =
          retunedResult e (invoke fuel' className name descriptor args (m.retuned d)) := by
  have hback : ∀ {a b : UInt32} {r : EStateM.Result HostError Machine (Option Value)},
      retunedResult b (retunedResult a r) = retunedResult b r := fun {_ _ r} => by cases r <;> rfl
  have hconcludes : ∀ {r : EStateM.Result HostError Machine (Option Value)} {a : UInt32},
      Concluded r → Concluded (retunedResult a r) := fun {r _} hr => by
    cases r with
    | ok v n => trivial
    | error e n => cases e <;> exact hr
  have hother : ∀ {a b : UInt32} {fuel : Nat} (fuel' : Nat), 0 < b → fuel * UInt32.size ≤ fuel' →
      Concluded (invoke fuel className name descriptor args (m.retuned a)) →
      invoke fuel' className name descriptor args (m.retuned b) =
        retunedResult b (invoke fuel className name descriptor args (m.retuned a)) :=
    fun {a _ _} _ hb henough hr => invoke_concludes (hm.retuned a) hb henough _ _ _ _ hr
  have hends : ∀ {a b : UInt32}, 0 < b →
      (∃ fuel, Concluded (invoke fuel className name descriptor args (m.retuned a))) →
      ∃ fuel, Concluded (invoke fuel className name descriptor args (m.retuned b)) :=
    fun hb ⟨_, hr⟩ => ⟨_, (hother _ hb (Nat.le_refl _) hr).symm ▸ hconcludes hr⟩
  refine ⟨⟨hends hd, hends hc⟩, fun fuel fuel' hr hr' e => ?_⟩
  -- with fuel enough for both, the machine with slices of length `d` comes to the one outcome and the other
  have hfirst := hother (max (fuel * UInt32.size) (fuel' * UInt32.size)) hd (Nat.le_max_left _ _) hr
  have hsecond := hother (max (fuel * UInt32.size) (fuel' * UInt32.size)) hd (Nat.le_max_right _ _) hr'
  rw [← hback (a := d), ← hfirst, hsecond, hback]

/-- Nobody holds a token on a heap where monitors are untouched. -/
theorem unclaimed_insert (config : Config) (now : UInt64) {object : Object} (hfresh : object.monitor = {}) :
    Unclaimed { (default : Machine) with
      heap := ((Heap.ofConfig config).insert object).2, scheduler := { now := now } } := by
  have hempty : Unclaimed { (default : Machine) with
      heap := Heap.ofConfig config, scheduler := { now := now } } := by
    refine ⟨fun id => rfl, fun t r hr => ?_, fun o n hn => ?_⟩
    · simp [Scheduler.get?] at hr
    · simp [Arena.monitor?, arena, Heap.get?, Heap.ofConfig] at hn
  exact hempty.passesBy (Q := fun _ => True)
    (Arena.passesBy_of_respects (Heap.insert_respects [] (Heap.ofConfig config) hfresh rfl)) rfl

theorem create_unclaimed {classes : ClassTable} {config : Config} {now : UInt64}
    (h : create classes config now = .ok m) : Unclaimed m := by
  obtain ⟨core, linker, id, object, -, hobject, rfl⟩ := create_eq h
  have hpinned : ((Heap.ofConfig config).insert object).2.Respects []
      (((Heap.ofConfig config).insert object).2.pin ((Heap.ofConfig config).insert object).1) :=
    Heap.pin_respects [] _ _
  exact (unclaimed_insert config now (by rw [hobject]; rfl)).passesBy (Q := fun _ => True)
    (Arena.passesBy_of_respects hpinned) rfl

theorem load_unclaimed {d : ClassDefinition} (hm : Unclaimed m) :
    Ends (load d m) (fun _ n => Unclaimed n) fun _ _ => True := by
  have hregister : Ends (forHost (onClasses (ClassTable.register d)) m) (fun _ n => Unclaimed n)
      fun _ _ => True := hm.withLinker _
  unfold load
  refine hregister.bind fun registered m₁ h₁ => ?_
  cases registered with
  | ok id => exact h₁.withLinker _
  | error e => trivial

/-- A class with a method that waits without end, and one that notifies and waits for a while. -/
def bell : ClassDefinition where
  name := "Bell"
  superName := some "java/lang/Object"
  constants :=
    [.type "Bell", .methodRef ⟨"java/lang/Object", "wait", "()V"⟩,
      .methodRef ⟨"java/lang/Object", "notify", "()V"⟩, .methodRef ⟨"java/lang/Object", "wait", "(J)V"⟩, .long 10]
  methods :=
    [{ name := "hang", descriptor := "()V", flags := ⟨0x0029⟩
       code := some { maxStack := 1, code := #[0x12, 1, 0xb6, 0, 2, 0xb1] } },
     { name := "ring", descriptor := "()I", flags := ⟨0x0029⟩
       code := some { maxStack := 3, code := #[0x12, 1, 0xc2, 0x12, 1, 0xb6, 0, 3, 0x12, 1, 0x14, 0, 5,
         0xb6, 0, 4, 0x12, 1, 0xc3, 0x07, 0xac] } }]

/-- A machine with that class and the classes it needs. -/
def belfry : Machine where
  config := {}
  linker :=
    [({ name := CoreName.object
        methods := [("wait", "()V"), ("wait", "(J)V"), ("notify", "()V")].map fun (name, descriptor) =>
          { name := name, descriptor := descriptor, flags := ⟨0x0100⟩ } } : ClassDefinition),
      { name := CoreName.type, superName := some CoreName.object }, { name := CoreName.string },
      { name := CoreName.throwable, fields := [⟨"message", "Ljava/lang/String;", {}⟩] },
      { name := CoreName.illegalMonitorState, superName := some CoreName.throwable }, bell].foldl
      (fun l d => (Linker.Request.register d).run l) {}
  core := { string := 2, type := 1, thread := 0, run := 0, messageSlot := some 0 }
  heap := ((Heap.ofConfig {}).insert (Object.instanceOf 0 [])).2
  outOfMemory := ⟨1⟩

theorem unclaimed_belfry : Unclaimed belfry :=
  have h := unclaimed_insert {} 0 (show (Object.instanceOf 0 []).monitor = {} from rfl)
  ⟨h.noHost, h.numbered, h.ticketed⟩

/-- How a call ended: with an error or with a result. -/
def ending : EStateM.Result HostError Machine (Option Value) → HostError ⊕ Option Value
  | .ok v _ => .inr v
  | .error e _ => .inl e

theorem concluded_of_ending {r : EStateM.Result HostError Machine (Option Value)} {v : Option Value}
    (h : ending r = .inr v) : Concluded r := by
  cases r with
  | ok v n => trivial
  | error e n => cases h

/-- The machine after a call, with numbers of threads that begin anew. -/
def renumbered : EStateM.Result HostError Machine (Option Value) → Machine
  | .ok _ m | .error _ m => { m with scheduler := {} }

theorem bell_endings : ∃ m, Unclaimed m ∧
    (ending (invoke 20 "Bell" "ring" "()I" [] (m.retuned 1)) = .inr (some (.int 4)) ∧
      ending (invoke 3 "Bell" "ring" "()I" [] (m.retuned 1000)) = .inr (some (.int 4))) ∧
    ending (invoke 20 "Bell" "ring" "()I" [] ((renumbered (invoke 3 "Bell" "hang" "()V" [] m)).retuned 1)) =
      .inl (.fatal (.inconsistent (.monitorCount 1 ⟨2⟩ 1 2))) ∧
    ending (invoke 3 "Bell" "ring" "()I" [] ((renumbered (invoke 3 "Bell" "hang" "()V" [] m)).retuned 1000)) =
      .inl (.uncaught ⟨4⟩ CoreName.illegalMonitorState (some "thread#1 does not own the monitor")) :=
  ⟨belfry, unclaimed_belfry, by decide +kernel⟩

theorem invoke_sliceLength_ringing : ∃ m : Machine, Unclaimed m ∧
    ending (invoke 20 "Bell" "ring" "()I" [] (m.retuned 1)) = .inr (some (.int 4)) ∧
    ending (invoke 3 "Bell" "ring" "()I" [] (m.retuned 1000)) = .inr (some (.int 4)) ∧
    ∀ e, retunedResult e (invoke 20 "Bell" "ring" "()I" [] (m.retuned 1)) =
      retunedResult e (invoke 3 "Bell" "ring" "()I" [] (m.retuned 1000)) := by
  obtain ⟨m, hm, ⟨hone, hmany⟩, _⟩ := bell_endings
  exact ⟨m, hm, hone, hmany, (invoke_sliceLength hm (by decide) (by decide)
    "Bell" "ring" "()I" []).2 20 3 (concluded_of_ending hone) (concluded_of_ending hmany)⟩

/-- The thread of a call that can never go on is gone, but its token has stayed in the monitor. When the
numbers of threads begin anew, another thread is taken for it: with slices of one instruction it is found
to own the monitor less deeply than it should, with longer ones it goes on and leaves the monitor too often. -/
theorem invoke_sliceLength_stale : ∃ m : Machine,
    ending (invoke 20 "Bell" "ring" "()I" [] (m.retuned 1)) =
      .inl (.fatal (.inconsistent (.monitorCount 1 ⟨2⟩ 1 2))) ∧
    ending (invoke 3 "Bell" "ring" "()I" [] (m.retuned 1000)) =
      .inl (.uncaught ⟨4⟩ CoreName.illegalMonitorState (some "thread#1 does not own the monitor")) :=
  have ⟨m, _, _, hone, hmany⟩ := bell_endings
  ⟨renumbered (invoke 3 "Bell" "hang" "()V" [] m), hone, hmany⟩

end Hosting

end ClassMachine.Machine
