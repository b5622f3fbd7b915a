import ClassMachine.Proofs.Machine.ArrayHosts
import ClassMachine.Proofs.Machine.PassageRuns
import ClassMachine.Proofs.Machine.InitializerRuns

/-!
What a host hands in, up to the time the method has it. Between the call and the first frame the initializers of
the class run, and collections with them. No collection knows the arguments by then: they stay only if no
initializer runs, or if a pin or some other thread has them.
-/
namespace ClassMachine

theorem ClassTable.Grows.pendingInit {t t' : ClassTable} (h : t.Grows t') {id : ClassId} {c' : ClassInfo}
    (hc' : t'.get? id = some c') (hp : c'.pendingInit = true) : ∃ c, t.get? id = some c ∧ c.pendingInit = true := by
  cases hc : t.get? id with
  | none =>
    rw [(h.added id c' hc hc').1.pendingInit] at hp
    cases hp
  | some c =>
    obtain ⟨c'', hc'', hprepares⟩ := h.known id c hc
    cases hc'.symm.trans hc''
    rw [hprepares.declared] at hp
    exact ⟨c, rfl, hp⟩

/-- The method of a call, and the machine in which it has its arguments: it is found, there is a thread for it, and
its class is initialized on that thread. -/
def Machine.entered? (fuel : Nat) (className name descriptor : String)
    (start : Scheduler FrameStack → Scheduler FrameStack) (m : Machine) : Option (MethodId × Machine) :=
  match findMethod className name descriptor m with
  | .error _ _ => none
  | .ok method found =>
    if found.scheduler.nextId = 0xffffffff then none
    else
      match ensureInitialized (nested fuel) found.scheduler.nextId method.owner
          { found with scheduler := start found.scheduler, active := [] } with
      | .ok _ m' => some (method, m')
      | .error _ _ => none

/-- A call that is made borrows its thread, and one that is started has one of its own. -/
def HostCall.entered? (m : Machine) : HostCall → Option (MethodId × Machine)
  | invoke (fuel + 1) className name descriptor _ => m.entered? fuel className name descriptor Machine.borrowing
  | spawn (fuel + 1) className name descriptor _ => m.entered? fuel className name descriptor (·.spawn .null [] |>.2)
  | _ => none

/-- What is left of a call made of `m` when its method has its arguments. Its thread is the next of `m`. -/
def HostCall.entering (m : Machine) (method : MethodId) : HostCall → HostM Unit
  | invoke (fuel + 1) _ _ _ args => do
    let body : MachineM (Option Value) := do
      match ← Machine.invokeMethod (Machine.nested fuel) m.scheduler.nextId method args with
      | .finished v => return v
      | _ =>
        modify (Machine.saveStack m.scheduler.nextId)
        Machine.driveSlices (Machine.nested fuel) m.scheduler.nextId method fuel
    let _ ← Machine.forHost (Machine.ensuring (Machine.ensuring body fun n => { n with active := m.active }) fun n =>
      { n with
        scheduler := Machine.retiring n.scheduler m.scheduler.nextId
        yieldRequested := m.yieldRequested })
  | spawn (fuel + 1) _ _ _ args => do
    let body : MachineM Unit := do
      match ← Machine.ensuring (Machine.invokeMethod (Machine.nested fuel) m.scheduler.nextId method args)
          (Machine.saveStack m.scheduler.nextId) with
      | .finished _ =>
        let _ ← Machine.onScheduler (·.terminate m.scheduler.nextId)
      | _ => return
    let _ ← Machine.forHost do
      match ← Machine.attempt (Machine.ensuring body fun n => { n with active := m.active }) with
      | .ok () => return m.scheduler.nextId
      | .error trap =>
        let _ ← Machine.onScheduler (·.terminate m.scheduler.nextId)
        throw trap
  | _ => return

/-- What a host hands in. -/
def HostCall.args : HostCall → List Value
  | invoke _ _ _ _ args | spawn _ _ _ _ args => args
  | _ => []

namespace Machine
open Stateful ClassTable

variable {m m' : Machine} {method : MethodId}

/-- To find a method is to ask about classes. -/
theorem findMethod_asks {className name descriptor : String} {found : Machine}
    (h : findMethod className name descriptor m = .ok method found) :
    ∃ t : ClassTable, m.classes.Asks t ∧ found = { m with linker := { m.linker with classes := t } } := by
  unfold findMethod at h
  rw [bind_get] at h
  cases hl : m.classes.lookup? className with
  | none =>
    rw [hl] at h
    cases h
  | some id =>
    rw [hl] at h
    obtain ⟨result, m₁, hresolve, h⟩ := bind_ok.1 h
    have hm₁ : ∃ t : ClassTable, m.classes.Asks t ∧ m₁ = { m with linker := { m.linker with classes := t } } := by
      cases hresolve
      exact ⟨_, resolveMethod_asks id name descriptor m.classes, rfl⟩
    cases result with
    | ok method' =>
      cases h
      exact hm₁
    | error e => cases h

theorem HostedLive.rostered (h : HostedLive m) : Rostered m := by
  induction h with
  | made hl h =>
    have hscheduler := (kept_by_create (R := fun _ _ => True) ⟨fun _ => trivial, fun _ _ => trivial,
      fun _ _ => trivial, fun _ => trivial⟩ h).2.2.2.1
    refine ⟨?_, ?_, ?_⟩ <;> intro t u hu <;> rw [hscheduler] at hu <;> simp [Scheduler.get?] at hu
  | @served m c h hc ih => exact (leaving_passed c ih).acts.rostered ih

/-- From `m` on a call has come to the initialization of its class, on the new thread `t`. -/
structure Opened (m opened : Machine) (t : ThreadId) : Prop where
  tended : ∃ pins, Tended t pins opened
  maintains : Maintains m opened
  heap : opened.heap = m.heap
  pending : ∀ id, opened.isPendingInit id = true → m.isPendingInit id = true
  acts : Acts (Hands none m) m opened
  thread : m.scheduler.nextId ≤ t

variable {found : Machine}

theorem Opened.of_asks (hm : Serving m) (hrostered : Rostered m) {table : ClassTable} (hasks : m.classes.Asks table)
    (hfound : found = { m with linker := { m.linker with classes := table } })
    (hid : found.scheduler.nextId ≠ 0xffffffff) :
    Opened m { found with scheduler := borrowing found.scheduler, active := [] } found.scheduler.nextId ∧
      Opened m { found with scheduler := (found.scheduler.spawn .null []).2, active := [] } found.scheduler.nextId := by
  have hidle : found.active = [] := hfound ▸ hm.idle
  have hserves : Serves m found := by
    have hrelinked := hm.relink (l := { m.linker with classes := table })
      (Linker.Consults.turns (Linker.Moves.consults (Linker.moves_of_asks hasks)))
      (Linker.Consults.bodies lasting_grounded (Linker.Moves.consults (Linker.moves_of_asks hasks))
        hm.furnished.moored hm.furnished.grounded)
    exact hfound ▸ hrelinked
  have hpending : ∀ id, found.isPendingInit id = true → m.isPendingInit id = true := by
    intro id hp
    rw [pending_iff] at hp ⊢
    obtain ⟨c', hc', hp⟩ := hp
    subst hfound
    exact hasks.grows.pendingInit hc' hp
  have hfinds : Acts (Hands none m) m found :=
    (Passed.aside (by rw [hfound]) (.of_objects_eq (by rw [hfound]))).acts
  have hrost : Rostered found := hfinds.rostered hrostered
  obtain ⟨pins, htidy⟩ := hserves.serving.tidy
  have hstart : found.scheduler.nextId = m.scheduler.nextId := by rw [hfound]
  have hactive : ∀ s, ({ found with scheduler := s, active := [] } : Machine) = { found with scheduler := s } := by
    intro s
    rw [← hidle]
  rw [hactive, hactive]
  refine ⟨⟨⟨pins, htidy.borrowing hid⟩, hserves.maintains.trans (borrowing_maintains hserves.serving.furnished),
    by rw [hfound], hpending, hfinds.trans (Acts.borrow hid), hstart ▸ UInt32.le_refl _⟩, ?_⟩
  have hspawn : spawnThread .null found =
      .ok found.scheduler.nextId { found with scheduler := (found.scheduler.spawn .null []).2 } := if_neg hid
  obtain ⟨htidy', _, _, ⟨u, hu, hstack, _⟩, _⟩ := (spawnThread_tidy htidy found.heap.names_null).of_ok hspawn
  have hspawned := (spawnThread_maintains .null found hserves.serving.furnished).of_ok hspawn
  have hacts : Acts (Hands none m) found { found with scheduler := (found.scheduler.spawn .null []).2 } :=
    (Passed.start hrost hid fun hnull => by cases hnull).acts
  exact ⟨⟨pins, htidy', u, hu, hstack⟩, hserves.maintains.trans hspawned, by rw [hfound], hpending,
    hfinds.trans hacts, hstart ▸ UInt32.le_refl _⟩

theorem entered?_eq_some {fuel : Nat} {className name descriptor : String}
    {start : Scheduler FrameStack → Scheduler FrameStack}
    (h : m.entered? fuel className name descriptor start = some (method, m')) :
    ∃ found, findMethod className name descriptor m = .ok method found ∧ found.scheduler.nextId ≠ 0xffffffff ∧
      ensureInitialized (nested fuel) found.scheduler.nextId method.owner
        { found with scheduler := start found.scheduler, active := [] } = .ok () m' := by
  unfold entered? at h
  cases hfound : findMethod className name descriptor m with
  | error e found =>
    rw [hfound] at h
    cases h
  | ok method' found =>
    rw [hfound] at h
    dsimp only at h
    split at h
    · cases h
    · next hid =>
      split at h
      · next hrun =>
        cases h
        exact ⟨found, rfl, hid, hrun⟩
      · cases h

theorem ensuring_congr {α : Type} {x y : MachineM α} {after : Machine → Machine} (h : x m = y m') :
    ensuring x after m = ensuring y after m' := by
  unfold ensuring
  rw [h]

theorem onFreshStack_of_ok {α β : Type} {x : MachineM α} {f : α → MachineM β} {a : α}
    (h : x { m with active := [] } = .ok a m') :
    onFreshStack (x >>= f) m = ensuring (f a) (fun n => { n with active := m.active }) m' :=
  ensuring_congr (bind_of_ok h)

theorem forHost_congr {α : Type} {x y : MachineM α} (h : x m = y m') : forHost x m = forHost y m' := by
  unfold forHost
  rw [h]

theorem bind_congr_left {ε α β : Type} {x y : EStateM ε Machine α} {f : α → EStateM ε Machine β} (h : x m = y m') :
    (x >>= f) m = (y >>= f) m' := by
  show EStateM.bind x f m = EStateM.bind y f m'
  unfold EStateM.bind
  rw [h]

theorem attempt_congr {α : Type} {x y : MachineM α} (h : x m = y m') : attempt x m = attempt y m' := by
  unfold attempt
  rw [h]

/-- A call goes through where its method has its arguments, and goes on from there. -/
theorem serve_of_entered {c : HostCall} (hc : c.entered? m = some (method, m')) :
    c.serve m = c.entering m method m' := by
  unfold HostCall.entered? at hc
  split at hc
  · next fuel className name descriptor args =>
    obtain ⟨found, hfound, hid, hrun⟩ := entered?_eq_some hc
    obtain ⟨table, -, rfl⟩ := findMethod_asks hfound
    refine bind_congr_left ?_
    show Machine.invoke (fuel + 1) className name descriptor args m = _
    unfold Machine.invoke
    rw [bind_of_ok hfound]
    refine forHost_congr ?_
    show runSynthetic (nested fuel) fuel method args _ = _
    rw [runSynthetic_eq, if_neg hid]
    exact ensuring_congr (onFreshStack_of_ok hrun)
  · next fuel className name descriptor args =>
    obtain ⟨found, hfound, hid, hrun⟩ := entered?_eq_some hc
    have hspawn : spawnThread .null found =
        .ok found.scheduler.nextId { found with scheduler := (found.scheduler.spawn .null []).2 } := if_neg hid
    obtain ⟨table, -, rfl⟩ := findMethod_asks hfound
    refine bind_congr_left ?_
    show Machine.spawn (fuel + 1) className name descriptor args m = _
    unfold Machine.spawn
    rw [bind_of_ok hfound]
    refine forHost_congr ?_
    rw [bind_of_ok hspawn]
    exact bind_congr_left (attempt_congr (onFreshStack_of_ok hrun))
  · cases hc

/-- Run on `m`, `x` breaks off. -/
def BreaksOff {ε α : Type} (x : EStateM ε Machine α) (m : Machine) : Prop := ∃ e m', x m = .error e m'

theorem BreaksOff.bind {ε α β : Type} {x : EStateM ε Machine α} {f : α → EStateM ε Machine β} (h : BreaksOff x m) :
    BreaksOff (x >>= f) m := by
  obtain ⟨e, m', hr⟩ := h
  exact ⟨e, m', bind_of_error hr⟩

theorem BreaksOff.forHost {α : Type} {x : MachineM α} (h : BreaksOff x m) : BreaksOff (forHost x) m := by
  obtain ⟨e, m', hr⟩ := h
  refine ⟨m'.hostError e, m', ?_⟩
  unfold Machine.forHost
  rw [hr]

theorem BreaksOff.ensuring {α : Type} {x : MachineM α} {after : Machine → Machine} (h : BreaksOff x m) :
    BreaksOff (ensuring x after) m := by
  obtain ⟨e, m', hr⟩ := h
  refine ⟨e, after m', ?_⟩
  unfold Machine.ensuring
  rw [hr]

theorem BreaksOff.onFreshStack {α β : Type} {x : MachineM α} {f : α → MachineM β}
    (h : BreaksOff x { m with active := [] }) : BreaksOff (onFreshStack (x >>= f)) m := BreaksOff.ensuring h.bind

/-- A method without its arguments comes of a call that fails before. -/
theorem entered?_eq_none {fuel : Nat} {className name descriptor : String}
    {start : Scheduler FrameStack → Scheduler FrameStack}
    (h : m.entered? fuel className name descriptor start = none) :
    BreaksOff (findMethod className name descriptor) m ∨
    ∃ method found, findMethod className name descriptor m = .ok method found ∧
      (found.scheduler.nextId = 0xffffffff ∨ found.scheduler.nextId ≠ 0xffffffff ∧
        BreaksOff (ensureInitialized (nested fuel) found.scheduler.nextId method.owner)
          { found with scheduler := start found.scheduler, active := [] }) := by
  unfold entered? at h
  cases hfound : findMethod className name descriptor m with
  | error e found => exact .inl ⟨e, found, hfound⟩
  | ok method found =>
    rw [hfound] at h
    dsimp only at h
    refine .inr ⟨method, found, rfl, ?_⟩
    split at h
    · next hid => exact .inl hid
    · next hid =>
      split at h
      · cases h
      · next e m' hrun => exact .inr ⟨hid, e, m', hrun⟩

/-- A call that does not come to its method fails. -/
theorem invoke_breaksOff {fuel : Nat} {className name descriptor : String} {args : List Value}
    (h : HostCall.entered? m (.invoke fuel className name descriptor args) = none) :
    BreaksOff (HostCall.serve (.invoke fuel className name descriptor args)) m := by
  refine BreaksOff.bind ?_
  show BreaksOff (Machine.invoke fuel className name descriptor args) m
  unfold Machine.invoke
  have hcall : ∀ method found, findMethod className name descriptor m = .ok method found →
      BreaksOff ((nested fuel).call method args) found →
      BreaksOff (findMethod className name descriptor >>= fun method => forHost ((nested fuel).call method args)) m := by
    intro method found hfound hfails
    obtain ⟨e, m', hr⟩ := hfails.forHost
    exact ⟨e, m', (bind_of_ok hfound).trans hr⟩
  cases fuel with
  | zero =>
    cases hfound : findMethod className name descriptor m with
    | error e found => exact BreaksOff.bind ⟨e, found, hfound⟩
    | ok method found => exact hcall method found hfound ⟨_, _, rfl⟩
  | succ fuel =>
    rcases entered?_eq_none h with hmissing | ⟨method, found, hfound, hrest⟩
    · exact hmissing.bind
    refine hcall method found hfound ?_
    show BreaksOff (runSynthetic (nested fuel) fuel method args) found
    rcases hrest with hid | ⟨hid, hinit⟩
    · exact ⟨_, _, by rw [runSynthetic_eq, if_pos hid]⟩
    · unfold BreaksOff
      rw [runSynthetic_eq, if_neg hid]
      exact BreaksOff.ensuring (BreaksOff.onFreshStack (m := { found with scheduler := borrowing found.scheduler }) hinit)

theorem spawn_breaksOff {fuel : Nat} {className name descriptor : String} {args : List Value}
    (h : HostCall.entered? m (.spawn fuel className name descriptor args) = none) :
    BreaksOff (HostCall.serve (.spawn fuel className name descriptor args)) m := by
  refine BreaksOff.bind ?_
  show BreaksOff (Machine.spawn fuel className name descriptor args) m
  unfold Machine.spawn
  cases hfound : findMethod className name descriptor m with
  | error e found => exact BreaksOff.bind ⟨e, found, hfound⟩
  | ok method found =>
    unfold BreaksOff
    rw [bind_of_ok hfound]
    refine BreaksOff.forHost ?_
    by_cases hid : found.scheduler.nextId = 0xffffffff
    · exact BreaksOff.bind ⟨_, _, if_pos hid⟩
    have hspawn : spawnThread .null found =
        .ok found.scheduler.nextId { found with scheduler := (found.scheduler.spawn .null []).2 } := if_neg hid
    have henter : BreaksOff ((nested fuel).enter found.scheduler.nextId method args)
        { found with scheduler := (found.scheduler.spawn .null []).2 } := by
      cases fuel with
      | zero => exact ⟨_, _, rfl⟩
      | succ fuel =>
        have hnone : m.entered? fuel className name descriptor (·.spawn .null [] |>.2) = none := h
        rcases entered?_eq_none hnone with ⟨e, m', hmissing⟩ | ⟨method', found', hfound', hrest⟩
        · cases hfound.symm.trans hmissing
        · cases hfound.symm.trans hfound'
          rcases hrest with hspent | ⟨-, hinit⟩
          · exact (hid hspent).elim
          · exact BreaksOff.onFreshStack hinit
    obtain ⟨e, m', hr⟩ := henter
    have hattempt : attempt ((nested fuel).enter found.scheduler.nextId method args)
        { found with scheduler := (found.scheduler.spawn .null []).2 } = .ok (.error e) m' := by
      unfold attempt
      rw [hr]
    unfold BreaksOff
    rw [bind_of_ok hspawn, bind_of_ok hattempt]
    exact ⟨e, _, rfl⟩

theorem Opened.of_entered (hm : Serving m) (hrostered : Rostered m) {c : HostCall}
    (hc : c.entered? m = some (method, m')) : ∃ fuel opened t, Opened m opened t ∧
      ensureInitialized (nested fuel) t method.owner opened = .ok () m' := by
  unfold HostCall.entered? at hc
  split at hc
  · obtain ⟨found, hfound, hid, hrun⟩ := entered?_eq_some hc
    obtain ⟨table, hasks, heq⟩ := findMethod_asks hfound
    exact ⟨_, _, _, (Opened.of_asks hm hrostered hasks heq hid).1, hrun⟩
  · obtain ⟨found, hfound, hid, hrun⟩ := entered?_eq_some hc
    obtain ⟨table, hasks, heq⟩ := findMethod_asks hfound
    exact ⟨_, _, _, (Opened.of_asks hm hrostered hasks heq hid).2, hrun⟩
  · cases hc

/-- What a method is handed and is live at the call. It is as it was where no initializer runs. Whatever
initializers run, it stays live if it is pinned, and if a thread has it, in its frames or as its object. -/
theorem argument_stays (h : HostedLive m) {c : HostCall} (hc : c.entered? m = some (method, m')) :
    ∀ r, Value.ref r ∈ c.args → r.isNull = false → ∀ o, m.heap.get? r = some o →
      (m.isPendingInit method.owner = false → m'.heap.get? r = some o) ∧
      (r ∈ m.heap.pinned → ∃ o', m'.heap.get? r = some o' ∧ o'.type = o.type) ∧
      (∀ t u, m.scheduler.get? t = some u → r ∈ u.refs → (m'.heap.get? r).isSome) := by
  intro r _ hnull o ho
  obtain ⟨fuel, opened, t, hopened, hrun⟩ := Opened.of_entered h.serving h.rostered hc
  obtain ⟨pins, htended⟩ := hopened.tended
  have hrostered : Rostered opened := hopened.acts.rostered h.rostered
  refine ⟨fun hpending => ?_, fun hpinned => ?_, fun j u hu hmem => ?_⟩
  · have hdone : ensureInitialized (nested fuel) t method.owner opened = .ok () opened := by
      unfold ensureInitialized
      rw [bind_get, if_neg fun hp => by rw [hopened.pending _ hp] at hpending; cases hpending]
      rfl
    cases hdone.symm.trans hrun
    rw [hopened.heap, ho]
  · have hkept := (ensureInitialized_upkeep (nested_furnishing fuel) htended hopened.maintains.furnished
      method.owner).of_ok hrun
    exact (hopened.maintains.trans hkept).held r hpinned o ho
  · have hentered := (ensureInitialized_tended (nested_settled fuel) htended method.owner).of_ok hrun
    have hpassed : Passes (Hands (some t) opened) .idle _ _ opened :=
      ensureInitialized_passing (nested_passing fuel) method.owner opened hrostered fun i hi => by
        cases hi
        obtain ⟨v, hv, -⟩ := htended.running
        simp [hv]
    have hacts : Acts (Hands none m) opened m' := by
      have hacts := hpassed.passed.acts
      rw [hrun] at hacts
      refine hacts.mono ?_
      rintro i (hi | hi)
      · cases hi
        exact .inr hopened.thread
      · exact .inr (UInt32.le_trans hopened.acts.nextId_le hi)
    have hold : ¬Hands none m j := by
      rintro (hj | hj)
      · cases hj
      · rw [h.rostered.fresh hj] at hu
        cases hu
    obtain ⟨u', hu', hspared⟩ := Acts.bides (hopened.acts.trans hacts) h.rostered hold hu
    have hrefs : u'.refs = u.refs := by
      unfold Thread.refs
      rw [hspared.object, hspared.pending, hspared.stack]
    have hwithin := (Thread.within_iff_refs fun _ => m'.heap.names_of_isNull).1
      (hentered.tidy.closed.threads j u' hu') r (hrefs ▸ hmem)
    exact Heap.names_iff_get?.1 hwithin hnull

section Keeper

/-- A class with a method that does nothing, and one that returns what it is given. -/
def keeper : ClassDefinition where
  name := "Keeper"
  superName := some objectClass
  methods := [
    { name := "start", descriptor := "()V", flags := ⟨0x0009⟩, code := some { code := #[0xb1] } },
    { name := "keep", descriptor := "(Ljava/lang/Object;)Ljava/lang/Object;", flags := ⟨0x0009⟩
      code := some { maxStack := 1, maxLocals := 1, code := #[0x2a, 0xb0] } }]

def keep (r : Ref) : HostCall :=
  .invoke 40 "Keeper" "keep" "(Ljava/lang/Object;)Ljava/lang/Object;" [.ref r]

theorem argument_stays_kept : ∃ m method m', HostedLive m ∧ (keep ⟨2⟩).entered? m = some (method, m') ∧
    m.isPendingInit method.owner = false ∧ ∃ o, m.heap.get? ⟨2⟩ = some o ∧ m'.heap.get? ⟨2⟩ = some o := by
  have hrun : ((create {} {} 0).toOption.bind
      (serveReady [.load keeper, .invoke 40 "Keeper" "start" "()V" [], .newString "kept"])).any (fun m =>
        ((keep ⟨2⟩).entered? m).any fun p => !m.isPendingInit p.1.owner && (m.heap.get? ⟨2⟩).isSome) = true := by
    decide +kernel
  obtain ⟨m, hm, hrun⟩ := (Option.any_eq_true ..).1 hrun
  obtain ⟨⟨method, m'⟩, hentered, hholds⟩ := (Option.any_eq_true ..).1 hrun
  obtain ⟨hpending, hlive⟩ := Bool.and_eq_true_iff.1 hholds
  obtain ⟨o, ho⟩ := Option.isSome_iff_exists.1 hlive
  obtain ⟨m₀, hcreate, hserve⟩ := Option.bind_eq_some_iff.1 hm
  have hmade : HostedLive m₀ := .made (l := {}) ⟨.generic, .refl⟩ (created_of_toOption hcreate)
  have hhosted : HostedLive m := hmade.serveReady hserve
  have hdone : m.isPendingInit method.owner = false := by simpa using hpending
  obtain ⟨hsame, -⟩ := argument_stays hhosted hentered ⟨2⟩ (by simp [keep, HostCall.args]) rfl o ho
  exact ⟨m, method, m', hhosted, hentered, hdone, o, ho, hsame hdone⟩

end Keeper

end Machine

end ClassMachine
