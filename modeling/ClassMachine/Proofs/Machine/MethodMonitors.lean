import ClassMachine.Proofs.Machine.BalanceRun
import ClassMachine.Proofs.Machine.Creation

/-!
Monitors of methods match frames, in every state of every run. A machine is made, loads classes whose
methods do not enter or leave monitors themselves, and serves whatever the host asks of it. Then, between
any two instructions, a thread owns a monitor as many times as it has frames that are left with it, and
a thread that has ended owns none.
-/
namespace ClassMachine

/-- Brings no instructions for monitors. -/
def HostCall.isUnmonitored : HostCall → Bool
  | load d => d.isUnmonitored
  | _ => true

/-- A machine that cannot go on. -/
def HostError.isFatal : HostError → Bool
  | fatal _ | outOfFuel => true
  | _ => false

/-- How a machine is left by an error, unless it is fatal. -/
def HostError.Leaves (P : Machine → Prop) (e : HostError) (m : Machine) : Prop := e.isFatal = false → P m

/-- The call comes to an end and leaves the machine as given, which is not broken for good. -/
def HostCall.Leads (c : HostCall) (m m' : Machine) : Prop :=
  c.serve m = .ok () m' ∨ ∃ e, c.serve m = .error e m' ∧ e.isFatal = false

namespace Machine
open Stateful

/-- Machines whose classes have no instructions for monitors, and that have no natives of the host. -/
inductive Attained : Machine → Prop
  | made {ds : List ClassDefinition} {classes : ClassTable} {config : Config} {now : UInt64} {m : Machine}
      (hloaded : ClassTable.Loaded ds classes) (hds : ∀ d ∈ ds, d.isUnmonitored = true)
      (h : create classes config now = .ok m) : Attained m
  | served {m m' : Machine} {c : HostCall} (h : Attained m) (hc : c.isUnmonitored = true)
      (hleads : c.Leads m m') : Attained m'

section Serving

variable {α : Type} {look : Observer} {m : Machine}

theorem Same.forHost {x y : MachineM α} {Q : α → Machine → Prop} {P : Machine → Prop}
    (h : Same x y m Q (Trap.Leaves P)) :
    Same (forHost x) (forHost y) m Q (HostError.Leaves P) := by
  have hends := h.ends
  refine ⟨?_, ?_⟩
  · unfold Machine.forHost
    rw [h.eq]
  · unfold Machine.forHost
    cases hr : x m with
    | ok a m' => exact hends.of_ok hr
    | error e m' =>
      have hleaves := hends.of_error hr
      cases e with
      | exception r => exact fun _ => hleaves
      | fatal error => exact fun hfatal => by cases hfatal
      | outOfFuel => exact fun hfatal => by cases hfatal

theorem Fair.forHost {x : MachineM α} (hx : Fair none [] x) (hm : Poised none [] m) :
    Ends (forHost x m) (fun _ m' => Poised none [] m') (HostError.Leaves (Poised none [])) :=
  (Same.of_ends (hx m hm)).forHost.ends

theorem findMethod_poised (hm : Poised none [] m) (className name descriptor : String) :
    Ends (findMethod className name descriptor m) (fun _ m' => Poised none [] m')
      (HostError.Leaves (Poised none [])) := by
  unfold findMethod
  rw [bind_get]
  cases m.classes.lookup? className with
  | none => exact fun _ => hm
  | some id =>
    refine (Fair.forHost (.onClasses (ClassTable.resolveMethod_asks id name descriptor)) hm).bind
      fun found m₁ h₁ => ?_
    cases found with
    | ok method => exact h₁
    | error e => exact fun _ => h₁

theorem load_poised (hm : Poised none [] m) {d : ClassDefinition} (hd : d.isUnmonitored = true) :
    Ends (load d m) (fun _ m' => Poised none [] m') (HostError.Leaves (Poised none [])) := by
  have hregister : Fair none [] (onClasses (ClassTable.register d)) :=
    .onLinker fun l hl => hl.register hd
  unfold load
  refine (Fair.forHost hregister hm).bind fun result m₁ h₁ => ?_
  cases result with
  | ok id => exact (Fair.forHost (.prepare id) h₁).bind fun _ _ h₂ => h₂
  | error e => exact fun _ => h₁

theorem invokeWith_same {k l : Nested} (hk : k.Fair l) (hm : Poised none [] m)
    (className name descriptor : String) (args : List Value) :
    Same (invokeWith k className name descriptor args) (invokeWith l className name descriptor args) m
      (fun _ m' => Poised none [] m') (HostError.Leaves (Poised none [])) := by
  unfold invokeWith
  refine (Same.of_ends (findMethod_poised hm className name descriptor)).bind fun method m₁ h₁ => ?_
  exact (hk.call [] method args m₁ h₁).forHost

theorem spawnWith_same {k l : Nested} (hk : k.Fair l) (hm : Poised none [] m)
    (className name descriptor : String) (args : List Value) :
    Same (spawnWith k className name descriptor args) (spawnWith l className name descriptor args) m
      (fun _ m' => Poised none [] m') (HostError.Leaves (Poised none [])) := by
  unfold spawnWith
  refine (Same.of_ends (findMethod_poised hm className name descriptor)).bind fun method m₁ h₁ => ?_
  refine Same.forHost ?_
  have hspawn := (spawnThread_poised h₁ .null).mono (fun _ _ h => h)
    fun e m' (h : e.Leaves (fun _ => False) m') => h.mono (Q := Poised none []) fun _ => False.elim
  refine (Same.of_ends hspawn).bind fun thread m₂ ⟨_, h₂, hframes, _⟩ => ?_
  refine (hk.enter [] thread method args m₂ h₂ (by simp) hframes).attempt.bind fun result m₃ h₃ => ?_
  cases result with
  | ok u => exact .of_ends h₃
  | error trap =>
    cases trap with
    | exception r => exact .of_ends (h₃.1.terminate (by simp) (by simp) h₃.2)
    | fatal error => exact .of_ends trivial
    | outOfFuel => exact .of_ends trivial

/-- A host that looks sees nothing as long as monitors match frames, and they do. -/
theorem serve_same (hl : look.Silent) {c : HostCall} (hc : c.isUnmonitored = true) (hm : Poised none [] m) :
    Same c.serve (c.watched look) m (fun _ m' => Poised none [] m') (HostError.Leaves (Poised none [])) := by
  have hdone : ∀ {α : Type} {x y : HostM α}, Same x y m (fun _ m' => Poised none [] m')
      (HostError.Leaves (Poised none [])) → Same (do let _ ← x) (do let _ ← y) m
        (fun _ m' => Poised none [] m') (HostError.Leaves (Poised none [])) :=
    fun h => h.bind fun _ _ h' => .of_ends h'
  cases c with
  | load d => exact hdone (.of_ends (load_poised hm hc))
  | invoke fuel className name descriptor args =>
    exact hdone (invokeWith_same (nested_fair hl fuel) hm className name descriptor args)
  | spawn fuel className name descriptor args =>
    exact hdone (spawnWith_same (nested_fair hl fuel) hm className name descriptor args)
  | step fuel => exact hdone (step_same hl fuel hm).forHost
  | run fuel => exact hdone (runSlices_same hl fuel fuel hm).forHost
  | send r => exact .of_ends (hm.withScheduler rfl rfl rfl)
  | attach t =>
    exact .of_ends (hm.calm (wakes_calm (m.scheduler.attach_wakes t))
      (Scheduler.attach_rotates hm.orderly.rotates t))
  | interrupt t =>
    exact .of_ends (hm.calm (wakes_calm (m.scheduler.interrupt_wakes t))
      (Scheduler.interrupt_rotates hm.orderly.rotates t))
  | advance millis => exact .of_ends (hm.withScheduler rfl rfl rfl)
  | newString text => exact hdone (.of_ends (Fair.forHost (stringObject_fair text) hm))
  | collect => exact hdone (.of_ends (Fair.forHost collectGarbage_fair hm))

/-- The observer finds nothing to object to, so what it would have seen is as it says. -/
theorem matched_of_visits {c : HostCall} (hc : c.isUnmonitored = true) (hm : Poised none [] m)
    {running : Option ThreadId} {n : Machine} (hv : c.Visits m running n) : Matched running n := by
  obtain ⟨look, hidle, hne⟩ := hv
  by_contra hunmatched
  have hsilent : look.Silent := by
    intro r n' hn'
    refine hidle r n' ?_
    rintro ⟨rfl, rfl⟩
    exact hunmatched hn'
  exact hne (serve_same hsilent hc hm).eq

theorem Poised.leads {c : HostCall} (hc : c.isUnmonitored = true) (hm : Poised none [] m) {m' : Machine}
    (h : c.Leads m m') : Poised none [] m' := by
  have hsilent : Observer.idle.Silent := fun _ _ _ => rfl
  have hends := (serve_same hsilent hc hm).ends
  rcases h with hok | ⟨e, he, hlasting⟩
  · exact hends.of_ok hok
  · exact hends.of_error he hlasting

end Serving

section Making

variable {m : Machine}

theorem unmonitored_of_loaded {ds : List ClassDefinition} {t : ClassTable} (h : ClassTable.Loaded ds t)
    (hds : ∀ d ∈ ds, d.isUnmonitored = true) : t.Unmonitored := by
  induction h with
  | empty =>
    intro id c hc
    simp [ClassTable.get?] at hc
  | load h hload ih =>
    have hold := ih fun d hd => hds d (List.mem_append_left _ hd)
    exact hold.load (hds _ (List.mem_append_right _ (List.mem_singleton.2 rfl))) hload
  | grows h hgrows ih => exact hgrows.unmonitored (ih hds)
  | initialized h id ih => exact (ih hds).takePendingInit id

/-- Leaves classes without instructions for monitors as they are, or adds such classes. -/
def Harmless {α : Type} (x : StateT Linker (Except HostError) α) : Prop :=
  ∀ l a l', x.run l = .ok (a, l') → l.classes.Unmonitored → l'.classes.Unmonitored

theorem Harmless.bind {α β : Type} {x : StateT Linker (Except HostError) α}
    {f : α → StateT Linker (Except HostError) β} (hx : Harmless x) (hf : ∀ a, Harmless (f a)) :
    Harmless (x >>= f) := by
  intro l b l' hrun hl
  obtain ⟨a, l₁, hrun₁, hrun₂⟩ := run_bind_ok.1 hrun
  exact hf a l₁ b l' hrun₂ (hx l a l₁ hrun₁ hl)

theorem Harmless.pure {α : Type} (a : α) : Harmless (Pure.pure a) := by
  intro l b l' hrun hl
  cases hrun
  exact hl

theorem harmless_ofLinker {α : Type} {x : StateM Linker α}
    (hx : ∀ l, l.classes.Unmonitored → (x l).2.classes.Unmonitored) : Harmless (ofLinker x) := by
  intro l a l' hrun hl
  have hafter := hx l hl
  rwa [show x l = (a, l') from Except.ok.inj hrun] at hafter

theorem harmless_onClasses {α : Type} {x : StateM ClassTable α}
    (hx : ∀ t : ClassTable, t.Unmonitored → (x t).2.Unmonitored) :
    Harmless (ofLinker (Linker.onClasses x)) := harmless_ofLinker fun l hl => hx l.classes hl

theorem harmless_prepare (id : ClassId) : Harmless (ofLinker (Linker.prepare id)) :=
  harmless_ofLinker fun l hl => (Linker.prepare_grows id l).classes.unmonitored hl

theorem harmless_coreClass (name : String) : Harmless (coreClass name) := by
  intro l a l' hrun hl
  obtain ⟨l₁, l₂, hget, hrun⟩ := run_bind_ok.1 hrun
  cases hget
  cases hlookup : l.classes.lookup? name with
  | none =>
    rw [hlookup] at hrun
    cases hrun
  | some id =>
    rw [hlookup] at hrun
    cases hrun
    exact hl

theorem harmless_installCore : Harmless installCore := by
  unfold installCore
  refine (harmless_onClasses fun t ht => Core.install_unmonitored ht).bind fun result => ?_
  cases result with
  | ok installed => exact .pure _
  | error e => exact fun l a l' hrun => by cases hrun

theorem harmless_findCore : Harmless findCore := by
  unfold findCore
  refine (harmless_coreClass _).bind fun throwable => (harmless_prepare throwable).bind fun prepared => ?_
  refine (harmless_coreClass _).bind fun string => (harmless_coreClass _).bind fun type => ?_
  refine (harmless_coreClass _).bind fun thread => ?_
  exact (harmless_ofLinker fun l hl => hl).bind fun run => .pure _

theorem harmless_outOfMemoryObject : Harmless outOfMemoryObject :=
  (harmless_coreClass _).bind fun id => (harmless_prepare id).bind fun _ => .pure _

theorem monitor?_ofConfig (config : Config) (r : Ref) : (Heap.ofConfig config).monitor? r = none := by
  simp [Heap.monitor?, Heap.get?, Heap.ofConfig]

theorem addressed_ofConfig (config : Config) : (Heap.ofConfig config).Addressed :=
  ⟨show (1 : UInt32) ≠ 0 by decide, Option.map_eq_none_iff.1 (monitor?_ofConfig config .null)⟩

theorem get?_clock (now : UInt64) (t : ThreadId) : ({ now := now } : Scheduler FrameStack).get? t = none := by
  simp [Scheduler.get?]

theorem orderly_ofConfig (config : Config) (now : UInt64) :
    (⟨Heap.ofConfig config, { now := now }⟩ : Arena FrameStack).Orderly := by
  have hnone : ∀ {t : ThreadId} {r : Thread FrameStack} {P : Prop},
      ({ now := now } : Scheduler FrameStack).get? t = some r → P := fun hr => by
    rw [get?_clock] at hr
    cases hr
  refine ⟨fun o n hn => ?_, fun o n hn => ?_, fun o n hn => ?_, fun t r p hr => hnone hr,
    fun t r hr => hnone hr, fun t ht => by cases ht⟩
  all_goals
    rw [show (⟨Heap.ofConfig config, { now := now }⟩ : Arena FrameStack).monitor? o = none
      from monitor?_ofConfig config o] at hn
    cases hn

/-- A machine without threads, and with nothing on its heap. -/
theorem poised_empty (config : Config) {linker : Linker} (hl : linker.classes.Unmonitored)
    (core : CoreClasses) (outOfMemory : Ref) (now : UInt64) :
    Poised none [] { config := config, linker := linker, heap := Heap.ofConfig config, core := core
                     outOfMemory := outOfMemory, scheduler := { now := now } } := by
  have hnone : ∀ {t : ThreadId} {r : Thread FrameStack} {P : Prop},
      ({ now := now } : Scheduler FrameStack).get? t = some r → P := fun hr => by
    rw [get?_clock] at hr
    cases hr
  have hframes : ∀ t, framesOf none { config := config, linker := linker, heap := Heap.ofConfig config
                                      core := core, outOfMemory := outOfMemory
                                      scheduler := { now := now } } t = [] := fun t =>
    framesOf_missing (by simp) (get?_clock now t)
  refine ⟨⟨orderly_ofConfig config now, fun t o => ?_, fun t r hr => hnone hr, addressed_ofConfig config,
    fun t f hf => ?_, hl, fun id => rfl⟩, (fun t ht => by cases ht), rfl⟩
  · have hdepth : (⟨Heap.ofConfig config, { now := now }⟩ : Arena FrameStack).depth t o = 0 := by
      show (((Heap.ofConfig config).monitor? o).map (·.depth t)).getD 0 = 0
      rw [monitor?_ofConfig]
      rfl
    rw [hframes]
    refine (Arena.stake_of_elsewhere fun p hp => ?_).trans hdepth
    obtain ⟨r, hr, _⟩ := Option.bind_eq_some_iff.1 hp
    exact hnone hr
  · rw [hframes] at hf
    cases hf

theorem outOfMemoryObject_idle {l l' : Linker} {object : Object}
    (h : outOfMemoryObject.run l = .ok (object, l')) : object.monitor = {} := by
  obtain ⟨_, _, _, h⟩ := run_bind_ok.1 h
  obtain ⟨_, _, _, h⟩ := run_bind_ok.1 h
  cases h
  rfl

theorem create_poised {classes : ClassTable} (hclasses : classes.Unmonitored) {config : Config}
    {now : UInt64} (h : create classes config now = .ok m) : Poised none [] m := by
  unfold create at h
  cases hv : config.validate with
  | error e =>
    rw [hv] at h
    cases h
  | ok u =>
    rw [hv] at h
    obtain ⟨⟨⟨core, object⟩, linker⟩, hrun, h⟩ := except_bind_ok.1 h
    cases h
    obtain ⟨_, l₁, hinstall, hrun⟩ := run_bind_ok.1 hrun
    obtain ⟨_, l₂, hfind, hrun⟩ := run_bind_ok.1 hrun
    obtain ⟨object', l₃, hobject, hrun⟩ := run_bind_ok.1 hrun
    cases hrun
    have h₁ := harmless_installCore _ _ _ hinstall hclasses
    have h₂ := harmless_findCore _ _ _ hfind h₁
    have h₃ := harmless_outOfMemoryObject _ _ _ hobject h₂
    have hfresh := outOfMemoryObject_idle hobject
    have hempty := poised_empty config h₃ core ((Heap.ofConfig config).insert object).1 now
    have hinserted := hempty.heap (Heap.insert_respects _ (Heap.ofConfig config) hfresh rfl)
    exact hinserted.heap (Heap.pin_respects _ _ _)

end Making

theorem Attained.poised {m : Machine} (h : Attained m) : Poised none [] m := by
  induction h with
  | made hloaded hds hcreate => exact create_poised (unmonitored_of_loaded hloaded hds) hcreate
  | served _ hc hleads ih => exact ih.leads hc hleads

theorem Attained.of_create {ds : List ClassDefinition} {classes : ClassTable} {config : Config}
    {now : UInt64} {m : Machine} (hloaded : ClassTable.Loaded ds classes)
    (hds : ∀ d ∈ ds, d.isUnmonitored = true) (h : (create classes config now).toOption = some m) :
    Attained m := .made hloaded hds (created_of_toOption h)

theorem Attained.serveAll {cs : List HostCall} {m m' : Machine} (h : Attained m)
    (hcs : cs.all HostCall.isUnmonitored = true) (hserve : HostCall.serveAll cs m = some m') :
    Attained m' :=
  HostCall.serveAll_keeps (fun c hc _ _ hserved h => .served h (List.all_eq_true.1 hcs c hc) (.inl hserved)) hserve h

section Visiting

variable {m : Machine} {t : ThreadId} {r : Thread FrameStack}

/-- Interrupts a run in one state. -/
noncomputable def Observer.stopAt (trap : Trap) (running : Option ThreadId) (n : Machine) : Observer := fun r n' =>
  open Classical in if r = running ∧ n' = n then .error trap n' else .ok () n'

theorem stopAt_at (trap : Trap) (running : Option ThreadId) (n : Machine) :
    Observer.stopAt trap running n running n = .error trap n := if_pos ⟨rfl, rfl⟩

theorem stopAt_away {trap : Trap} {running r : Option ThreadId} {n n' : Machine}
    (h : ¬(r = running ∧ n' = n)) : Observer.stopAt trap running n r n' = .ok () n' := if_neg h

/-- A call passes a state if it can be stopped there, with whatever trap. -/
theorem visits_of_stops {c : HostCall} {running : Option ThreadId} {n : Machine}
    (hstops : ∀ trap, ∃ m', c.watched (.stopAt trap running n) m = .error (hostError m' trap) m') :
    c.Visits m running n := by
  have hlook : ∀ trap : Trap, c.watched (.stopAt trap running n) m ≠ c.serve m → c.Visits m running n :=
    fun trap hne => ⟨.stopAt trap running n, fun _ _ h => stopAt_away h, hne⟩
  by_cases hfuel : c.watched (.stopAt .outOfFuel running n) m = c.serve m
  · refine hlook (.fatal (.inconsistent .noActiveFrame)) fun hfatal => ?_
    obtain ⟨m₁, h₁⟩ := hstops .outOfFuel
    obtain ⟨m₂, h₂⟩ := hstops (.fatal (.inconsistent .noActiveFrame))
    rw [h₁] at hfuel
    rw [h₂, ← hfuel] at hfatal
    cases hfatal
  · exact hlook .outOfFuel hfuel

theorem execute_stops (trap : Trap) (n : Machine) (k : Nested) {budget : Nat} (hbudget : 0 < budget) :
    Watched.execute (.stopAt trap (some t) n) k t budget n = .error trap n := by
  cases budget with
  | zero => exact absurd hbudget (Nat.lt_irrefl 0)
  | succ budget => exact bind_of_error (stopAt_at trap (some t) n)

/-- A thread that waits for nothing comes to its next instruction at once. -/
theorem resume_stops (trap : Trap) {n : Machine} (k : Nested) (hr : n.scheduler.get? t = some r)
    (hpending : r.pending = none) (hparked : r.interruptible = false) {budget : Nat} (hbudget : 0 < budget) :
    Watched.resume (.stopAt trap (some t) n) k t budget n = .error trap n := by
  have hrunning : Sync.resume t n.arena = .ok .running n.arena := by
    unfold Sync.resume
    rw [bind_get, show n.arena.scheduler.get? t = some r from hr, Option.bind_some, hpending]
    rfl
  have htaken : takeParkedInterrupt t n = .ok false n := by
    unfold takeParkedInterrupt
    rw [bind_get, hr]
    dsimp only
    rw [hparked]
    rfl
  unfold Watched.resume
  rw [bind_of_ok (onSync_of_ok hrunning)]
  exact (bind_of_ok htaken).trans (execute_stops trap n k hbudget)

/-- The state before the first instruction of a thread that is picked. -/
def beforeStep (m : Machine) (t : ThreadId) : Machine :=
  takeStack t { m with scheduler := m.scheduler.next.2, yieldRequested := false }

/-- A thread that is picked and waits for nothing is seen before its first instruction. -/
theorem step_visits (fuel : Nat) (hnext : m.scheduler.next.1 = some t)
    (hr : m.scheduler.next.2.get? t = some r) (hpending : r.pending = none)
    (hparked : r.interruptible = false) (hslice : 0 < m.config.sliceCycles) :
    (HostCall.step fuel).Visits m (some t) (m.beforeStep t) := by
  refine visits_of_stops fun trap => ?_
  let picked : Machine := { m with scheduler := m.scheduler.next.2 }
  let n := m.beforeStep t
  let look := Observer.stopAt trap (some t) n
  have hget : n.scheduler.get? t = some { r with stack := [] } :=
    get?_takeStack (m := { picked with yieldRequested := false }) hr
  have hresume := resume_stops trap (Watched.nested look fuel) hget hpending hparked
    (UInt32.lt_iff_toNat_lt.1 hslice)
  have hrun : Watched.runSlice look (Watched.nested look fuel) t picked = .error trap (saveStack t n) := by
    unfold Watched.runSlice
    rw [bind_modify, bind_get, show (_ : Scheduler FrameStack).get? t = some r from hr]
    show ensuring (Watched.resume look (Watched.nested look fuel) t m.config.sliceCycles.toNat)
      (saveStack t) n = _
    unfold ensuring
    rw [hresume]
  let left : Machine := { saveStack t n with scheduler := (saveStack t n).scheduler.endSlice }
  have hstep : Watched.step look fuel m = .error trap left := by
    have hpicked : onScheduler Scheduler.next m = .ok (some t) picked := by
      show EStateM.Result.ok m.scheduler.next.1 picked = _
      rw [hnext]
    unfold Watched.step
    rw [bind_of_ok (show look none m = .ok () m from stopAt_away (by simp)), bind_of_ok hpicked]
    refine bind_of_error ?_
    unfold ensuring
    rw [hrun]
  refine ⟨left, bind_of_error (x := forHost (Watched.step look fuel)) ?_⟩
  unfold forHost
  rw [hstep]

end Visiting

/-- Monitors match frames between any two instructions, whatever the host asks for. -/
theorem matched_of_attained {m : Machine} (h : Attained m) :
    Matched none m ∧ ∀ (c : HostCall) (running : Option ThreadId) (n : Machine),
      c.isUnmonitored = true → c.Visits m running n → Matched running n :=
  ⟨h.poised.matched, fun _ _ _ hc hv => matched_of_visits hc h.poised hv⟩

/-- A class with a synchronized method that does nothing and returns. -/
def holding : ClassDefinition where
  name := "Holding"
  superName := some "java/lang/Object"
  methods := [{ name := "hold", descriptor := "()V", flags := ⟨0x0029⟩, code := some { code := #[0x00, 0xb1] } }]

/-- A machine in which a thread has been started on the method. -/
def holdingMachine : Option Machine :=
  (create {} {} 0).toOption.bind (HostCall.serveAll [.load holding, .spawn 1 "Holding" "hold" "()V" []])

theorem matched_of_attained_holding : ∃ m : Machine, Attained m ∧
    (HostCall.step 1).Visits m (some 1) (m.beforeStep 1) ∧ Matched (some 1) (m.beforeStep 1) ∧
      (m.beforeStep 1).arena.depth 1 ⟨2⟩ = 1 ∧ levels ((m.beforeStep 1).framesOf (some 1) 1) ⟨2⟩ = 1 := by
  have hrun : (match holdingMachine with
      | some m => decide (m.scheduler.next.1 = some 1 ∧
          (m.scheduler.next.2.get? 1).map (fun r => (r.pending, r.interruptible)) = some (none, false) ∧
          0 < m.config.sliceCycles ∧ (m.beforeStep 1).arena.depth 1 ⟨2⟩ = 1 ∧
          levels ((m.beforeStep 1).framesOf (some 1) 1) ⟨2⟩ = 1)
      | none => false) = true := by decide +kernel
  cases hm : holdingMachine with
  | none =>
    rw [hm] at hrun
    cases hrun
  | some m =>
    rw [hm] at hrun
    obtain ⟨hnext, hrecord, hslice, hdepth, hlevels⟩ := of_decide_eq_true hrun
    obtain ⟨m₀, hcreate, hserve⟩ := Option.bind_eq_some_iff.1 hm
    have hattained := (Attained.of_create .empty (by simp) hcreate).serveAll (by decide +kernel) hserve
    obtain ⟨r, hr, hmarks⟩ := Option.map_eq_some_iff.1 hrecord
    obtain ⟨hpending, hparked⟩ := Prod.mk.inj hmarks
    have hvisits := step_visits 1 hnext hr hpending hparked hslice
    exact ⟨m, hattained, hvisits, (matched_of_attained hattained).2 _ _ _ rfl hvisits, hdepth, hlevels⟩

end Machine

end ClassMachine
