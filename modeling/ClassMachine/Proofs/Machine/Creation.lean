import ClassMachine.Machine.Host
import ClassMachine.Proofs.Link.LinkedBodies
import ClassMachine.Proofs.Link.Turns

/-!
Making a machine. The core classes that are missing are loaded, some classes are prepared and a signature
is numbered, so whatever is kept by each of these holds of the classes of a new machine.
-/
namespace ClassMachine

/-- What is kept when classes are loaded, and along all moves of a linker. -/
structure Linker.Keeping (R : Linker → Linker → Prop) : Prop where
  refl : ∀ l, R l l
  trans : ∀ {l₁ l₂ l₃}, R l₁ l₂ → R l₂ l₃ → R l₁ l₃
  register : ∀ (d : ClassDefinition) (l : Linker), R l (onClasses (ClassTable.register d) l).2
  move : ∀ {l l' : Linker}, l.Move l' → R l l'

namespace Linker.Keeping

variable {R : Linker → Linker → Prop}

theorem installOne (h : Keeping R) (installed : Nat) (d : ClassDefinition) (l : Linker) :
    R l (onClasses (Core.installOne installed d) l).2 := by
  show R l { l with classes := (Core.installOne installed d l.classes).2 }
  unfold Core.installOne
  rw [Stateful.state_get]
  split
  · exact h.refl l
  · have hregister : R l { l with classes := (ClassTable.register d l.classes).2 } := h.register d l
    rw [Stateful.state_bind]
    cases (ClassTable.register d l.classes).1 with
    | ok id => exact h.trans hregister (h.move (.ask (l := { l with classes := _ }) (.record _ _ _)))
    | error e => exact hregister

theorem installAll (h : Keeping R) (ds : List ClassDefinition) (installed : Nat) (l : Linker) :
    R l (onClasses (ds.foldlM Core.installOne installed) l).2 := by
  induction ds generalizing installed l with
  | nil => exact h.refl l
  | cons d ds ih =>
    have hrest := ih (Core.installOne installed d l.classes).1
      { l with classes := (Core.installOne installed d l.classes).2 }
    exact h.trans (h.installOne installed d l) hrest

/-- Core classes are loaded like others. -/
theorem install (h : Keeping R) (l : Linker) : R l (onClasses Core.install l).2 := by
  unfold Core.install
  cases Core.definitions with
  | error e => exact h.refl l
  | ok ds => exact h.installAll ds 0 l

end Linker.Keeping

/-- What resolution gives the instructions of all bodies stays with them. -/
theorem Linker.keeping_bodies {N : ClassTable → Prop} {P : ClassTable → Instruction → Prop} (hP : Lasting N P) :
    Linker.Keeping fun l l' => N l.classes ∧ l.classes.Bodies P → N l'.classes ∧ l'.classes.Bodies P where
  refl _ h := h
  trans h h' hl := h' (h hl)
  register d l hl := ⟨hP.turns (turning_register d l) hl.1, register_bodies hP d l hl.2⟩
  move hmove hl := ⟨hP.turns (.single (.change (.move hmove))) hl.1, hmove.bodies hP hl.2⟩

namespace Machine
open Stateful

variable {α β : Type} {R : Linker → Linker → Prop}

/-- Linkers before and after are related where a computation succeeds. -/
def Making (R : Linker → Linker → Prop) (x : StateT Linker (Except HostError) α) : Prop :=
  ∀ l a l', x.run l = .ok (a, l') → R l l'

theorem Making.bind (h : Linker.Keeping R) {x : StateT Linker (Except HostError) α}
    {f : α → StateT Linker (Except HostError) β} (hx : Making R x) (hf : ∀ a, Making R (f a)) :
    Making R (x >>= f) := by
  intro l b l' hrun
  obtain ⟨a, l₁, hrun₁, hrun₂⟩ := run_bind_ok.1 hrun
  exact h.trans (hx l a l₁ hrun₁) (hf a l₁ b l' hrun₂)

theorem Making.pure (h : Linker.Keeping R) (a : α) : Making R (Pure.pure a) := by
  intro l b l' hrun
  cases hrun
  exact h.refl l

theorem making_ofLinker {x : StateM Linker α} (hx : ∀ l : Linker, R l (x l).2) : Making R (ofLinker x) := by
  intro l a l' hrun
  have hrelated := hx l
  rwa [show x l = (a, l') from Except.ok.inj hrun] at hrelated

/-- A core class that was found is the one of the name. -/
theorem of_coreClass {name : String} {l l' : Linker} {id : ClassId} (h : (coreClass name).run l = .ok (id, l')) :
    l' = l ∧ l.classes.lookup? name = some id := by
  obtain ⟨l₁, l₂, hget, hrun⟩ := run_bind_ok.1 h
  cases hget
  cases hlookup : l.classes.lookup? name with
  | none =>
    rw [hlookup] at hrun
    cases hrun
  | some id =>
    rw [hlookup] at hrun
    cases hrun
    exact ⟨rfl, rfl⟩

theorem making_coreClass (h : Linker.Keeping R) (name : String) : Making R (coreClass name) := fun l id l' hrun => by
  rw [(of_coreClass hrun).1]
  exact h.refl l

theorem making_prepare (h : Linker.Keeping R) (id : ClassId) : Making R (ofLinker (Linker.prepare id)) :=
  making_ofLinker fun _ => h.move (.prepare id)

theorem making_installCore (h : Linker.Keeping R) : Making R installCore := by
  unfold installCore
  refine Making.bind h (making_ofLinker h.install) fun result => ?_
  cases result with
  | ok installed => exact .pure h _
  | error e => exact fun l a l' hrun => by cases hrun

theorem making_findCore (h : Linker.Keeping R) : Making R findCore := by
  unfold findCore
  refine Making.bind h (making_coreClass h _) fun throwable =>
    Making.bind h (making_prepare h throwable) fun prepared => ?_
  refine Making.bind h (making_coreClass h _) fun string =>
    Making.bind h (making_coreClass h _) fun type => ?_
  refine Making.bind h (making_coreClass h _) fun thread =>
    Making.bind h (making_ofLinker fun l => ?_) fun run => .pure h _
  exact h.move (.intern "run" "()V")

theorem making_outOfMemoryObject (h : Linker.Keeping R) : Making R outOfMemoryObject :=
  Making.bind h (making_coreClass h _) fun id => Making.bind h (making_prepare h id) fun _ => .pure h _

/-- A machine is made without threads, frames, static fields and an empty trace. -/
theorem kept_by_create (h : Linker.Keeping R) {classes : ClassTable} {config : Config} {now : UInt64}
    {m : Machine} (hm : create classes config now = .ok m) :
    R { classes := classes, access := config.fieldAccess } m.linker ∧ m.statics = {} ∧ m.active = [] ∧
      m.scheduler = { now := now } ∧ m.trace = [] := by
  unfold create at hm
  cases hv : config.validate with
  | error e =>
    rw [hv] at hm
    cases hm
  | ok u =>
    rw [hv] at hm
    obtain ⟨⟨⟨core, object⟩, linker⟩, hrun, hm⟩ := except_bind_ok.1 hm
    cases hm
    refine ⟨?_, rfl, rfl, rfl, rfl⟩
    have hmaking : Making R (do
        installCore
        let core ← findCore
        return (core, ← outOfMemoryObject)) :=
      Making.bind h (making_installCore h) fun _ => Making.bind h (making_findCore h) fun core =>
        Making.bind h (making_outOfMemoryObject h) fun _ => .pure h _
    exact hmaking _ _ _ hrun

/-- A new machine has one object, which is pinned: an instance of the class of the exception for a full heap, with
the fields that its class lays out. -/
theorem create_eq {classes : ClassTable} {config : Config} {now : UInt64} {m : Machine}
    (h : create classes config now = .ok m) : ∃ core linker id object,
      linker.classes.lookup? CoreName.outOfMemory = some id ∧
      object = Object.instanceOf id (((linker.classes.get? id).bind fun c => c.layout.map (·.kinds)).getD []) ∧
      m = { config := config, linker := linker, core := core, scheduler := { now := now }
            heap := ((Heap.ofConfig config).insert object).2.pin ((Heap.ofConfig config).insert object).1
            outOfMemory := ((Heap.ofConfig config).insert object).1 } := by
  unfold create at h
  cases hv : config.validate with
  | error e =>
    rw [hv] at h
    cases h
  | ok u =>
    rw [hv] at h
    obtain ⟨⟨⟨core, object⟩, linker⟩, hrun, h⟩ := except_bind_ok.1 h
    cases h
    obtain ⟨_, _, _, hrun⟩ := run_bind_ok.1 hrun
    obtain ⟨_, _, _, hrun⟩ := run_bind_ok.1 hrun
    obtain ⟨_, _, hobject, hrun⟩ := run_bind_ok.1 hrun
    cases hrun
    obtain ⟨id, l₁, hclass, hobject⟩ := run_bind_ok.1 hobject
    obtain ⟨prepared, l₂, hprepared, hobject⟩ := run_bind_ok.1 hobject
    have hfound : prepared = l₂.classes.get? id := by
      have hfst := prepare_fst id l₁
      rwa [show Linker.prepare id l₁ = (prepared, l₂) from Except.ok.inj hprepared] at hfst
    obtain ⟨hsame, hlookup⟩ := of_coreClass hclass
    have hlookup' : l₂.classes.lookup? CoreName.outOfMemory = some id := by
      have hgrows := Linker.prepare_grows id l₁
      rw [show Linker.prepare id l₁ = (prepared, l₂) from Except.ok.inj hprepared] at hgrows
      exact hgrows.classes.names _ id (hsame ▸ hlookup)
    cases hobject
    exact ⟨core, linker, id, _, hlookup', by rw [hfound], rfl⟩

theorem created_of_toOption {classes : ClassTable} {config : Config} {now : UInt64} {m : Machine}
    (h : (create classes config now).toOption = some m) : create classes config now = .ok m :=
  Stateful.except_of_toOption h

theorem keeping_turns : Linker.Keeping Linker.Turns where
  refl _ := .refl
  trans h h' := h.trans h'
  register := Linker.turning_register
  move h := .single (.change (.move h))

end Machine

end ClassMachine
