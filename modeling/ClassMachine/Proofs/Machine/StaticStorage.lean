import ClassMachine.Proofs.Link.StaticSlots
import ClassMachine.Proofs.Machine.ClosedCalls
import ClassMachine.Proofs.Machine.RuleSteps

/-!
Storage of static fields. A class has slots once its initializer was taken up, one for each static field,
and what frames stand in was linked against classes that are there. So an instruction that accesses a
static field finds it, for its class is initialized first.
-/
namespace ClassMachine

/-- Slots are there for the classes whose initializers were taken up, one for each static field. -/
structure Statics.Fits (s : Statics) (t : ClassTable) : Prop where
  held : ∀ id values, s.slots? id = some values →
    ∃ c, t.get? id = some c ∧ c.pendingInit = false ∧ values.size = c.staticKinds.length
  given : ∀ id c, t.get? id = some c → c.element = none → c.pendingInit = false →
    ∃ values, s.slots? id = some values

/-- An initializer that was taken up cannot be taken up again. -/
theorem ClassTable.get?_takePendingInit_cleared {t : ClassTable} {id : ClassId} {c : ClassInfo}
    (hc : t.get? id = some c) (hp : c.pendingInit = false) (x : ClassId) :
    (takePendingInit id t).2.get? x = t.get? x := by
  rw [get?_takePendingInit]
  split
  · next hx =>
    subst hx
    rw [hc, Option.map_some, ← hp]
  · rfl

namespace Statics

variable {s : Statics} {t t' : ClassTable} {id : ClassId}

theorem slots?_ensure (s : Statics) (id x : ClassId) (kinds : List Kind) :
    (s.ensure id kinds).slots? x =
      if id = x then some ((s.slots? id).getD (kinds.map Value.zeroOf).toArray) else s.slots? x := by
  unfold slots? ensure
  rw [Std.ExtTreeMap.getElem?_insertIfNew]
  by_cases hx : id = x
  · subst hx
    by_cases hmem : id ∈ s.slots
    · simp [hmem]
    · simp [hmem]
  · have hne : compare id x ≠ .eq := fun h => hx (Std.LawfulEqCmp.eq_of_compare h)
    simp [hx, hne]

theorem slots?_set? {s' : Statics} {slot : Nat} {v : Value} (h : s.set? id slot v = some s') (x : ClassId) :
    (s'.slots? x).map Array.size = (s.slots? x).map Array.size := by
  unfold set? at h
  split at h
  · cases h
    show ((s.slots.modify id _)[x]?).map Array.size = _
    rw [Maps.getElem?_modify_eq]
    split
    · rw [Option.map_map]
      congr 1
      funext values
      exact Array.size_setIfInBounds
    · rfl
  · cases h

/-- Slots are taken for as many fields as there are. -/
theorem Fits.set? {s' : Statics} {slot : Nat} {v : Value} (h : s.Fits t) (hs : s.set? id slot v = some s') :
    s'.Fits t := by
  constructor
  · intro x values hvalues
    have hsize := slots?_set? hs x
    rw [hvalues, Option.map_some] at hsize
    obtain ⟨before, hbefore, heq⟩ := Option.map_eq_some_iff.1 hsize.symm
    obtain ⟨c, hc, hcleared, hlength⟩ := h.held x before hbefore
    exact ⟨c, hc, hcleared, heq.symm.trans hlength⟩
  · intro x c hc helement hcleared
    obtain ⟨values, hvalues⟩ := h.given x c hc helement hcleared
    have hsize := slots?_set? hs x
    rw [hvalues, Option.map_some] at hsize
    obtain ⟨after, hafter, _⟩ := Option.map_eq_some_iff.1 hsize
    exact ⟨after, hafter⟩

/-- What is found out about classes has nothing to do with their slots, and a class that is added has
none. -/
theorem Fits.unfolds (h : s.Fits t) (hu : t.Unfolds t') : s.Fits t' := by
  constructor
  · intro id values hvalues
    obtain ⟨c, hc, hcleared, hsize⟩ := h.held id values hvalues
    obtain ⟨c', hc', hcc⟩ := hu.known id c hc
    exact ⟨c', hc', hcc.pendingInit.trans hcleared, by rw [ClassInfo.staticKinds_bare hcc.settles.bare, hsize]⟩
  · intro id c' hc' helement hcleared
    cases hc : t.get? id with
    | none =>
      rw [(hu.added id c' hc hc').1.2 helement] at hcleared
      cases hcleared
    | some c =>
      obtain ⟨c'', hc'', hcc⟩ := hu.known id c hc
      cases hc'.symm.trans hc''
      exact h.given id c hc (hcc.element.symm.trans helement) (hcc.pendingInit.symm.trans hcleared)

theorem Fits.of_get? (h : s.Fits t) (ht : ∀ id, t'.get? id = t.get? id) : s.Fits t' := by
  constructor
  · intro id values hvalues
    rw [ht]
    exact h.held id values hvalues
  · intro id c hc
    rw [ht] at hc
    exact h.given id c hc

/-- A class gets its slots when its initializer is taken up. -/
theorem Fits.takePendingInit (h : s.Fits t) {c : ClassInfo} (hc : t.get? id = some c) (hp : c.pendingInit = true) :
    (s.ensure id c.staticKinds).Fits (ClassTable.takePendingInit id t).2 := by
  have hnone : s.slots? id = none := by
    cases hvalues : s.slots? id with
    | none => rfl
    | some values =>
      obtain ⟨c', hc', hcleared, _⟩ := h.held id values hvalues
      cases hc.symm.trans hc'
      rw [hcleared] at hp
      cases hp
  constructor
  · intro x values hvalues
    rw [slots?_ensure] at hvalues
    rw [ClassTable.get?_takePendingInit]
    by_cases hx : id = x
    · subst hx
      rw [if_pos rfl, hnone, Option.getD_none] at hvalues
      cases hvalues
      rw [if_pos rfl, hc]
      exact ⟨_, rfl, rfl, by simp [ClassInfo.staticKinds]⟩
    · rw [if_neg hx] at hvalues ⊢
      exact h.held x values hvalues
  · intro x c' hc' helement hcleared
    rw [slots?_ensure]
    rw [ClassTable.get?_takePendingInit] at hc'
    by_cases hx : id = x
    · rw [if_pos hx]
      exact ⟨_, rfl⟩
    · rw [if_neg hx] at hc' ⊢
      exact h.given x c' hc' helement hcleared

/-- A static field of an initialized class is there. -/
theorem Fits.get? (h : s.Fits t) {slot : Nat} (hstatic : t.HasStatic id slot) (hcleared : t.Cleared id) :
    ∃ v, s.get? id slot = some v := by
  obtain ⟨c, hc, helement, hlt⟩ := hstatic
  obtain ⟨c', hc', hp⟩ := hcleared
  cases hc.symm.trans hc'
  obtain ⟨values, hvalues⟩ := h.given id c hc helement hp
  obtain ⟨c', hc', _, hsize⟩ := h.held id values hvalues
  cases hc.symm.trans hc'
  have hslot : slot < values.size := hsize ▸ hlt
  exact ⟨values[slot], by rw [Statics.get?, hvalues, Option.bind_some, Array.getElem?_eq_getElem hslot]⟩

end Statics

namespace Machine
open Stateful ClassTable

/-- Some frame stands in the body. -/
inductive Stands (m : Machine) (code : LinkedCode) : Prop
  | running {f : Frame} (hf : f ∈ m.active) (hcode : f.code = code)
  | parked {t : ThreadId} {r : Thread FrameStack} {f : Frame} (hr : m.scheduler.get? t = some r)
      (hf : f ∈ r.stack) (hcode : f.code = code)

/-- Static fields are stored for the classes that are initialized, and all that frames access is there. -/
structure Stored (m : Machine) : Prop where
  regular : m.classes.Regular
  sited : m.classes.Sited
  bodies : ∀ code, m.Stands code → code.Sited m.classes
  statics : m.statics.Fits m.classes

/-- The same later on. -/
structure Lasts (m m' : Machine) : Prop where
  stored : Stored m'
  precedes : m.classes.Precedes m'.classes

/-- What leaves classes and static fields alone, and puts up no frame. -/
structure Aside (m m' : Machine) : Prop where
  classes : m'.classes = m.classes
  statics : m'.statics = m.statics
  stands : ∀ code, m'.Stands code → m.Stands code

/-- Run on a machine whose static fields are stored, `x` leaves one, and fails for other reasons than that
a static field has no slot. -/
def Upholds {ε α : Type} (slotless : ε → Bool) (x : EStateM ε Machine α) : Prop :=
  ∀ m, Stored m → Ends (x m) (fun _ m' => Lasts m m') fun e m' => Lasts m m' ∧ slotless e = false

section Upholding

variable {ε α β : Type} {slotless : ε → Bool} {m m' m'' : Machine} {t : ThreadId}

theorem Lasts.refl (h : Stored m) : Lasts m m := ⟨h, .refl _⟩

theorem Lasts.trans (h : Lasts m m') (h' : Lasts m' m'') : Lasts m m'' :=
  ⟨h'.stored, h.precedes.trans h'.precedes⟩

theorem Aside.lasts (h : m.Aside m') (hm : Stored m) : Lasts m m' := by
  refine ⟨⟨h.classes ▸ hm.regular, h.classes ▸ hm.sited, fun code hcode => ?_, ?_⟩, h.classes ▸ .refl _⟩
  · rw [h.classes]
    exact hm.bodies code (h.stands code hcode)
  · rw [h.statics, h.classes]
    exact hm.statics

theorem Aside.trans (h : m.Aside m') (h' : m'.Aside m'') : m.Aside m'' :=
  ⟨h'.classes.trans h.classes, h'.statics.trans h.statics, fun code hcode => h.stands code (h'.stands code hcode)⟩

theorem Aside.of_eq (hclasses : m'.classes = m.classes) (hstatics : m'.statics = m.statics)
    (hactive : m'.active = m.active) (hscheduler : m'.scheduler = m.scheduler) : m.Aside m' := by
  refine ⟨hclasses, hstatics, fun code hcode => ?_⟩
  cases hcode with
  | running hf hcode => exact .running (hactive ▸ hf) hcode
  | parked hr hf hcode => exact .parked (hscheduler ▸ hr) hf hcode

/-- Threads keep the frames they have, or lose them. -/
theorem Aside.of_threads {s : Scheduler FrameStack} (hs : ∀ t r, s.get? t = some r →
    ∀ f ∈ r.stack, f ∈ m.active ∨ ∃ u r', m.scheduler.get? u = some r' ∧ f ∈ r'.stack)
    {active : FrameStack} (hactive : ∀ f ∈ active, f ∈ m.active ∨
      ∃ u r', m.scheduler.get? u = some r' ∧ f ∈ r'.stack)
    (hclasses : m'.classes = m.classes) (hstatics : m'.statics = m.statics)
    (ha : m'.active = active) (hscheduler : m'.scheduler = s) : m.Aside m' := by
  have hstands : ∀ {f : Frame}, (f ∈ m.active ∨ ∃ u r', m.scheduler.get? u = some r' ∧ f ∈ r'.stack) →
      m.Stands f.code := by
    rintro f (hf | ⟨u, r', hr', hf⟩)
    · exact .running hf rfl
    · exact .parked hr' hf rfl
  refine ⟨hclasses, hstatics, fun code hcode => ?_⟩
  cases hcode with
  | running hf hcode => exact hcode ▸ hstands (hactive _ (ha ▸ hf))
  | parked hr hf hcode => exact hcode ▸ hstands (hs _ _ (hscheduler ▸ hr) _ hf)

/-- Records change, but not the frames in them. -/
theorem Aside.of_pointwise {R : Thread FrameStack → Thread FrameStack → Prop}
    (hR : ∀ r r', R r r' → r'.stack = r.stack) {s : Scheduler FrameStack}
    (hs : Scheduler.Pointwise R m.scheduler s) (hclasses : m'.classes = m.classes)
    (hstatics : m'.statics = m.statics) (hactive : m'.active = m.active)
    (hscheduler : m'.scheduler = s) : m.Aside m' := by
  refine .of_threads (fun t r hr f hf => .inr ?_) (fun f hf => .inl hf) hclasses hstatics hactive hscheduler
  obtain ⟨r', hr', hrel⟩ := hs.exists_of_some' hr
  exact ⟨t, r', hr', hR r' r hrel ▸ hf⟩

theorem Aside.of_alike {s : Scheduler FrameStack} (hs : m.scheduler.Alike s) :
    m.Aside { m with scheduler := s } :=
  .of_pointwise (fun _ _ h => h.stack) hs rfl rfl rfl rfl

theorem Aside.updateThread (t : ThreadId) {f : Thread FrameStack → Thread FrameStack}
    (hf : ∀ r, (f r).stack = r.stack) : m.Aside { m with scheduler := m.scheduler.update t f } :=
  .of_pointwise (R := fun r r' => r'.stack = r.stack) (fun _ _ h => h)
    (m.scheduler.update_pointwise (R := fun r r' => r'.stack = r.stack) (fun _ => rfl) t hf) rfl rfl rfl rfl

/-- The frame in front goes on in the body it stands in. -/
theorem Aside.refront {f g : Frame} {rest : FrameStack} (ha : m.active = f :: rest) (hg : g.code = f.code) :
    m.Aside { m with active := g :: rest } := by
  refine ⟨rfl, rfl, fun code hcode => ?_⟩
  cases hcode with
  | running hf hcode =>
    rcases List.mem_cons.1 hf with rfl | hf
    · exact .running (ha ▸ List.mem_cons_self) (hg.symm.trans hcode)
    · exact .running (ha ▸ List.mem_cons_of_mem _ hf) hcode
  | parked hr hf hcode => exact .parked hr hf hcode

theorem Upholds.of_aside {x : EStateM ε Machine α}
    (hx : ∀ m, Ends (x m) (fun _ m' => m.Aside m') fun e m' => m.Aside m' ∧ slotless e = false) :
    Upholds slotless x := fun m hm =>
  (hx m).mono (fun _ _ h => h.lasts hm) fun _ _ h => ⟨h.1.lasts hm, h.2⟩

theorem Upholds.pure (a : α) : Upholds slotless (Pure.pure a : EStateM ε Machine α) := fun _ hm => .refl hm

theorem Upholds.throw {e : ε} (he : slotless e = false) : Upholds slotless (throw e : EStateM ε Machine α) :=
  fun _ hm => ⟨.refl hm, he⟩

theorem Upholds.along {x : EStateM ε Machine α} {f : α → EStateM ε Machine β} (hx : Upholds slotless x)
    (hf : ∀ a, (∃ m m', x m = .ok a m') → Upholds slotless (f a)) : Upholds slotless (x >>= f) := by
  intro m hm
  have hends := hx m hm
  cases hr : x m with
  | ok a m₁ =>
    have h₁ := hends.of_ok hr
    rw [bind_of_ok hr]
    exact (hf a ⟨m, m₁, hr⟩ m₁ h₁.stored).mono (fun _ _ h => h₁.trans h) fun _ _ h => ⟨h₁.trans h.1, h.2⟩
  | error e m₁ =>
    rw [bind_of_error hr]
    exact hends.of_error hr

theorem Upholds.bind {x : EStateM ε Machine α} {f : α → EStateM ε Machine β} (hx : Upholds slotless x)
    (hf : ∀ a, Upholds slotless (f a)) : Upholds slotless (x >>= f) := hx.along fun a _ => hf a

theorem Upholds.read {f : Machine → EStateM ε Machine β} (hf : ∀ m, Upholds slotless (f m)) :
    Upholds slotless (get >>= f) := fun m hm => hf m m hm

theorem Upholds.modify {f : Machine → Machine} (hf : ∀ m, Aside m (f m)) :
    Upholds slotless (modify f : EStateM ε Machine Unit) := .of_aside hf

/-- A trap is looked at, and may be passed on. -/
theorem Upholds.attempt {x : MachineM α} {f : Except Trap α → MachineM β} (hx : Upholds Trap.isSlotless x)
    (hok : ∀ a, Upholds Trap.isSlotless (f (.ok a)))
    (herror : ∀ e, e.isSlotless = false → Upholds Trap.isSlotless (f (.error e))) :
    Upholds Trap.isSlotless (Machine.attempt x >>= f) := by
  intro m hm
  have hends := hx m hm
  show Ends (EStateM.bind (Machine.attempt x) f m) _ _
  unfold EStateM.bind Machine.attempt
  cases hr : x m with
  | ok a m' =>
    have h := hends.of_ok hr
    exact (hok a m' h.stored).mono (fun _ _ h' => h.trans h') fun _ _ h' => ⟨h.trans h'.1, h'.2⟩
  | error e m' =>
    obtain ⟨h, he⟩ := hends.of_error hr
    exact (herror e he m' h.stored).mono (fun _ _ h' => h.trans h') fun _ _ h' => ⟨h.trans h'.1, h'.2⟩

theorem Upholds.ensuring {x : MachineM α} {after : Machine → Machine} (hx : Upholds Trap.isSlotless x)
    (ha : ∀ m, Aside m (after m)) : Upholds Trap.isSlotless (ensuring x after) := by
  intro m hm
  have hends := hx m hm
  have hafter : ∀ m', Lasts m m' → Lasts m (after m') := fun m' h => h.trans ((ha m').lasts h.stored)
  unfold Machine.ensuring
  cases hr : x m with
  | ok a m' => exact hafter m' (hends.of_ok hr)
  | error e m' => exact ⟨hafter m' (hends.of_error hr).1, (hends.of_error hr).2⟩

theorem Upholds.onScheduler {f : Scheduler FrameStack → α × Scheduler FrameStack}
    (hf : ∀ s : Scheduler FrameStack, s.Alike (f s).2) : Upholds Trap.isSlotless (onScheduler f) :=
  .of_aside fun m => .of_alike (hf m.scheduler)

theorem Upholds.updateThread (t : ThreadId) {f : Thread FrameStack → Thread FrameStack}
    (hf : ∀ r, (f r).stack = r.stack) : Upholds Trap.isSlotless (updateThread t f) :=
  .modify fun _ => .updateThread t hf

theorem Upholds.onTop {x : FrameM α} (hx : Frame.Plain x) : Upholds Trap.isSlotless (onTop x) := by
  refine .of_aside fun m => ?_
  unfold Machine.onTop
  cases ha : m.active with
  | nil => exact ⟨.of_eq rfl rfl rfl rfl, rfl⟩
  | cons f rest =>
    have hplain := hx f
    dsimp only
    cases hr : x f with
    | ok a g => exact .refront ha (hplain.of_ok hr)
    | error e g => exact ⟨.refront ha (hplain.of_error hr).1, (hplain.of_error hr).2⟩

theorem Upholds.onSync {x : SyncM FrameStack α} (hx : Sync.Gentle (fun _ => True) x) :
    Upholds Trap.isSlotless (onSync x) := by
  refine .of_aside fun m => ?_
  have hends := hx ⟨m.heap, m.scheduler⟩
  unfold Machine.onSync
  cases hr : x ⟨m.heap, m.scheduler⟩ with
  | ok a s => exact .of_pointwise (fun _ _ h => h.stack) (hends.of_ok hr).threads rfl rfl rfl rfl
  | error e s => exact .of_pointwise (fun _ _ h => h.stack) (hends.of_error hr).threads rfl rfl rfl rfl

theorem Upholds.updateHeap (f : Heap → Heap) : Upholds Trap.isSlotless (updateHeap f) :=
  .modify fun _ => .of_eq rfl rfl rfl rfl

theorem Upholds.pinning (rs : List Ref) {x : MachineM α} (hx : Upholds Trap.isSlotless x) :
    Upholds Trap.isSlotless (pinning rs x) :=
  (Upholds.updateHeap _).bind fun _ => hx.ensuring fun _ => .of_eq rfl rfl rfl rfl

/-- The table is asked and bodies are linked. -/
theorem Lasts.of_turns {l : Linker} (hm : Stored m) (hturns : m.linker.Turns l) (hregular : l.classes.Regular)
    (hsited : l.classes.Sited) : Lasts m { m with linker := l } := by
  have hprecedes := hturns.unfolds.precedes
  refine ⟨⟨hregular, hsited, fun code hcode => ?_, hm.statics.unfolds hturns.unfolds⟩, hprecedes⟩
  have hstands : m.Stands code := by
    cases hcode with
    | running hf hcode => exact .running hf hcode
    | parked hr hf hcode => exact .parked hr hf hcode
  exact (hm.bodies code hstands).precedes hprecedes

theorem Upholds.onLinker {x : StateM Linker α} (hx : Linker.Consulting x) :
    Upholds Trap.isSlotless (onLinker x) := fun m hm =>
  .of_turns hm (hx.turning m.linker) (Linker.Consults.regular (hx m.linker) hm.regular)
    (Linker.Consults.sited (hx m.linker) hm.sited)

end Upholding

section Instructions

variable {t : ThreadId} {k : Nested}

/-- As a relation, of a computation to whatever else. -/
abbrev Upholding : Comparison := fun _ x _ => Upholds Trap.isSlotless x

theorem popFrame_aside (m : Machine) : m.Aside { m with active := m.active.tail } :=
  .of_threads (fun t r hr _ hf => .inr ⟨t, r, hr, hf⟩) (fun _ hf => .inl (List.mem_of_mem_tail hf))
    rfl rfl rfl rfl

theorem sequel_upholds {β : Type} : Sequel Upholding (@Upholding β) :=
  ⟨fun hx hf => hx.along hf, fun hf _ => .read hf, fun _ he => .throw he⟩

theorem insertObject_upholds (o : Object) : Upholds Trap.isSlotless (insertObject o) := by
  refine .of_aside fun m => ?_
  unfold Machine.insertObject
  dsimp only
  split
  · exact ⟨.of_eq rfl rfl rfl rfl, rfl⟩
  · exact .of_eq rfl rfl rfl rfl

theorem reserve_upholds (units : Nat) : Upholds Trap.isSlotless (reserve units) := by
  refine .of_aside fun m => ?_
  unfold Machine.reserve
  split
  · exact .of_eq rfl rfl rfl rfl
  · next he => exact ⟨.of_eq rfl rfl rfl rfl, m.plain_reserve he⟩

theorem rules_upholds : Rules t Upholding where
  seq := sequel_upholds
  pure := .pure
  onTop hx := .onTop hx
  popFrame := .modify popFrame_aside
  orPopFrame := by
    intro α x y hx m hm
    have hends := hx m hm
    unfold Machine.orPopFrame
    cases hr : x m with
    | ok a m' => exact hends.of_ok hr
    | error e m' =>
      obtain ⟨h, he⟩ := hends.of_error hr
      exact ⟨h.trans ((popFrame_aside m').lasts h.stored), he⟩
  onLinker hx := .onLinker hx
  reserve := reserve_upholds
  newInstance id := sequel_upholds.newInstance (.onLinker (Linker.consulting_prepare id)) reserve_upholds
    fun _ => insertObject_upholds _
  insertObject _ _ _ := insertObject_upholds _
  setField r slot v := .updateHeap _
  intern text hmake := sequel_upholds.internString .pure hmake fun _ => .updateHeap _
  registerMirror id r := .updateHeap _
  pinning rs _ _ hx := Upholds.pinning rs hx
  collectGarbage := .of_aside fun m => .of_eq rfl rfl rfl rfl
  currentThread := sequel_upholds.threadObject .pure fun _ => .updateThread t fun _ => rfl
  interrupt target := .onScheduler fun s => (s.interrupt_wakes target).alike
  exit object := .onSync (Sync.exit_gentle t object)
  notify object := .onSync (Sync.notify_gentle t object)
  notifyAll object := .onSync (Sync.notifyAll_gentle t object)

theorem attachCompanion_upholds (object : Ref) (c : Companion) :
    Upholds Trap.isSlotless (attachCompanion object c) := by
  unfold attachCompanion
  refine .read fun m => ?_
  split
  · split
    · exact (Upholds.updateHeap _).bind fun _ => .pure _
    · exact .pure _
  · exact .pure _

theorem callHost_upholds (args : List Value) (native : HostNative) :
    Upholds Trap.isSlotless (callHost t args native) := by
  have hr : Rules t Upholding := rules_upholds
  have hraise : ∀ {α : Type} (className : String) (message : Option String),
      Upholds Trap.isSlotless (raise className message : MachineM α) := fun className message =>
    hr.raise hr.seq className message
  cases native with
  | void => exact .pure _
  | const v => exact .pure _
  | echo index => exact .pure _
  | sum => exact .pure _
  | trace => exact Upholds.bind (.modify fun m => .of_eq rfl rfl rfl rfl) fun _ => .pure _
  | throw className message => exact hraise _ _
  | fatal detail => exact .throw rfl
  | string text => exact Upholds.bind (hr.stringObject text) fun _ => .pure _
  | strlen =>
    refine .read fun m => ?_
    split <;> exact .pure _
  | new className =>
    refine .read fun m => ?_
    split
    · exact Upholds.bind (hr.newInstance _) fun _ => .pure _
    · exact hraise _ _
  | attach companion => exact (attachCompanion_upholds _ _).bind fun _ => .pure _
  | hold vetoes => exact (attachCompanion_upholds _ _).bind fun _ => .pure _
  | bump =>
    refine .read fun m => ?_
    split
    · exact (Upholds.updateHeap _).bind fun _ => .pure _
    · exact .pure _
  | peek => exact .read fun _ => .pure _
  | detach timeout =>
    exact (Upholds.onScheduler fun s => s.detach_alike t timeout).bind fun _ => .pure _
  | yield => exact Upholds.bind (.modify fun _ => .of_eq rfl rfl rfl rfl) fun _ => .pure _
  | request r =>
    refine Upholds.bind (.modify fun m => ?_) fun _ => .pure _
    have hsend : m.scheduler.Alike (m.scheduler.send r) :=
      Scheduler.pointwise_of_threads_eq Thread.Alike.refl rfl rfl
    exact .of_alike hsend
  | now => exact .read fun _ => .pure _
  | thread => exact .pure _
  | live => exact .read fun _ => .pure _
  | pin => exact (Upholds.updateHeap _).bind fun _ => .pure _

/-- The frame of a call stands in a body that was linked just before. -/
theorem callBytecode_upholds (m : Method) (args : List Value) :
    Upholds Trap.isSlotless (callBytecode t m args) := by
  have hr : Rules t Upholding := rules_upholds
  have henter : ∀ object : Ref, Upholds Trap.isSlotless (enterMonitor t object) :=
    hr.enterMonitor fun object => .onSync (Sync.enter_gentle t trivial)
  intro m₀ hm₀
  let m₁ : Machine := { m₀ with linker := (Linker.link m.id m₀.linker).2 }
  have hsited := Linker.link_sited m.id hm₀.sited
  have h₁ : Lasts m₀ m₁ := .of_turns hm₀ ((Linker.consulting_link m.id).turning m₀.linker)
    (hm₀.regular.grows (Linker.link_grows m.id m₀.linker).classes) hsited.1
  unfold callBytecode
  rw [bind_of_ok (show Machine.onLinker (Linker.link m.id) m₀ = .ok (Linker.link m.id m₀.linker).1 m₁ from rfl)]
  cases hlinked : (Linker.link m.id m₀.linker).1 with
  | error e => exact ⟨h₁, rfl⟩
  | ok code =>
    have hcode : code.Sited m₁.classes := hsited.2 code hlinked
    dsimp only
    rw [bind_get]
    split
    · exact (hr.raise hr.seq _ _ m₁ h₁.stored).mono (fun _ _ h => h₁.trans h) fun _ _ h => ⟨h₁.trans h.1, h.2⟩
    · let m₂ : Machine := { m₁ with active := Frame.ofCall m.id code args :: m₁.active }
      have hpushed : Lasts m₁ m₂ := by
        refine ⟨⟨h₁.stored.regular, h₁.stored.sited, fun body hbody => ?_, h₁.stored.statics⟩, .refl _⟩
        cases hbody with
        | running hf hbody =>
          rcases List.mem_cons.1 hf with rfl | hf
          · exact hbody ▸ hcode
          · exact h₁.stored.bodies body (.running hf hbody)
        | parked hr hf hbody => exact h₁.stored.bodies body (.parked hr hf hbody)
      have h₂ : Lasts m₀ m₂ := h₁.trans hpushed
      have hrest : Upholds Trap.isSlotless (if m.isSynchronized then do
          let object ←
            if m.isStatic then orPopFrame (mirror m.id.owner)
            else Pure.pure ((args.head?.map Value.refOrNull).getD .null)
          enterMonitor t object
        else return .next) := by
        split
        · split
          · exact Upholds.bind (hr.orPopFrame (hr.mirror _)) henter
          · exact (Upholds.pure _).bind henter
        · exact .pure _
      exact (hrest m₂ h₂.stored).mono (fun _ _ h => h₂.trans h) fun _ _ h => ⟨h₂.trans h.1, h.2⟩

theorem writes_upholds : Rules.Writes Upholding :=
  ⟨fun _ _ _ => insertObject_upholds _, fun _ _ _ => .updateHeap _, fun _ _ _ => .updateHeap _⟩

theorem course_upholds : Course t Upholding Upholding (@Upholding Flow) := by
  have hr : Rules t Upholding := rules_upholds
  refine hr.course (hr.newPrimitiveArray writes_upholds) (hr.newMultiArray writes_upholds)
    (hr.arrayCopy writes_upholds.element) callBytecode_upholds
    (.onScheduler fun s => (s.takeInterrupt_wakes t).alike)
    (fun object => .onSync (Sync.enter_gentle t trivial))
    (fun object timeout => .onSync (Sync.wait_gentle t trivial timeout))
    (fun timeout => .onScheduler fun s => s.detach_alike t timeout)
    (fun target => .onScheduler fun s => s.join_alike t target) (.updateThread t fun _ => rfl)
    (.modify fun _ => .of_eq rfl rfl rfl rfl) (.of_aside fun m => .of_eq rfl rfl rfl rfl) ?_
  intro args id
  refine Upholds.read fun m => ?_
  cases m.natives.get? id with
  | none => exact .throw rfl
  | some native => exact (callHost_upholds args native).pinning _

/-- A handler goes on in a frame that was there. -/
theorem unwindFrames_upholds (exception : Ref) (thrown : ClassId) (frames : FrameStack) {m : Machine}
    (hm : Stored m) (hframes : ∀ f ∈ frames, f.code.Sited m.classes) :
    Ends (unwindFrames t exception thrown frames m) (fun _ m' => Lasts m m')
      fun e m' => Lasts m m' ∧ e.isSlotless = false := by
  have hr : Rules t Upholding := rules_upholds
  have hreframed : ∀ {n : Machine} (stack : FrameStack), Stored n → (∀ f ∈ stack, f.code.Sited n.classes) →
      Lasts n { n with active := stack } := by
    intro n stack hn hstack
    refine ⟨⟨hn.regular, hn.sited, fun code hcode => ?_, hn.statics⟩, .refl _⟩
    cases hcode with
    | running hf hcode => exact hcode ▸ hstack _ hf
    | parked hr hf hcode => exact hn.bodies code (.parked hr hf hcode)
  induction frames generalizing m with
  | nil => exact .refl hm
  | cons f rest ih =>
    unfold unwindFrames
    refine Ends.bind (E := fun (e : Trap) m' => Lasts m m' ∧ e.isSlotless = false) (hr.handlerOf thrown f m hm)
      fun handler m₁ h₁ => ?_
    have hlater : ∀ g ∈ f :: rest, g.code.Sited m₁.classes := fun g hg => (hframes g hg).precedes h₁.precedes
    cases handler with
    | some handler =>
      refine h₁.trans (hreframed _ h₁.stored fun g hg => ?_)
      rcases List.mem_cons.1 hg with rfl | hg
      · exact hlater f List.mem_cons_self
      · exact hlater g (List.mem_cons_of_mem _ hg)
    | none =>
      have h₂ : Lasts m { m₁ with active := rest } :=
        h₁.trans (hreframed rest h₁.stored fun g hg => hlater g (List.mem_cons_of_mem _ hg))
      show Ends ((releaseMonitor t f >>= fun _ => unwindFrames t exception thrown rest)
        { m₁ with active := rest }) _ _
      refine Ends.bind (Q := fun _ m' => Lasts m m' ∧ ∀ g ∈ rest, g.code.Sited m'.classes)
        (E := fun (e : Trap) m' => Lasts m m' ∧ e.isSlotless = false) ?_ fun _ m₃ ⟨h₃, hrest⟩ => ?_
      · refine (hr.releaseMonitor f _ h₂.stored).mono (fun _ m₃ h => ⟨h₂.trans h, fun g hg => ?_⟩)
          fun _ _ h => ⟨h₂.trans h.1, h.2⟩
        exact (hlater g (List.mem_cons_of_mem _ hg)).precedes h.precedes
      · exact (ih h₃.stored hrest).mono (fun _ _ h => h₃.trans h) fun _ _ h => ⟨h₃.trans h.1, h.2⟩

theorem unwind_upholds (exception : Ref) : Upholds Trap.isSlotless (unwind t exception) := by
  intro m hm
  unfold unwind
  rw [bind_get]
  cases m.heap.get? exception with
  | none => exact ⟨.refl hm, rfl⟩
  | some o => exact unwindFrames_upholds exception o.type m.active hm fun f hf => hm.bodies _ (.running hf rfl)

end Instructions

end Machine

end ClassMachine
