import ClassMachine.Proofs.Heap.Holding
import ClassMachine.Proofs.Machine.Creation
import ClassMachine.Proofs.Machine.Trails

/-!
Whatever a machine does comes down to a few things done to its heap and to its classes. What runs is told apart
by threads, frames and static fields; of these the heap knows nothing, so all there is to a run is one edit of
the heap after the other. None of them takes away what is pinned or what stands for a literal, and none gives
static fields to a class of arrays.
-/
namespace ClassMachine

namespace Machine
open Stateful

/-- The objects of a machine, and the classes they are of. -/
def stock (m : Machine) : ClassTable × Heap := (m.classes, m.heap)

/-- Heap and classes have been edited. -/
def Edited (m m' : Machine) : Prop := Heap.Edits m.stock m'.stock

/-- However `x` ends, heap and classes have been edited. -/
abbrev Editing {ε α : Type} (x : EStateM ε Machine α) : Prop := Follows Edited x

namespace Edited

variable {m : Machine}

theorem rewrites (m : Machine) {h : Heap} (hr : m.heap.Rewrites h) : Edited m { m with heap := h } :=
  .single (.rewrite m.classes hr)

theorem update (m : Machine) (r : Ref) {f : Object → Object}
    (hf : ∀ o, m.heap.get? r = some o → Object.SameBulk o (f o)) :
    Edited m { m with heap := m.heap.update r f } := .rewrites m (m.heap.update_rewrites r hf)

theorem relink {l : Linker} (hp : m.classes.Precedes l.classes) : Edited m { m with linker := l } :=
  .single (.classes m.heap hp)

end Edited

section Making

variable {α : Type}

theorem trail_edited : Trail Edited where
  trans := Relation.ReflTransGen.trans
  beside {m m'} h := by
    obtain ⟨mirrors, hheap⟩ := h.heap
    have hr : m.heap.Rewrites m'.heap := by
      rw [hheap]
      exact Heap.rewrites_of_objects_eq rfl rfl rfl
    have hedit : Heap.Edits m.stock (m.classes, m'.heap) := .single (.rewrite m.classes hr)
    rwa [← h.classes] at hedit
  pin m r := .rewrites m (m.heap.pinAll_rewrites [r])
  pinning rs _ hx := hx.pinning Relation.ReflTransGen.trans
    (fun m _ ho hn hu => .rewrites m (Heap.rewrites_of_objects_eq ho hn hu)) rs
  reframe h _ := h

theorem onLinker_editing {x : StateM Linker α} (hx : Linker.Turning x) : Editing (onLinker x) := fun m =>
  .relink (hx m.linker).unfolds.precedes

theorem onSync_editing {r : Option ThreadId} {x : SyncM FrameStack α} (hx : Sync.Doing r x) : Editing (onSync x) := by
  intro m
  have hends := hx ⟨m.heap, m.scheduler⟩
  unfold onSync
  cases hr : x ⟨m.heap, m.scheduler⟩ with
  | ok a s => exact .single (.rewrite m.classes (hends.of_ok hr).heap.rewrites)
  | error e s => exact .single (.rewrite m.classes (hends.of_error hr).heap.rewrites)

theorem reserve_editing (units : Nat) : Editing (reserve units) := by
  intro m
  have hedits := Heap.reserve_edits m.classes m.heap m.roots units
  unfold reserve
  cases hr : m.heap.reserve m.roots units with
  | mk result h =>
    rw [hr] at hedits
    cases result with
    | ok u => exact hedits
    | error e => exact hedits

theorem classes_reserve (units : Nat) (m : Machine) : (final (reserve units m)).classes = m.classes := by
  unfold reserve
  rcases m.heap.reserve m.roots units with ⟨_ | _, h⟩ <;> rfl

theorem insertObject_edits {m : Machine} {o : Object} (ho : Heap.Makes m.classes o) :
    Edited m (final (insertObject o m)) := by
  unfold insertObject
  dsimp only
  split
  · exact .refl
  · next hfree => exact .single (.insert ho (Bool.eq_false_iff.2 hfree))

theorem insertObject_editing (type : ClassId) (p : Payload) : Editing (insertObject (Object.ofPayload type [] p)) :=
  fun _ => insertObject_edits (.ofPayload type p)

/-- The fields of an instance are those its class has when the instance is made. -/
theorem newInstance_editing (id : ClassId) : Editing (newInstance id) := by
  intro m
  let m₁ : Machine := { m with linker := (Linker.prepare id m.linker).2 }
  have hprepare : onLinker (Linker.prepare id) m = .ok (m₁.classes.get? id) m₁ := by
    rw [← show (Linker.prepare id m.linker).1 = m₁.classes.get? id from prepare_fst id m.linker]
    rfl
  have h₁ : Edited m m₁ := .relink ((Linker.consulting_prepare id).turning m.linker).unfolds.precedes
  unfold newInstance
  rw [bind_of_ok hprepare]
  cases hc : m₁.classes.get? id with
  | none => exact h₁
  | some c =>
    refine h₁.trans ?_
    have h₂ := reserve_editing (Object.instanceOf id ((c.layout.map (·.kinds)).getD [])).weight m₁
    have hclasses := classes_reserve (Object.instanceOf id ((c.layout.map (·.kinds)).getD [])).weight m₁
    show Edited m₁ (final (allocate _ m₁))
    unfold allocate
    cases hr : reserve (Object.instanceOf id ((c.layout.map (·.kinds)).getD [])).weight m₁ with
    | error e m₂ =>
      rw [hr] at h₂
      rw [bind_of_error hr]
      exact h₂
    | ok u m₂ =>
      rw [hr] at h₂ hclasses
      rw [bind_of_ok hr]
      exact h₂.trans (insertObject_edits (.instanceOf (hclasses ▸ hc)))

theorem track_edited : Track Edited where
  toTrail := trail_edited
  onLinker hx := onLinker_editing hx.turning
  onSync hx _ := onSync_editing hx
  reserve := reserve_editing
  collectGarbage m := .single (.collect m.classes m.heap m.roots)
  newInstance := newInstance_editing
  insertObject type p _ := insertObject_editing type p
  setField r slot v m := .update m r fun o _ => o.sameBulk_setField slot v
  intern _ hmake := trail_edited.sequel.internString trail_edited.pure hmake fun _ m =>
    .rewrites m (Heap.rewrites_of_objects_eq rfl rfl rfl)
  writeElement array index v m := .update m array fun o _ => o.sameBulk_written index v

theorem writes_edited : Rules.Writes (Following Edited) :=
  ⟨fun id _ _ => insertObject_editing id _, track_edited.writeElement, fun array index child m =>
    .update m array fun o _ => o.sameBulk_setElement index (.ref child)⟩

/-- Data of a host weighs nothing, and takes the place of nothing that weighs. -/
theorem road_edited : Road Edited where
  toTrack := track_edited
  register d := onLinker_editing (Linker.turning_register d)
  takePendingInit id m := .relink (ClassTable.takePendingInit_precedes id m.classes)
  takeUp {m id} _ _ := .relink (m := m) (ClassTable.takePendingInit_precedes id m.classes)
  setStatic _ := .refl
  newPrimitiveArray := (track_edited.rules (t := 1)).newPrimitiveArray writes_edited
  newMultiArray := (track_edited.rules (t := 1)).newMultiArray writes_edited
  newRefArray {m _ id} length _ _ := (track_edited.rules (t := 1)).newArray writes_edited id .reference length m
  attach {m object o} c ho hpayload := .update m object fun o' ho' => by
    cases ho.symm.trans ho'
    have hweight : o.payload.weight = 0 := by
      rcases hpayload with h | ⟨_, h⟩ <;> rw [h] <;> rfl
    exact Object.sameBulk_companion hweight c
  call {m id _} args _ := .relink (m := m) ((Linker.consulting_link id).turning m.linker).unfolds.precedes

end Making

/-- Whatever a host asks for, and whatever comes of it, heap and classes are edited and no more. -/
theorem serve_editing (c : HostCall) : Editing c.serve := road_edited.serve c

theorem registerNative_editing (owner name descriptor : String) (native : HostNative) :
    Editing (registerNative owner name descriptor native) := road_edited.registerNative owner name descriptor native

/-- A new machine has one object, an instance of a class it has prepared. -/
theorem create_weighed {table : ClassTable} {config : Config} {now : UInt64}
    (h : create table config now = .ok m) : m.heap.Weighed m.classes := by
  obtain ⟨core, linker, id, object, -, hobject, rfl⟩ := create_eq h
  have hempty : (Heap.ofConfig config).Weighed linker.classes :=
    ⟨(Heap.Made.new _ _).sound, fun r o hr => by simp [Heap.get?, Heap.ofConfig] at hr⟩
  have hinserted : ((Heap.ofConfig config).insert object).2.Weighed linker.classes := by
    refine Heap.insert_weighed ?_ rfl hempty
    rw [hobject]
    cases hc : linker.classes.get? id with
    | none => exact ⟨[], ⟨rfl, .inr (List.forall_mem_nil _)⟩, rfl⟩
    | some c => exact Object.weighs_instanceOf hc
  exact (Heap.pinAll_rewrites [⟨1⟩] _).weighed hinserted

end Machine

/-- Arrays have neither initializers nor static fields. -/
structure Statics.Unarrayed (s : Statics) (t : ClassTable) : Prop where
  pending : ∀ id c, t.get? id = some c → c.pendingInit = true → c.element = none
  stored : ∀ id values, s.slots? id = some values → ∃ c, t.get? id = some c ∧ c.element = none

namespace Statics.Unarrayed

variable {s s' : Statics} {t t' : ClassTable} {id : ClassId}

theorem unfolds (h : s.Unarrayed t) (hu : t.Unfolds t') : s.Unarrayed t' := by
  constructor
  · intro id c' hc' hpending
    cases hc : t.get? id with
    | none => exact (hu.added id c' hc hc').1.1 hpending
    | some c =>
      obtain ⟨c'', hc'', hcu⟩ := hu.known id c hc
      cases hc'.symm.trans hc''
      exact hcu.element.trans (h.pending id c hc (hcu.pendingInit.symm.trans hpending))
  · intro id values hvalues
    obtain ⟨c, hc, helement⟩ := h.stored id values hvalues
    obtain ⟨c', hc', hcu⟩ := hu.known id c hc
    exact ⟨c', hc', hcu.element.trans helement⟩

theorem takePendingInit (h : s.Unarrayed t) (id : ClassId) : s.Unarrayed (ClassTable.takePendingInit id t).2 := by
  constructor
  · intro x c' hc' hpending
    rw [ClassTable.get?_takePendingInit] at hc'
    split at hc'
    · obtain ⟨c, hc, rfl⟩ := Option.map_eq_some_iff.1 hc'
      cases hpending
    · exact h.pending x c' hc' hpending
  · intro x values hvalues
    obtain ⟨c, hc, helement⟩ := h.stored x values hvalues
    obtain ⟨c', hc', _, hsame, _⟩ := ClassTable.takePendingInit_precedes id t x c hc
    exact ⟨c', hc', hsame.trans helement⟩

theorem ensure (h : s.Unarrayed t) (kinds : List Kind) (hid : ∃ c, t.get? id = some c ∧ c.element = none) :
    (s.ensure id kinds).Unarrayed t := by
  refine ⟨h.pending, fun x values hvalues => ?_⟩
  rw [slots?_ensure] at hvalues
  split at hvalues
  · next hx => exact hx ▸ hid
  · exact h.stored x values hvalues

theorem set? {slot : Nat} {v : Value} (h : s.Unarrayed t) (hs : s.set? id slot v = some s') : s'.Unarrayed t := by
  refine ⟨h.pending, fun x values hvalues => ?_⟩
  have hsize := slots?_set? hs x
  rw [hvalues, Option.map_some] at hsize
  obtain ⟨before, hbefore, -⟩ := Option.map_eq_some_iff.1 hsize.symm
  exact h.stored x before hbefore

end Statics.Unarrayed

theorem Heap.Remonitored.secures {h h' : Heap} (hr : h.Remonitored h') : h.Secures h' := by
  refine .of_anchored (by rw [hr.rest]) (by rw [hr.rest]) fun r o ho _ => ?_
  have hsame := hr.objects r
  rw [ho, Option.map_some, Option.map_eq_some_iff] at hsame
  obtain ⟨o', ho', heq⟩ := hsame
  exact ⟨o', ho', .of_payload (congrArg Object.type heq :) (congrArg Object.payload heq :)⟩

namespace Machine
open Stateful

variable {α : Type} {m m' : Machine}

/-- The exception for a full heap is the same, classes are what running machines make of them, and what is asked of
pins, literals and static fields stays so. -/
structure Rests (m m' : Machine) : Prop where
  heap : m.heap.Secures m'.heap
  spare : m'.outOfMemory = m.outOfMemory
  classes : m.classes.Becomes m'.classes
  statics : m.statics.Unarrayed m.classes → m'.statics.Unarrayed m'.classes

namespace Rests

theorem reheap {h : Heap} (hs : m.heap.Secures h) : Rests m { m with heap := h } := ⟨hs, rfl, .same, id⟩

theorem relink {l : Linker} (hturns : m.linker.Turns l) : Rests m { m with linker := l } :=
  ⟨.refl _, rfl, hturns.becomes, fun h => h.unfolds hturns.unfolds⟩

end Rests

theorem trail_rests : Trail Rests where
  trans h h' := ⟨h.heap.trans h'.heap, h'.spare.trans h.spare, h.classes.trans h'.classes,
    fun hm => h'.statics (h.statics hm)⟩
  beside {m m'} h := by
    obtain ⟨mirrors, hheap⟩ := h.heap
    refine ⟨?_, h.spare, ?_, ?_⟩
    · rw [hheap]
      exact .of_objects_eq rfl rfl rfl
    · rw [h.classes]
      exact .same
    · rw [h.statics, h.classes]
      exact id
  pin m r := .reheap (m.heap.pin_secures r)
  pinning rs x hx := by
    intro m
    have hrests := hx { m with heap := m.heap.pinAll rs }
    show Rests m (final (Machine.ensuring x (fun n => { n with heap := n.heap.unpinAll rs })
      { m with heap := m.heap.pinAll rs }))
    rw [final_ensuring]
    exact ⟨hrests.heap.pinned_for, hrests.spare, hrests.classes, hrests.statics⟩
  reframe h _ := ⟨h.heap, h.spare, h.classes, h.statics⟩

theorem onLinker_rests {x : StateM Linker α} (hx : Linker.Turning x) : Follows Rests (onLinker x) := fun m =>
  .relink (hx m.linker)

theorem onSync_rests {r : Option ThreadId} {x : SyncM FrameStack α} (hx : Sync.Doing r x) :
    Follows Rests (onSync x) := by
  intro m
  have hends := hx ⟨m.heap, m.scheduler⟩
  have hafter : ∀ {s : Arena FrameStack}, m.heap.Secures s.heap →
      Rests m { m with heap := s.heap, scheduler := s.scheduler } := fun hs => ⟨hs, rfl, .same, id⟩
  unfold onSync
  cases hr : x ⟨m.heap, m.scheduler⟩ with
  | ok a s => exact hafter (hends.of_ok hr).heap.secures
  | error e s => exact hafter (hends.of_error hr).heap.secures

theorem reserve_rests (units : Nat) : Follows Rests (reserve units) := by
  intro m
  have hsecures := m.heap.reserve_secures m.roots units
  unfold reserve
  cases hr : m.heap.reserve m.roots units with
  | mk result h =>
    rw [hr] at hsecures
    cases result with
    | ok u => exact .reheap hsecures
    | error e => exact .reheap hsecures

theorem insertObject_rests (o : Object) : Follows Rests (insertObject o) := by
  intro m
  unfold insertObject
  dsimp only
  split
  · exact trail_rests.refl m
  · next hfree => exact .reheap (Heap.insert_secures (Bool.eq_false_iff.2 hfree))

/-- A literal has the string that was just made of its text. -/
theorem internString_rests {text : String} (hmake : Follows Rests (stringObject text)) :
    Follows Rests (internString text) := by
  refine Follows.read fun m => ?_
  cases m.heap.interned? text with
  | some r => exact trail_rests.pure r
  | none =>
    intro m
    refine leads_bind (hmake m) fun r m₁ hmade h₁ => trail_rests.trans h₁ (.reheap (Heap.intern_secures ?_))
    have hallocated : allocate (Object.ofPayload m.core.string [] (.str text)) m = .ok r m₁ := hmade
    show (m₁.heap.get? r).bind Object.text? = some text
    rw [(allocate_made hallocated).2]
    rfl

theorem track_rests : Track Rests where
  toTrail := trail_rests
  onLinker hx := onLinker_rests hx.turning
  onSync hx _ := onSync_rests hx
  reserve := reserve_rests
  collectGarbage m := .reheap (m.heap.collect_secures m.roots)
  newInstance id := trail_rests.sequel.newInstance (onLinker_rests (Linker.consulting_prepare id).turning) reserve_rests
    fun _ => insertObject_rests _
  insertObject _ _ _ := insertObject_rests _
  setField r _ _ m := .reheap (m.heap.update_secures r fun _ _ => .of_payload rfl rfl)
  intern _ hmake := internString_rests hmake
  writeElement array index v m := .reheap (m.heap.update_secures array fun o _ => Heap.persists_written o index v)

theorem writes_rests : Rules.Writes (Following Rests) :=
  ⟨fun _ _ _ => insertObject_rests _, track_rests.writeElement, fun array index child m =>
    .reheap (m.heap.update_secures array fun o _ => Heap.persists_setElement o index (.ref child))⟩

theorem road_rests : Road Rests where
  toTrack := track_rests
  register d := onLinker_rests (Linker.turning_register d)
  takePendingInit id m := ⟨.refl _, rfl, .aside .same (ClassTable.spares_takePendingInit id _), fun h => h.takePendingInit id⟩
  takeUp {m id} kinds hpending := by
    refine ⟨.refl _, rfl, .aside .same (ClassTable.spares_takePendingInit id _), fun h => ?_⟩
    obtain ⟨c, hc, hc'⟩ := Option.map_eq_some_iff.1 hpending
    obtain ⟨c', hget, _, hsame, _⟩ := ClassTable.takePendingInit_precedes id m.classes id c hc
    exact (h.takePendingInit id).ensure kinds ⟨c', hget, hsame.trans (h.pending id c hc hc')⟩
  setStatic hs := ⟨.refl _, rfl, .same, fun h => h.set? hs⟩
  newPrimitiveArray := (track_rests.rules (t := 1)).newPrimitiveArray writes_rests
  newMultiArray := (track_rests.rules (t := 1)).newMultiArray writes_rests
  newRefArray {m _ id} length _ _ := (track_rests.rules (t := 1)).newArray writes_rests id .reference length m
  attach {m object o} c ho hpayload := .reheap (m.heap.update_secures object fun o' ho' => by
    cases ho.symm.trans ho'
    exact .of_textless rfl (by rcases hpayload with h | ⟨_, h⟩ <;> rw [Object.text?, h]))
  call {m id _} args _ := by
    have h := Rests.relink (m := m) ((Linker.consulting_link id).turning m.linker)
    exact ⟨h.heap, h.spare, h.classes, h.statics⟩

theorem becomes_of_create {l : Linker} (hl : l.Reachable) {config : Config} {now : UInt64}
    (h : create l.classes config now = .ok m) : ClassTable.Becomes {} m.classes := by
  obtain ⟨access, hleads⟩ := hl
  exact (Linker.Changes.becomes (Linker.Leads.changes hleads)).trans (kept_by_create keeping_turns h).1.becomes

theorem unarrayed_of_create {l : Linker} (hl : l.Reachable) {config : Config} {now : UInt64}
    (h : create l.classes config now = .ok m) : m.statics.Unarrayed m.classes := by
  have hempty : ({} : Statics).Unarrayed {} := by
    refine ⟨fun id c hc => ?_, fun id values hvalues => ?_⟩
    · rw [show ({} : ClassTable).get? id = none from rfl] at hc
      cases hc
    · simp [Statics.slots?] at hvalues
  have hstatics : m.statics = {} := by
    obtain ⟨core, linker, id, object, -, -, rfl⟩ := create_eq h
    rfl
  exact hstatics ▸ hempty.unfolds (unfolds_of_create hl h)

/-- A new machine has no literals, and has pinned the exception for a full heap. -/
theorem spare_of_create {classes : ClassTable} {config : Config} {now : UInt64}
    (h : create classes config now = .ok m) : m.heap.Spelt ∧ m.outOfMemory ∈ m.heap.pinned ∧
      m.outOfMemory.isNull = false ∧ ∃ o, m.heap.get? m.outOfMemory = some o ∧
        m.classes.lookup? CoreName.outOfMemory = some o.type := by
  obtain ⟨core, linker, id, object, hlookup, hobject, rfl⟩ := create_eq h
  refine ⟨fun text r hr => ?_, List.mem_cons_self, rfl, object, Std.ExtTreeMap.getElem?_insert_self, ?_⟩
  · rw [show Heap.interned? _ text = none from Std.ExtTreeMap.getElem?_empty] at hr
    cases hr
  · rw [hobject]
    exact hlookup

end Machine

end ClassMachine
