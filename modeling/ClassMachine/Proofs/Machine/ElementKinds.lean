import ClassMachine.Proofs.Machine.ArrayCopies
import ClassMachine.Proofs.Machine.Trails

/-!
Kinds of elements. The class of an array tells of what kind its elements are. An array is made by a class that
tells the kind it is made with, which instructions owe to the names their classes were found by, and what is
written to it is cut down to that kind first. So arrays hold what their classes tell, however a machine came
about and whatever a host has asked of it since.
-/
namespace ClassMachine

theorem Value.narrowTo_narrowTo (v : Value) (kind : Kind) : (v.narrowTo kind).narrowTo kind = v.narrowTo kind := by
  cases v with
  | int v => cases kind <;> simp [Value.narrowTo, Int32.and_assoc]
  | _ => rfl

theorem Value.narrowTo_zeroOf (kind : Kind) : (Value.zeroOf kind).narrowTo kind = Value.zeroOf kind := by
  cases kind <;> rfl

namespace Object

variable {t t' : ClassTable} {o o' : Object} {id : ClassId} {kind : Kind}

/-- An array of a class that is there, which tells the kind of its elements, if of any. -/
def Graded (t : ClassTable) (o : Object) : Prop :=
  ∀ kind elements, o.elements? = some (kind, elements) →
    (∃ c, t.get? o.type = some c ∧ ∀ element, c.element = some element → element.kind = kind) ∧
      ∀ v ∈ elements, v.narrowTo kind = v

theorem graded_of_plain (h : o.elements? = none) : o.Graded t := fun _ _ he => by
  rw [h] at he
  cases he

theorem Graded.of_elements? (h : o.Graded t) (htype : o'.type = o.type) (he : o'.elements? = o.elements?) :
    o'.Graded t := by
  unfold Graded
  rw [htype, he]
  exact h

/-- What a class tells of elements it tells for good. -/
theorem Graded.precedes (h : o.Graded t) (hp : t.Precedes t') : o.Graded t' := by
  intro kind elements he
  obtain ⟨⟨c, hc, hkind⟩, hcut⟩ := h kind elements he
  obtain ⟨c', hc', _, hsame, _⟩ := hp _ c hc
  exact ⟨⟨c', hc', hsame ▸ hkind⟩, hcut⟩

theorem graded_arrayOf {c : ClassInfo} (hc : t.get? id = some c)
    (hkind : ∀ element, c.element = some element → element.kind = kind) (length : Nat) :
    (arrayOf id kind length).Graded t := by
  intro kind' elements he
  cases he
  refine ⟨⟨c, hc, hkind⟩, fun v hv => ?_⟩
  rw [(Array.mem_replicate.1 hv).2]
  exact Value.narrowTo_zeroOf kind

theorem Graded.setElement (h : o.Graded t) (index : Nat) {v : Value}
    (hv : ∀ kind elements, o.elements? = some (kind, elements) → v.narrowTo kind = v) :
    (o.setElement index v).Graded t := by
  intro kind elements he
  rw [type_setElement]
  unfold Object.setElement at he
  split at he
  · next kind' before hpayload =>
    cases he
    obtain ⟨hclass, hcut⟩ := h kind before (elements?_eq_some.2 hpayload)
    refine ⟨hclass, fun w hw => ?_⟩
    rcases Array.mem_or_eq_of_mem_setIfInBounds hw with hw | rfl
    · exact hcut w hw
    · exact hv kind before (elements?_eq_some.2 hpayload)
  · exact h kind elements he

theorem Graded.written (h : o.Graded t) (index : Nat) (v : Value) : (o.written index v).Graded t := by
  unfold Object.written
  split
  · next kind elements he =>
    refine h.setElement index fun kind' elements' he' => ?_
    cases he.symm.trans he'
    exact v.narrowTo_narrowTo kind
  · exact h

end Object

namespace Heap

variable {t t' : ClassTable} {h h' : Heap}

def Graded (t : ClassTable) (h : Heap) : Prop := ∀ r o, h.get? r = some o → o.Graded t

theorem Graded.kinded (hg : h.Graded t) : h.Kinded t := by
  intro r o c element kind elements ho hc helement he
  obtain ⟨⟨c', hc', hkind⟩, hcut⟩ := hg r o ho kind elements he
  cases hc.symm.trans hc'
  exact ⟨(hkind element helement).symm, hcut⟩

theorem Graded.precedes (hg : h.Graded t) (hp : t.Precedes t') : h.Graded t' := fun r o ho => (hg r o ho).precedes hp

/-- Arrays that are left hold what they held. -/
theorem Graded.carries (hg : h.Graded t) (hc : h.Carries h') : h'.Graded t := by
  intro r o' ho'
  cases he : o'.elements? with
  | none => exact Object.graded_of_plain he
  | some pair =>
    obtain ⟨o, ho, htype, hsame, _⟩ := hc.arrays r o' ho' (by rw [he]; rfl)
    exact (hg r o ho).of_elements? htype hsame

theorem Graded.of_objects_eq (hg : h.Graded t) (ho : h'.objects = h.objects) : h'.Graded t := fun r o hr =>
  hg r o (by rw [Heap.get?, ← ho]; exact hr)

theorem Graded.insert {o : Object} (hg : h.Graded t) (ho : o.Graded t)
    (hfree : h.contains (h.insert o).1 = false) : (h.insert o).2.Graded t := by
  intro r x hx
  rw [(insert_fresh hfree r).1] at hx
  split at hx
  · cases hx
    exact ho
  · exact hg r x hx

theorem Graded.update (hg : h.Graded t) (r : Ref) {f : Object → Object}
    (hf : ∀ o, h.get? r = some o → o.Graded t → (f o).Graded t) : (h.update r f).Graded t := by
  intro r' o' ho'
  rw [get?_update] at ho'
  split at ho'
  · next hsame =>
    obtain ⟨o, ho, rfl⟩ := Option.map_eq_some_iff.1 ho'
    have hr : h.get? r = some o := by rw [← ho, Heap.get?, Heap.get?, hsame]
    exact hf o hr (hg r' o ho)
  · exact hg r' o' ho'

end Heap

namespace Machine
open Stateful

variable {α : Type} {m m' : Machine} {t : ThreadId}

/-- Arrays hold what their classes tell, and bodies make arrays of references of classes that tell so. -/
structure Graded (m : Machine) : Prop where
  titled : m.classes.Titled
  linked : m.classes.Bodies fun t i => i.Referring t
  bodies : ∀ code, m.Stands code → code.All (fun t i => i.Referring t) m.classes
  heap : m.heap.Graded m.classes

/-- So they do afterwards, and classes are the same or more is known of them. -/
def Upgrades (m m' : Machine) : Prop := Graded m → Graded m' ∧ m.classes.Precedes m'.classes

namespace Upgrades

theorem trans {m'' : Machine} (h : Upgrades m m') (h' : Upgrades m' m'') : Upgrades m m'' := fun hm =>
  ⟨(h' (h hm).1).1, (h hm).2.trans (h' (h hm).1).2⟩

/-- The heap is another, and all else as it was. -/
theorem reheap {h : Heap} (hheap : m.heap.Graded m.classes → h.Graded m.classes) :
    Upgrades m { m with heap := h } := fun hm => by
  have haside : m.Aside { m with heap := h } := .of_eq rfl rfl rfl rfl
  exact ⟨⟨hm.titled, hm.linked, fun code hcode => hm.bodies code (haside.stands code hcode), hheap hm.heap⟩, .refl _⟩

theorem carries {h : Heap} (hc : m.heap.Carries h) : Upgrades m { m with heap := h } := .reheap (·.carries hc)

theorem relink {l : Linker} (hretains : m.classes.Retains l.classes) (hp : m.classes.Precedes l.classes)
    (hlinked : m.classes.Titled → (m.classes.Bodies fun t i => i.Referring t) →
      l.classes.Bodies fun t i => i.Referring t) : Upgrades m { m with linker := l } := fun hm => by
  refine ⟨⟨hretains.titled hm.titled, hlinked hm.titled hm.linked, fun code hcode => ?_, hm.heap.precedes hp⟩, hp⟩
  have hstands : m.Stands code := by
    cases hcode with
    | running hf hcode => exact .running hf hcode
    | parked hr hf hcode => exact .parked hr hf hcode
  exact lasting_referring.code (hm.bodies code hstands) hp

theorem restatic (h : Upgrades m m') (s : Statics) : Upgrades m { m' with statics := s } := fun hm => by
  obtain ⟨hm', hp⟩ := h hm
  refine ⟨⟨hm'.titled, hm'.linked, fun code hcode => hm'.bodies code ?_, hm'.heap⟩, hp⟩
  cases hcode with
  | running hf hcode => exact .running hf hcode
  | parked hr hf hcode => exact .parked hr hf hcode

end Upgrades

theorem trail_upgrades : Trail Upgrades where
  trans := .trans
  beside {m m'} h hm := by
    obtain ⟨mirrors, hheap⟩ := h.heap
    refine ⟨⟨?_, ?_, fun code hcode => ?_, ?_⟩, ?_⟩ <;> rw [h.classes]
    · exact hm.titled
    · exact hm.linked
    · exact hm.bodies code (h.stands code hcode)
    · exact hm.heap.of_objects_eq (congrArg (·.objects) hheap)
    · exact .refl _
  pin m r := .reheap (·.of_objects_eq (m.heap.objects_pinAll [r]).1)
  pinning rs _ hx := hx.pinning .trans (fun _ _ ho _ _ => .reheap (·.of_objects_eq ho)) rs
  reframe {m m' frames} h hframes hm := by
    obtain ⟨hm', hp⟩ := h hm
    refine ⟨⟨hm'.titled, hm'.linked, fun code hcode => ?_, hm'.heap⟩, hp⟩
    cases hcode with
    | running hf hcode =>
      obtain ⟨g, hg, hsame⟩ := hframes _ hf
      exact lasting_referring.code (hm.bodies code (.running hg (hsame.symm.trans hcode))) hp
    | parked hr hf hcode => exact hm'.bodies code (.parked hr hf hcode)

theorem onLinker_upgrades {x : StateM Linker α} (hx : Linker.Consulting x) : Follows Upgrades (onLinker x) := fun m =>
  .relink (Linker.Turns.retains (hx.turning m.linker)) (hx.turning m.linker).unfolds.precedes
    (Linker.Consults.bodies lasting_referring (hx m.linker))

theorem reserve_upgrades (units : Nat) : Follows Upgrades (reserve units) := by
  intro m
  have hcarries := Heap.reserve_carries m.roots m.heap units
  unfold reserve
  cases hr : m.heap.reserve m.roots units with
  | mk result h =>
    rw [hr] at hcarries
    cases result with
    | ok u => exact .carries hcarries
    | error e => exact .carries hcarries

theorem insertObject_upgrades {o : Object} (ho : Graded m → o.Graded m.classes) :
    Upgrades m (final (insertObject o m)) := by
  unfold insertObject
  dsimp only
  split
  · exact trail_upgrades.refl m
  · next hfree => exact fun hm => Upgrades.reheap (·.insert (ho hm) (Bool.eq_false_iff.2 hfree)) hm

theorem onSync_upgrades {x : SyncM FrameStack α} (hx : Sync.Gentle (fun _ => True) x) :
    Follows Upgrades (onSync x) := by
  intro m
  have hends := hx ⟨m.heap, m.scheduler⟩
  have heased : ∀ {s : Arena FrameStack}, Sync.Eased (fun _ => True) ⟨m.heap, m.scheduler⟩ s →
      Upgrades m { m with heap := s.heap, scheduler := s.scheduler } := fun {s} h => by
    have haside : ({ m with heap := s.heap } : Machine).Beside { m with heap := s.heap, scheduler := s.scheduler } :=
      Aside.beside (.of_pointwise (fun _ _ h => h.stack) h.threads rfl rfl rfl rfl) rfl rfl
    exact trail_upgrades.trans (.carries h.carries) (trail_upgrades.beside haside)
  unfold onSync
  cases hr : x ⟨m.heap, m.scheduler⟩ with
  | ok a s => exact heased (hends.of_ok hr)
  | error e s => exact heased (hends.of_error hr)

theorem track_upgrades : Track Upgrades where
  toTrail := trail_upgrades
  onLinker := onLinker_upgrades
  onSync _ hx := onSync_upgrades hx
  reserve := reserve_upgrades
  collectGarbage m := .carries (Heap.collect_carries m.roots m.heap)
  newInstance id := trail_upgrades.sequel.newInstance (onLinker_upgrades (Linker.consulting_prepare id))
    reserve_upgrades fun _ _ => insertObject_upgrades fun _ => Object.graded_of_plain rfl
  insertObject _ _ ho _ := insertObject_upgrades fun _ => Object.graded_of_plain ho
  setField r _ _ m := .carries (m.heap.update_carries r (fun _ => rfl) fun _ => rfl)
  intern _ hmake := trail_upgrades.sequel.internString trail_upgrades.pure hmake fun _ _ =>
    .reheap (·.of_objects_eq rfl)
  writeElement array index v _ := .reheap fun hg => hg.update array fun _ _ ho => ho.written index v

section Making

variable {id : ClassId} {kind : Kind}

/-- The class is there, and tells of elements of the kind, if of any. -/
def Tells (m : Machine) (id : ClassId) (kind : Kind) : Prop :=
  ∃ c, m.classes.get? id = some c ∧ ∀ element, c.element = some element → element.kind = kind

theorem Tells.precedes (h : m.Tells id kind) (hp : m.classes.Precedes m'.classes) : m'.Tells id kind := by
  obtain ⟨c, hc, hkind⟩ := h
  obtain ⟨c', hc', _, hsame, _⟩ := hp id c hc
  exact ⟨c', hc', hsame ▸ hkind⟩

theorem newArray_upgrades (length : Int32) (h : Graded m → m.Tells id kind) :
    Upgrades m (final (newArray id kind length m)) := by
  unfold newArray
  split
  · exact track_upgrades.raise _ _ m
  · intro hm
    refine leads_bind (R := Upgrades) (reserve_upgrades _ m) (fun _ m₁ _ h₁ => ?_) hm
    refine trail_upgrades.trans h₁ (insertObject_upgrades fun _ => ?_)
    obtain ⟨c, hc, hkind⟩ := (h hm).precedes (h₁ hm).2
    exact Object.graded_arrayOf hc hkind _

/-- The class was found by the name of arrays of the kind. -/
theorem newPrimitiveArray_upgrades (kind : Kind) : Follows Upgrades (newPrimitiveArray kind) := by
  intro m
  unfold newPrimitiveArray
  refine leads_bind (trail_upgrades.onTop Frame.plain_popInt m) fun length m₁ _ h₁ => trail_upgrades.trans h₁ ?_
  have hasks := Linker.consulting_asks (ClassTable.arrayOf_asks (.primitive kind))
  refine leads_bind (onLinker_upgrades hasks m₁) fun found m₂ hfound h₂ => ?_
  cases found with
  | error e => exact h₂
  | ok id =>
    refine trail_upgrades.trans h₂ (newArray_upgrades length fun hm => ?_)
    have hmade : (ClassTable.arrayOf (.primitive kind) m₁.classes).1 = .ok id := by injection hfound
    have hlater : { m₁ with linker := { m₁.linker with
        classes := (ClassTable.arrayOf (.primitive kind) m₁.classes).2 } } = m₂ := by injection hfound
    obtain ⟨name, hname, hlookup⟩ := ClassTable.lookup?_arrayOf hmade
    replace hlookup : m₂.classes.lookup? name = some id := hlater ▸ hlookup
    obtain ⟨c, hc⟩ := hm.titled.named name id hlookup
    refine ⟨c, hc, fun element helement => ?_⟩
    obtain ⟨component, htext, hkind⟩ := hm.titled.kinds name id c element hlookup hc helement
    exact hkind.trans (ClassTable.kind_of_arrayName hname htext)

/-- A class that tells of what kind its elements are has arrays of that kind made. -/
theorem newMultiArray_upgrades (lengths : List Int32) (id : ClassId) : Follows Upgrades (newMultiArray lengths id) := by
  have hr : Rules 1 (Following Upgrades) := track_upgrades.rules
  induction lengths generalizing id with
  | nil => exact trail_upgrades.throw _
  | cons length rest ih =>
    intro m
    unfold newMultiArray
    rw [bind_get]
    cases helement : (m.classes.get? id).bind (·.element) with
    | none => exact trail_upgrades.refl m
    | some element =>
      obtain ⟨c, hc, htold⟩ := Option.bind_eq_some_iff.1 helement
      have htells : m.Tells id element.kind := ⟨c, hc, fun element' h => by rw [Option.some.inj (htold.symm.trans h)]⟩
      refine leads_bind (newArray_upgrades length fun _ => htells) fun array m₁ _ h₁ => ?_
      cases element with
      | primitive kind => exact h₁
      | reference inner =>
        have hfill : ∀ index (child : Ref), Follows Upgrades
            (updateHeap fun h => h.update array (·.setElement index (.ref child))) := fun index child m =>
          .reheap fun hg => hg.update array fun _ _ ho => ho.setElement index fun kind _ _ => by cases kind <;> rfl
        dsimp only
        split
        · exact trail_upgrades.trans h₁ (trail_upgrades.bind (trail_upgrades.pinning [array]
            (hr.fillArray (ih inner) hfill _ 0)) (fun _ => trail_upgrades.pure _) m₁)
        · exact h₁

end Making

theorem takePendingInit_upgrades (id : ClassId) : Follows Upgrades (onClasses (ClassTable.takePendingInit id)) := fun m =>
  .relink (ClassTable.retains_takePendingInit id m.classes) (ClassTable.takePendingInit_precedes id m.classes)
    fun _ hlinked => hlinked.takePendingInit lasting_referring id

/-- An object that holds data of a host is no array, and what is put up as a frame was linked just before. -/
theorem road_upgrades : Road Upgrades where
  toTrack := track_upgrades
  register d m := .relink (Linker.Turns.retains (Linker.turning_register d m.linker))
    (Linker.turning_register d m.linker).unfolds.precedes
    fun _ hlinked => Linker.register_bodies lasting_referring d m.linker hlinked
  takePendingInit := takePendingInit_upgrades
  takeUp {m id} _ _ := (takePendingInit_upgrades id m).restatic _
  setStatic {m _ _ _ _} _ := (trail_upgrades.refl m).restatic _
  newPrimitiveArray := newPrimitiveArray_upgrades
  newMultiArray := newMultiArray_upgrades
  newRefArray length hstands hmem := newArray_upgrades length fun hm => hm.bodies _ hstands _ hmem
  attach c _ _ := .reheap fun hg => hg.update _ fun _ _ _ => Object.graded_of_plain rfl
  call {m id code} args hcode hm := by
    have hbodies := Linker.link_bodies lasting_referring id hm.titled hm.linked
    obtain ⟨hlinked, hp⟩ := onLinker_upgrades (Linker.consulting_link id) m hm
    refine ⟨⟨hlinked.titled, hlinked.linked, fun body hbody => ?_, hlinked.heap⟩, hp⟩
    cases hbody with
    | running hf hsame =>
      rcases List.mem_cons.1 hf with rfl | hf
      · exact hsame ▸ hbodies.2 code hcode
      · exact hlinked.bodies body (.running hf hsame)
    | parked hr hf hsame => exact hlinked.bodies body (.parked hr hf hsame)

section Hosts

/-- A new machine has no arrays yet. -/
theorem graded_of_create {l : Linker} (hl : l.Reachable) {config : Config} {now : UInt64}
    (h : create l.classes config now = .ok m) : Graded m := by
  obtain ⟨hkept, _⟩ := kept_by_create (Linker.keeping_bodies lasting_referring) h
  have hl : l.classes.Titled ∧ (l.classes.Bodies fun t i => i.Referring t) :=
    hl.bodies lasting_referring ClassTable.titled_empty
  obtain ⟨htitled, hlinked⟩ := hkept hl
  obtain ⟨core, linker, id, object, -, rfl, rfl⟩ := create_eq h
  have hempty : (Heap.ofConfig config).Graded linker.classes := by
    intro r o hr
    simp [Heap.get?, Heap.ofConfig] at hr
  refine ⟨htitled, hlinked, fun code hcode => ?_,
    (hempty.insert (Object.graded_of_plain rfl) (by rfl)).of_objects_eq rfl⟩
  cases hcode with
  | running hf _ => cases hf
  | parked hr _ _ => simp [Scheduler.get?] at hr

/-- Whatever a host does with a new machine, its arrays hold values of the kinds their classes tell. -/
theorem performed_kinded {l : Linker} (hl : l.Reachable) {config : Config} {now : UInt64}
    (h : create l.classes config now = .ok m) (acts : List HostAct) :
    (HostAct.performed .silent acts m).heap.Kinded (HostAct.performed .silent acts m).classes :=
  (road_upgrades.performed acts m (graded_of_create hl h)).1.heap.kinded

end Hosts

end Machine

end ClassMachine
