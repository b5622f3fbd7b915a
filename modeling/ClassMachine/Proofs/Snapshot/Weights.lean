import ClassMachine.Proofs.Class.Shape
import ClassMachine.Proofs.Machine.HeapEdits
import ClassMachine.Proofs.Snapshot.Restarts
import ClassMachine.Proofs.Snapshot.StaticFields

/-!
Weights across images. An image has the values of fields, and no weights. An object that is made of its record is
charged for its fields by their values, whichever way it was made first. That comes to the same for payloads, and
for fields of the kinds that values have on the stack. A field of a narrower kind is charged for more than it was,
so that an instance with such fields is heavier than the one it was recorded from.
-/
namespace ClassMachine
open Stateful

/-- What a field of the kind is charged for more when it is charged by its value. -/
def Kind.widening (k : Kind) : Nat := k.onStack.weight - k.weight

theorem Kind.weight_onStack (k : Kind) : k.onStack.weight = k.weight + k.widening := by cases k <;> rfl

theorem Kind.widening_eq_zero {k : Kind} : k.widening = 0 ↔ k.onStack = k := by cases k <;> decide

theorem total_map {α β : Type} (size : β → Nat) (f : α → β) (xs : List α) :
    total size (xs.map f) = total (fun x => size (f x)) xs := by
  unfold total
  rw [List.foldr_map]

theorem total_add {α : Type} (size size' : α → Nat) (xs : List α) :
    total (fun x => size x + size' x) xs = total size xs + total size' xs := by
  induction xs with
  | nil => rfl
  | cons x xs ih =>
    simp only [total_cons, ih]
    omega

theorem total_eq_zero {α : Type} {size : α → Nat} {xs : List α} : total size xs = 0 ↔ ∀ x ∈ xs, size x = 0 := by
  induction xs with
  | nil => simp
  | cons x xs ih => simp only [total_cons, Nat.add_eq_zero_iff, ih, List.forall_mem_cons]

/-- Values are charged as the kinds they have. -/
theorem Layout.total_valueWeight {layout : Layout} {values : List Value} (h : layout.Holds values) :
    total Object.valueWeight values = total Kind.weight layout.kinds + total Kind.widening layout.kinds := by
  have hvalue : ∀ v, Object.valueWeight v = v.kind.weight := fun v => by cases v <;> rfl
  calc total Object.valueWeight values
      = total (fun v => v.kind.weight) values := congrArg (total · values) (funext hvalue)
    _ = total Kind.weight (values.map Value.kind) := (total_map _ _ _).symm
    _ = total Kind.weight (layout.kinds.map Kind.onStack) := congrArg (total Kind.weight) h
    _ = total (fun k => k.onStack.weight) layout.kinds := total_map _ _ _
    _ = total (fun k => k.weight + k.widening) layout.kinds :=
        congrArg (total · layout.kinds) (funext Kind.weight_onStack)
    _ = total Kind.weight layout.kinds + total Kind.widening layout.kinds := total_add _ _ _

/-- What an object weighs that is made of the fields and the payload that this one has. -/
def Object.weightByValues (o : Object) : Nat := headerWeight + total valueWeight o.fields.toList + o.payload.weight

/-- An object of a machine, next to what a restoration made of its record. -/
structure Object.Reweighed (t : ClassTable) (o o' : Object) : Prop where
  charged : ∃ units, o.Weighs t units
  restored : o'.weight = o.weightByValues
  /-- Arrays, strings and the like have no fields. -/
  plain : o.fields.size = 0 → o'.weight = o.weight
  /-- An instance that was charged for the fields of its class. -/
  widened : ∀ c layout, t.get? o.type = some c → c.layout = some layout → layout.Holds o.fields.toList →
    o.weight = layout.size + o.payload.weight →
      o'.weight = o.weight + total Kind.widening layout.kinds ∧
      (o'.weight = o.weight ↔ ∀ k ∈ layout.kinds, k.onStack = k)

theorem Object.reweighed {t : ClassTable} {o o' : Object} {units : List Nat} (h : o.Weighs t units)
    (h' : o'.weight = o.weightByValues) : o.Reweighed t o' := by
  refine ⟨⟨units, h⟩, h', fun hempty => ?_, fun c layout _ _ hholds hweight => ?_⟩
  · have hunits : units = [] := List.length_eq_zero_iff.1 (h.count.trans hempty)
    have hfields : o.fields = #[] := Array.size_eq_zero_iff.1 hempty
    rw [h', h.weight, weightByValues, hunits, hfields]
    rfl
  · have hwider : o'.weight = o.weight + total Kind.widening layout.kinds := by
      rw [h', hweight, weightByValues, Layout.total_valueWeight hholds, Layout.size]
      omega
    refine ⟨hwider, ?_⟩
    rw [hwider, Nat.add_eq_left, total_eq_zero]
    exact forall₂_congr fun _ _ => Kind.widening_eq_zero

namespace Heap

variable {h h' : Heap}

/-- A heap whose objects are charged for their fields by the values they have. -/
structure ByValues (h : Heap) : Prop where
  sound : h.Sound
  objects : ∀ r o, h.get? r = some o → o.weight = o.weightByValues

theorem ByValues.of_objects_eq (hb : h.ByValues) (ho : h'.objects = h.objects) (hn : h'.nextHandle = h.nextHandle)
    (hu : h'.used = h.used) : h'.ByValues := by
  refine ⟨hb.sound.of_objects_eq ho hn hu, fun r o hr => hb.objects r o ?_⟩
  rwa [Heap.get?, ho] at hr

theorem ByValues.insertAt {r : Ref} {o : Object} (hb : h.ByValues) (ho : o.weight = o.weightByValues)
    (hi : h.insertAt? r o = some h') : h'.ByValues := by
  have hadds := insertAt_adds hi
  refine ⟨insertAt_sound hb.sound hi, fun r' o' hr' => ?_⟩
  by_cases hr : r' = r
  · rw [hr, hadds.added] at hr'
    cases hr'
    exact ho
  · rw [hadds.others r' hr] at hr'
    exact hb.objects r' o' hr'

theorem ByValues.weighed (hb : h.ByValues) (t : ClassTable) : h.Weighed t := by
  refine ⟨hb.sound, fun r o hr => ⟨o.fields.toList.map Object.valueWeight, ⟨by simp, .inr fun u hu => ?_⟩, ?_⟩⟩
  · obtain ⟨v, _, rfl⟩ := List.mem_map.1 hu
    exact Object.valueWeight_cases v
  · rw [Object.sum_map_eq_total]
    exact hb.objects r o hr

end Heap

namespace Snapshot
open ClassMachine.Lists Machine

variable {codecs : CodecRegistry} {classes : Resolved} {i : Image} {source target m : Machine}

section Restoration

/-- Heaps that are filled from records are charged by values. -/
theorem insertObjects_byValues {records : List ObjectRecord} {h h' : Heap} (hb : h.ByValues)
    (hrun : records.foldlM (insertObject classes codecs) h = .ok h') : h'.ByValues := by
  induction records generalizing h with
  | nil =>
    cases hrun
    exact hb
  | cons record records ih =>
    obtain ⟨h₂, hfirst, hrest⟩ := except_bind_ok.1 hrun
    obtain ⟨o, h₁, hrecorded, hweight, hinsert, hafter⟩ := insertObject_makes hfirst
    have hvalues : o.weight = o.weightByValues := by rw [hweight, Object.weightByValues, hrecorded.fields]
    have hb₁ := hb.insertAt hvalues hinsert
    refine ih ?_ hrest
    rcases hafter with rfl | ⟨id, rfl⟩
    · exact hb₁
    · exact hb₁.of_objects_eq rfl rfl rfl

theorem foldl_intern_byValues (strings : List (String × Ref)) {h : Heap} (hb : h.ByValues) :
    (strings.foldl (fun h (text, r) => h.intern text r) h).ByValues := by
  induction strings generalizing h with
  | nil => exact hb
  | cons p strings ih => exact ih (hb.of_objects_eq rfl rfl rfl)

theorem restore_byValues (h : restore codecs i target = .ok () m) : m.heap.ByValues := by
  obtain ⟨classes, s, l₁, l₂, -, hbuild, rfl⟩ := restore_ok h
  obtain ⟨-, hheap⟩ := state_heap hbuild
  obtain ⟨h₁, hobjects, heq⟩ := except_bind_ok.1 hheap
  have hempty : Heap.ByValues
      { capacity := (max i.heapCapacity target.config.heapCapacity).toNat, overflow := target.config.overflow } :=
    ⟨(Heap.Made.new _ _).sound, fun r o hr => by simp [Heap.get?] at hr⟩
  have hfilled := foldl_intern_byValues i.interned (insertObjects_byValues hempty hobjects)
  rw [Except.ok.inj heq] at hfilled
  show (s.heap.pin s.outOfMemory).ByValues
  unfold Heap.pin
  split
  · exact hfilled
  · exact hfilled.of_objects_eq rfl rfl rfl

theorem weight_of_recorded {t : ClassTable} {owner : String} {p p' : Payload} {written : PayloadRecord}
    (hwritten : payloadRecord t codecs owner p = .ok written)
    (hread : payload classes codecs owner written = .ok p') : p'.weight = p.weight := by
  cases p with
  | none =>
    cases hwritten
    cases hread
    rfl
  | array kind elements =>
    cases hwritten
    cases hread
    rfl
  | str text =>
    cases hwritten
    cases hread
    rfl
  | mirror id =>
    obtain ⟨name, -, rfl⟩ := except_map_ok.1 hwritten
    obtain ⟨id', -, rfl⟩ := except_map_ok.1 hread
    rfl
  | companion c =>
    obtain ⟨codec, -, hwritten⟩ := except_bind_ok.1 hwritten
    obtain ⟨bytes, -, hwritten⟩ := except_bind_ok.1 hwritten
    cases hwritten
    obtain ⟨codec', -, hread⟩ := except_bind_ok.1 hread
    obtain ⟨c', -, hread⟩ := except_bind_ok.1 hread
    cases hread
    rfl

/-- Each object comes from the one of its handle, and has its values. -/
theorem restore_weightByValues (hcapture : capture codecs source = .ok i) (h : restore codecs i target = .ok () m)
    {r : Ref} {o' : Object} (ho' : m.heap.get? r = some o') :
    ∃ o, source.heap.get? r = some o ∧ o'.weightByValues = o.weightByValues := by
  obtain ⟨classes, s, l₁, l₂, -, hbuild, rfl⟩ := restore_ok h
  obtain ⟨-, hheap⟩ := state_heap hbuild
  have hpin : (s.heap.pin s.outOfMemory).get? r = s.heap.get? r := by
    unfold Heap.pin
    split <;> rfl
  obtain ⟨record, hrecord, rfl, hrecorded⟩ := heap_recorded hheap (hpin.symm.trans ho')
  obtain ⟨⟨r, o⟩, hlisted, hwritten⟩ := exists_left (capture_ok.1 hcapture).objects hrecord
  obtain ⟨hr, -, hfields, hpayload⟩ := objectRecord_ok hwritten
  refine ⟨o, hr ▸ mem_heap_toList.1 hlisted, ?_⟩
  unfold Object.weightByValues
  rw [hrecorded.fields, hfields, weight_of_recorded hpayload hrecorded.payload]

/-- The same handles name objects, and each weighs what the values come to. -/
theorem weight_restore (hcapture : capture codecs source = .ok i) (h : restore codecs i target = .ok () m) (r : Ref) :
    (m.heap.get? r).map Object.weight = (source.heap.get? r).map Object.weightByValues := by
  cases ho' : m.heap.get? r with
  | none =>
    cases ho : source.heap.get? r with
    | none => rfl
    | some o =>
      have hlive := restore_live hcapture h (o := r) (by rw [ho]; rfl)
      rw [ho'] at hlive
      cases hlive
  | some o' =>
    obtain ⟨o, ho, hsame⟩ := restore_weightByValues hcapture h ho'
    rw [ho, Option.map_some, Option.map_some, (restore_byValues h).objects r o' ho', hsame]

theorem used_restore (hcapture : capture codecs source = .ok i) (h : restore codecs i target = .ok () m) :
    m.heap.used = total (fun e => e.2.weightByValues) source.heap.toList := by
  let revalued : List (Ref × Object) :=
    source.heap.toList.map fun e => (e.1, { e.2 with weight := e.2.weightByValues })
  have hnodup : (revalued.map (·.1)).Nodup := by
    rw [List.map_map]
    exact source.heap.nodup_toList
  have hmem : ∀ r w, (∃ o, (r, o) ∈ m.heap.toList ∧ o.weight = w) ↔ ∃ o, (r, o) ∈ revalued ∧ o.weight = w := by
    intro r w
    have hweight := weight_restore hcapture h r
    simp only [Heap.mem_toList, ← Option.map_eq_some_iff (f := Object.weight), hweight]
    simp [revalued, Heap.mem_toList]
  calc m.heap.used = Heap.weightOf m.heap.toList := (restore_byValues h).sound.accounted
    _ = Heap.weightOf revalued := (Heap.weightOf_congr m.heap.nodup_toList hnodup hmem).2
    _ = total (fun e => e.2.weightByValues) source.heap.toList := total_map _ _ _

end Restoration

section Reachable

/-- Machines whose heap no host has reached into. A host makes one, offers natives, asks for what it likes and
goes on from images, whatever comes of it. -/
inductive Untouched : Machine → Prop
  | made {table : ClassTable} {config : Config} {now : UInt64} {m : Machine} (h : create table config now = .ok m) :
      Untouched m
  | offered {m : Machine} (h : Untouched m) (owner name descriptor : String) (native : HostNative) :
      Untouched (final (registerNative owner name descriptor native m))
  | served {m : Machine} (h : Untouched m) (c : HostCall) : Untouched (final (c.serve m))
  | restored {m : Machine} (h : Untouched m) (codecs : CodecRegistry) (i : Image) :
      Untouched (final (restore codecs i m))

theorem Untouched.weighed (h : Untouched m) : m.heap.Weighed m.classes := by
  induction h with
  | made h => exact create_weighed h
  | offered _ owner name descriptor native ih => exact (registerNative_editing owner name descriptor native _).weighed ih
  | served _ c ih => exact (serve_editing c _).weighed ih
  | @restored m _ codecs i ih =>
    cases hr : restore codecs i m with
    | ok u m' => exact (restore_byValues hr).weighed m'.classes
    | error e m' =>
      have hrelinked := (restore_ends codecs i m).of_error hr
      have hedit : Heap.Edit m.stock m'.stock := by
        rw [hrelinked.others]
        exact .classes m.heap hrelinked.linker.classes.unfolds.precedes
      exact hedit.weighed ih

theorem Untouched.serveAll {calls : List HostCall} {m m' : Machine} (hm : Untouched m)
    (h : HostCall.serveAll calls m = some m') : Untouched m' := by
  refine HostCall.serveAll_keeps (fun c _ n n' hserved hn => ?_) h hm
  have hafter := hn.served c
  rwa [hserved] at hafter

/-- Objects come back under their handles, each weighing what its fields and payload come to by value. That is
what it weighed unless it was charged for fields of narrower kinds, and more by what these kinds are widened.
Where no object becomes heavier, no room is lost either. -/
theorem restored_weights (hsource : Untouched source) (hcapture : capture codecs source = .ok i)
    (hrestore : restore codecs i target = .ok () m) :
    (∀ r, Option.Rel (Object.Reweighed source.classes) (source.heap.get? r) (m.heap.get? r)) ∧
    source.heap.used = total (fun e => e.2.weight) source.heap.toList ∧
    m.heap.used = total (fun e => e.2.weightByValues) source.heap.toList ∧
    ((∀ r o, source.heap.get? r = some o → o.weightByValues = o.weight) →
      m.heap.used = source.heap.used ∧
      (m.heap.capacity = source.heap.capacity → ∀ units, m.heap.fits units = source.heap.fits units)) := by
  have hweighed := hsource.weighed
  have hused := used_restore hcapture hrestore
  refine ⟨fun r => ?_, hweighed.sound.accounted, hused, fun hsame => ?_⟩
  · have hweight := weight_restore hcapture hrestore r
    cases ho : source.heap.get? r with
    | none =>
      rw [ho, Option.map_none, Option.map_eq_none_iff] at hweight
      rw [hweight]
      exact .none
    | some o =>
      obtain ⟨units, hunits⟩ := hweighed.objects r o ho
      rw [ho, Option.map_some, Option.map_eq_some_iff] at hweight
      obtain ⟨o', ho', hvalues⟩ := hweight
      rw [ho']
      exact .some (Object.reweighed hunits hvalues)
  · have hrestored : m.heap.used = source.heap.used := by
      rw [hweighed.sound.accounted, (restore_byValues hrestore).sound.accounted]
      refine Heap.weightOf_toList_congr fun r => (weight_restore hcapture hrestore r).trans ?_
      cases ho : source.heap.get? r with
      | none => rfl
      | some o => exact congrArg some (hsame r o ho)
    refine ⟨hrestored, fun hcapacity units => ?_⟩
    unfold Heap.fits
    rw [hrestored, hcapacity]

end Reachable

section Widening

/-- A class with a narrow field and a method that makes an instance. -/
def flag : ClassDefinition where
  name := "Flag"
  fields := [⟨"on", "Z", {}⟩]
  constants := [.type "Flag"]
  methods := [{ name := "make", descriptor := "()LFlag;", flags := .staticFlag
                code := some { maxStack := 1, code := #[0xbb, 0, 1, 0xb0] } }]

/-- Whether the machine has an instance that was charged for its narrow field. -/
def flagged (m : Machine) : Bool :=
  (m.heap.get? ⟨2⟩).any fun o => decide (o.weight = 9 ∧ o.payload = .none) &&
    ((m.classes.get? o.type).bind ClassInfo.layout).any fun layout =>
      decide (layout.kinds = [.boolean] ∧ layout.Holds o.fields.toList)

/-- The instance is heavier after a restoration, and more is in use. -/
theorem restored_weights_flagged : ∃ source target i m o o', Untouched source ∧ Untouched target ∧
    capture [] source = .ok i ∧ restore [] i target = .ok () m ∧ source.heap.get? ⟨2⟩ = some o ∧
    m.heap.get? ⟨2⟩ = some o' ∧ o.weight = 9 ∧ o'.weight = 12 ∧ source.heap.used = 17 ∧ m.heap.used = 20 := by
  have hrun : (create spare.classes {} 0).toOption.any (fun m =>
      (HostCall.serveAll [.load flag] m).any fun fresh =>
        (HostCall.serveAll [.load flag, .invoke 4 "Flag" "make" "()LFlag;" []] m).any fun used =>
          restoresTo used fresh fun _ => flagged used && decide (used.heap.used = 17 ∧
            total (fun e => e.2.weightByValues) used.heap.toList = 20)) = true := by decide +kernel
  obtain ⟨m₀, hm₀, hrun⟩ := (Option.any_eq_true ..).1 hrun
  have hmade : Untouched m₀ := .made (created_of_toOption hm₀)
  obtain ⟨target, htarget, hrun⟩ := (Option.any_eq_true ..).1 hrun
  obtain ⟨source, hsource, hrun⟩ := (Option.any_eq_true ..).1 hrun
  have hregular : target.classes.Regular := (hosted_serveAll (hosted_of_spare hm₀) htarget).stored.regular
  obtain ⟨i, m, hcapture, hrestore, hresult⟩ := exists_of_restoresTo hregular hrun
  obtain ⟨hflagged, hused⟩ := Bool.and_eq_true_iff.1 hresult
  obtain ⟨hused, hvalues⟩ := of_decide_eq_true hused
  obtain ⟨o, ho, hflagged⟩ := (Option.any_eq_true ..).1 hflagged
  obtain ⟨hweight, hlaid⟩ := Bool.and_eq_true_iff.1 hflagged
  obtain ⟨hweight, hpayload⟩ := of_decide_eq_true hweight
  obtain ⟨layout, hlayout, hlaid⟩ := (Option.any_eq_true ..).1 hlaid
  obtain ⟨hkinds, hholds⟩ := of_decide_eq_true hlaid
  obtain ⟨c, hc, hlayout⟩ := Option.bind_eq_some_iff.1 hlayout
  have hall := restored_weights (hmade.serveAll hsource) hcapture hrestore
  have hrel := hall.1 ⟨2⟩
  rw [ho] at hrel
  obtain ⟨o', ho', hreweighed⟩ : ∃ o', m.heap.get? ⟨2⟩ = some o' ∧ o.Reweighed source.classes o' := by
    generalize m.heap.get? ⟨2⟩ = found at hrel
    cases hrel with
    | some h => exact ⟨_, rfl, h⟩
  have hcharged : o.weight = layout.size + o.payload.weight := by
    rw [hweight, hpayload, Layout.size, hkinds]
    rfl
  have hwider := (hreweighed.widened c layout hc hlayout hholds hcharged).1
  rw [hweight, hkinds] at hwider
  exact ⟨source, target, i, m, o, o', hmade.serveAll hsource, hmade.serveAll htarget, hcapture, hrestore, ho, ho',
    hweight, hwider, hused, hall.2.2.1.trans hvalues⟩

end Widening

end Snapshot

end ClassMachine
