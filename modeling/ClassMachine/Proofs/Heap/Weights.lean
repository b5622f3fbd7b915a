import ClassMachine.Proofs.Heap.Accounting
import ClassMachine.Proofs.Heap.Elements
import ClassMachine.Proofs.Link.Initialization
import ClassMachine.Proofs.Sync.Deeds

/-!
How objects come to their weights. An instance is charged for its fields by the kinds its class lays out when it
is made, and an object that is made of given values by these values. Its weight stays as it is from then on,
so it tells which of the two it was, whatever is done to the heap and to the classes.
-/
namespace ClassMachine

/-- A value takes one slot or two. -/
theorem Object.valueWeight_cases (v : Value) : Object.valueWeight v = 4 ∨ Object.valueWeight v = 8 := by
  unfold Object.valueWeight
  cases v.category with
  | one => exact .inl rfl
  | two => exact .inr rfl

namespace Object

variable {t t' : ClassTable} {o o' o'' : Object} {units : List Nat}

/-- What each field of an object is charged. It goes by the kinds its class lays out, or by values. -/
structure Charged (t : ClassTable) (o : Object) (units : List Nat) : Prop where
  count : units.length = o.fields.size
  origin : (∃ c layout, t.get? o.type = some c ∧ c.layout = some layout ∧ units = layout.kinds.map Kind.weight) ∨
    ∀ u ∈ units, u = 4 ∨ u = 8

/-- An object weighs what it is charged for its fields, besides its header and payload. -/
structure Weighs (t : ClassTable) (o : Object) (units : List Nat) : Prop extends Charged t o units where
  weight : o.weight = headerWeight + units.sum + o.payload.weight

/-- The same object as far as its weight goes. Values of fields and elements may be others. -/
structure SameBulk (o o' : Object) : Prop where
  type : o'.type = o.type
  fields : o'.fields.size = o.fields.size
  payload : o'.payload.weight = o.payload.weight
  weight : o'.weight = o.weight

theorem SameBulk.refl (o : Object) : SameBulk o o := ⟨rfl, rfl, rfl, rfl⟩

theorem Weighs.sameBulk (h : o.Weighs t units) (hs : SameBulk o o') : o'.Weighs t units := by
  refine ⟨⟨h.count.trans hs.fields.symm, ?_⟩, by rw [hs.weight, hs.payload, h.weight]⟩
  rw [hs.type]
  exact h.origin

/-- What a class lays out it lays out for good. -/
theorem Weighs.precedes (h : o.Weighs t units) (hp : t.Precedes t') : o.Weighs t' units := by
  refine ⟨⟨h.count, h.origin.imp_left ?_⟩, h.weight⟩
  rintro ⟨c, layout, hc, hlayout, hunits⟩
  obtain ⟨c', hc', hsettles, _⟩ := hp _ c hc
  exact ⟨c', layout, hc', (hsettles.layout layout hlayout).1, hunits⟩

theorem sum_map_eq_total {α : Type} (size : α → Nat) (xs : List α) : (xs.map size).sum = total size xs := by
  induction xs with
  | nil => rfl
  | cons x xs ih => rw [List.map_cons, List.sum_cons, ih, total_cons]

/-- Given values are charged by themselves. -/
theorem weighs_ofPayload (t : ClassTable) (type : ClassId) (fields : List Value) (p : Payload) :
    (ofPayload type fields p).Weighs t (fields.map valueWeight) := by
  refine ⟨⟨by simp [ofPayload], .inr fun u hu => ?_⟩, by rw [sum_map_eq_total]; rfl⟩
  obtain ⟨v, _, rfl⟩ := List.mem_map.1 hu
  exact valueWeight_cases v

/-- The fields of an instance are charged by their kinds. -/
theorem weighs_instanceOf {id : ClassId} {c : ClassInfo} (hc : t.get? id = some c) :
    ∃ units, (instanceOf id ((c.layout.map (·.kinds)).getD [])).Weighs t units := by
  cases hlayout : c.layout with
  | none => exact ⟨[], ⟨⟨rfl, .inr (List.forall_mem_nil _)⟩, rfl⟩⟩
  | some layout =>
    refine ⟨layout.kinds.map Kind.weight, ⟨⟨by simp [instanceOf], .inl ⟨c, layout, hc, hlayout, rfl⟩⟩, ?_⟩⟩
    rw [sum_map_eq_total]
    rfl

theorem sameBulk_setField (o : Object) (slot : Nat) (v : Value) : SameBulk o (o.setField slot v) :=
  ⟨rfl, Array.size_setIfInBounds, rfl, rfl⟩

theorem sameBulk_setElement (o : Object) (index : Nat) (v : Value) : SameBulk o (o.setElement index v) := by
  unfold setElement
  split
  · next kind elements hpayload =>
    refine ⟨rfl, rfl, ?_, rfl⟩
    rw [hpayload]
    simp only [Payload.weight, Array.size_setIfInBounds]
  · exact .refl o

theorem sameBulk_written (o : Object) (index : Nat) (v : Value) : SameBulk o (o.written index v) := by
  unfold written
  split
  · exact o.sameBulk_setElement index _
  · exact .refl o

theorem sameBulk_of_unmonitored (h : o'.unmonitored = o.unmonitored) : SameBulk o o' :=
  ⟨(congrArg type h :), (congrArg (·.fields.size) h :), (congrArg (·.payload.weight) h :), (congrArg weight h :)⟩

/-- Data of the host weighs nothing. -/
theorem sameBulk_companion (h : o.payload.weight = 0) (c : Companion) :
    SameBulk o { o with payload := .companion c } := ⟨rfl, rfl, h.symm, rfl⟩

end Object

namespace Heap

variable {t t' : ClassTable} {h h' : Heap}

/-- Objects are as they were, as far as their weights go. -/
structure Rewrites (h h' : Heap) : Prop where
  objects : ∀ r, Option.Rel Object.SameBulk (h.get? r) (h'.get? r)
  next : h'.nextHandle = h.nextHandle
  used : h'.used = h.used

theorem rewrites_of_objects_eq (ho : h'.objects = h.objects) (hn : h'.nextHandle = h.nextHandle)
    (hu : h'.used = h.used) : h.Rewrites h' := by
  refine ⟨fun r => ?_, hn, hu⟩
  rw [show h'.get? r = h.get? r by rw [Heap.get?, ho]; rfl]
  cases h.get? r with
  | none => exact .none
  | some o => exact .some (.refl o)

theorem update_rewrites (h : Heap) (r : Ref) {f : Object → Object}
    (hf : ∀ o, h.get? r = some o → Object.SameBulk o (f o)) : h.Rewrites (h.update r f) := by
  refine ⟨fun r' => ?_, rfl, rfl⟩
  rw [get?_update]
  split
  · next hr =>
    have hsame : h.get? r' = h.get? r := by unfold get?; rw [hr]
    rw [hsame]
    cases ho : h.get? r with
    | none => exact .none
    | some o => exact .some (hf o ho)
  · cases h.get? r' with
    | none => exact .none
    | some o => exact .some (.refl o)

theorem Remonitored.rewrites (hr : h.Remonitored h') : h.Rewrites h' := by
  refine ⟨fun r => ?_, by rw [hr.rest], by rw [hr.rest]⟩
  have hsame := hr.objects r
  cases ho : h.get? r with
  | none =>
    rw [ho, Option.map_none, Option.map_eq_none_iff] at hsame
    rw [hsame]
    exact .none
  | some o =>
    rw [ho, Option.map_some, Option.map_eq_some_iff] at hsame
    obtain ⟨o', ho', heq⟩ := hsame
    rw [ho']
    exact .some (Object.sameBulk_of_unmonitored heq)

theorem used_pinAll (rs : List Ref) (h : Heap) : (h.pinAll rs).used = h.used := by
  induction rs generalizing h with
  | nil => rfl
  | cons r rs ih =>
    refine (ih (h.pin r)).trans ?_
    unfold pin
    split <;> rfl

theorem used_unpinAll (rs : List Ref) (h : Heap) : (h.unpinAll rs).used = h.used := by
  induction rs generalizing h with
  | nil => rfl
  | cons r rs ih => exact ih (h.unpin r)

theorem pinAll_rewrites (rs : List Ref) (h : Heap) : h.Rewrites (h.pinAll rs) :=
  rewrites_of_objects_eq (h.objects_pinAll rs).1 (h.objects_pinAll rs).2 (h.used_pinAll rs)

/-- Objects a machine makes: instances of classes that are there, strings, mirrors and arrays. -/
inductive Makes (t : ClassTable) : Object → Prop
  | instanceOf {id : ClassId} {c : ClassInfo} (hc : t.get? id = some c) :
      Makes t (Object.instanceOf id ((c.layout.map (·.kinds)).getD []))
  | ofPayload (type : ClassId) (p : Payload) : Makes t (Object.ofPayload type [] p)

/-- One thing a machine does to its heap, or to the classes of what is in it. -/
inductive Edit : ClassTable × Heap → ClassTable × Heap → Prop
  | classes {t t' : ClassTable} (h : Heap) (hp : t.Precedes t') : Edit (t, h) (t', h)
  | rewrite (t : ClassTable) {h h' : Heap} (hr : h.Rewrites h') : Edit (t, h) (t, h')
  | collect (t : ClassTable) (h : Heap) (roots : List Ref) : Edit (t, h) (t, (h.collect roots).2)
  | insert {t : ClassTable} {h : Heap} {o : Object} (ho : Makes t o) (hfree : h.contains (h.insert o).1 = false) :
      Edit (t, h) (t, (h.insert o).2)

/-- One such thing after the other. -/
abbrev Edits : ClassTable × Heap → ClassTable × Heap → Prop := Relation.ReflTransGen Edit

theorem reserve_edits (t : ClassTable) (h : Heap) (roots : List Ref) (units : Nat) :
    Edits (t, h) (t, (h.reserve roots units).2) := by
  have hmakes := reserve_makesRoom h roots units
  generalize h.reserve roots units = result at hmakes
  have hcollect : Edits (t, h) (t, (h.collect roots).2) := .single (.collect t h roots)
  cases hmakes with
  | fits => exact .refl
  | collects => exact hcollect
  | grows => exact hcollect.tail (.rewrite t (rewrites_of_objects_eq rfl rfl rfl))
  | fails => exact hcollect

/-- The weights of all objects are accounted for, each by what its fields were charged. -/
structure Weighed (t : ClassTable) (h : Heap) : Prop where
  sound : h.Sound
  objects : ∀ r o, h.get? r = some o → ∃ units, o.Weighs t units

theorem Rewrites.weighed (hr : h.Rewrites h') (hw : h.Weighed t) : h'.Weighed t := by
  have hfrom : ∀ r o', h'.get? r = some o' → ∃ o, h.get? r = some o ∧ Object.SameBulk o o' := by
    intro r o' ho'
    have hrel := hr.objects r
    rw [ho'] at hrel
    generalize h.get? r = found at *
    cases hrel with
    | some hsame => exact ⟨_, rfl, hsame⟩
  refine ⟨hw.sound.of_weights (fun r => ?_) hr.next hr.used, fun r o' ho' => ?_⟩
  · have hrel := hr.objects r
    generalize h.get? r = before, h'.get? r = after at hrel
    cases hrel with
    | none => rfl
    | some hsame => exact congrArg some hsame.weight
  · obtain ⟨o, ho, hsame⟩ := hfrom r o' ho'
    obtain ⟨units, hunits⟩ := hw.objects r o ho
    exact ⟨units, hunits.sameBulk hsame⟩

/-- Only data of the host is asked before a collection, and only it may be other data afterwards. -/
theorem sameBulk_leftBy {σ : Type} {roots : List Ref} {ask : Ref → Companion → StateM σ (Bool × Companion)} {s : σ}
    {asked : List (Ref × Companion)} (hq : Questioned h roots asked) {r : Ref} {o : Object} (ho : h.get? r = some o) :
    Object.SameBulk o (leftBy (interview ask asked s).1 r o) := by
  unfold leftBy
  split
  · next a hfind =>
    have hmem : a.ref ∈ (interview ask asked s).1.map (·.ref) :=
      List.mem_map_of_mem (List.mem_of_find?_eq_some hfind)
    rw [map_ref_interview] at hmem
    obtain ⟨⟨r', c⟩, hasked, hr'⟩ := List.mem_map.1 hmem
    have hr : a.ref = r := by simpa using List.find?_some hfind
    obtain ⟨o', ho', hcompanion, _⟩ := (hq.mem r' c).1 hasked
    rw [show r' = r from hr'.trans hr, ho] at ho'
    cases ho'
    refine Object.sameBulk_companion ?_ a.companion
    rw [Object.companion?_eq_some.1 hcompanion]
    rfl
  · exact .refl o

theorem collect_weighed (roots : List Ref) (hw : h.Weighed t) : (h.collect roots).2.Weighed t := by
  refine ⟨collect_sound h roots hw.sound, fun r o' ho' => ?_⟩
  obtain ⟨asked, answers, cycle, hq, rfl, hfree⟩ := collect_frees h roots
  obtain ⟨o, ho, _, rfl⟩ := (hfree.get? r o').1 ho'
  obtain ⟨units, hunits⟩ := hw.objects r o ho
  exact ⟨units, hunits.sameBulk (sameBulk_leftBy hq ho)⟩

theorem insert_weighed {o : Object} (ho : ∃ units, o.Weighs t units) (hfree : h.contains (h.insert o).1 = false)
    (hw : h.Weighed t) : (h.insert o).2.Weighed t := by
  have hadds : Adds h o (h.insert o).1 (h.insert o).2 := adds_of_insert
    (beq_eq_false_iff_ne.2 (seekHandle_ne_zero h.objects h.size hw.sound.addressed.next))
    (insert_fresh hfree .null).2 rfl rfl
  refine ⟨⟨hadds.accounted hw.sound.accounted, successor_ne_zero _, hadds.null hw.sound.addressed⟩,
    fun r x hx => ?_⟩
  rw [(insert_fresh hfree r).1] at hx
  split at hx
  · cases hx
    exact ho
  · exact hw.objects r x hx

theorem Makes.weighs {o : Object} (ho : Makes t o) : ∃ units, o.Weighs t units := by
  cases ho with
  | instanceOf hc => exact Object.weighs_instanceOf hc
  | ofPayload type p => exact ⟨_, Object.weighs_ofPayload t type [] p⟩

/-- Objects go on weighing what they are charged. -/
theorem Edit.weighed {s s' : ClassTable × Heap} (he : Edit s s') (hw : s.2.Weighed s.1) : s'.2.Weighed s'.1 := by
  cases he with
  | classes h hp =>
    refine ⟨hw.sound, fun r o ho => ?_⟩
    obtain ⟨units, hunits⟩ := hw.objects r o ho
    exact ⟨units, hunits.precedes hp⟩
  | rewrite t hr => exact hr.weighed hw
  | collect t h roots => exact collect_weighed roots hw
  | insert ho hfree => exact insert_weighed ho.weighs hfree hw

theorem Edits.weighed {s s' : ClassTable × Heap} (he : Edits s s') (hw : s.2.Weighed s.1) : s'.2.Weighed s'.1 := by
  induction he with
  | refl => exact hw
  | tail _ he ih => exact he.weighed ih

end Heap

end ClassMachine
