import ClassMachine.Proofs.Heap.Monitors
import ClassMachine.Proofs.Link.Subtypes

/-!
What arrays hold. The class of an array says what its elements are, and elements that name objects name
live ones of that class. A collection keeps it so, because whatever a surviving array names survives with
it, and handles of objects that are gone may be used again for objects of any class.
-/
namespace ClassMachine

namespace Object

/-- A reference among the elements of an array. -/
def HasElement (o : Object) (r : Ref) : Prop :=
  r.isNull = false ∧ ∃ kind elements, o.elements? = some (kind, elements) ∧ Value.ref r ∈ elements

theorem elements?_eq_some {o : Object} {kind : Kind} {elements : Array Value} :
    o.elements? = some (kind, elements) ↔ o.payload = .array kind elements := by
  unfold elements?
  cases o.payload <;> simp

theorem HasElement.refersTo {o : Object} {r : Ref} (h : o.HasElement r) : o.RefersTo r := by
  obtain ⟨hr, kind, elements, helements, hmem⟩ := h
  exact ⟨hr, .inr (.inl ⟨kind, elements, elements?_eq_some.1 helements, hmem⟩)⟩

theorem HasElement.of_elements? {o o' : Object} {r : Ref} (h : o'.HasElement r)
    (he : o'.elements? = o.elements?) : o.HasElement r := by
  obtain ⟨hr, kind, elements, helements, hmem⟩ := h
  exact ⟨hr, kind, elements, he ▸ helements, hmem⟩

@[simp] theorem type_setElement (o : Object) (index : Nat) (v : Value) : (o.setElement index v).type = o.type := by
  unfold setElement
  split <;> rfl

/-- Writing an element makes no array of what is none. -/
theorem elements?_setElement_isSome (o : Object) (index : Nat) (v : Value) :
    (o.setElement index v).elements?.isSome = o.elements?.isSome := by
  unfold setElement elements?
  cases hp : o.payload <;> simp [hp]

theorem HasElement.of_setElement {o : Object} {index : Nat} {v : Value} {r : Ref}
    (h : (o.setElement index v).HasElement r) : o.HasElement r ∨ v = .ref r := by
  obtain ⟨hr, kind, elements, helements, hmem⟩ := h
  unfold setElement at helements
  split at helements
  · next kind' elements' hpayload =>
    cases helements
    rcases Array.mem_or_eq_of_mem_setIfInBounds hmem with hmem | rfl
    · exact .inl ⟨hr, kind, elements', elements?_eq_some.2 hpayload, hmem⟩
    · exact .inr rfl
  · exact .inl ⟨hr, kind, elements, helements, hmem⟩

theorem eq_of_narrowTo_eq_ref {v : Value} {kind : Kind} {r : Ref} (h : v.narrowTo kind = .ref r) : v = .ref r := by
  unfold Value.narrowTo at h
  split at h
  case h_5 => exact h
  all_goals cases h

/-- An element is written as arrays of its kind have it, and what is no array is left alone. -/
def written (index : Nat) (v : Value) (o : Object) : Object :=
  match o.elements? with
  | some (kind, _) => o.setElement index (v.narrowTo kind)
  | none => o

@[simp] theorem type_written (o : Object) (index : Nat) (v : Value) : (o.written index v).type = o.type := by
  unfold written
  split
  · exact o.type_setElement index _
  · rfl

theorem elements?_written_isSome (o : Object) (index : Nat) (v : Value) :
    (o.written index v).elements?.isSome = o.elements?.isSome := by
  unfold written
  split
  · exact o.elements?_setElement_isSome index _
  · rfl

theorem HasElement.of_written {o : Object} {index : Nat} {v : Value} {r : Ref}
    (h : (o.written index v).HasElement r) : o.HasElement r ∨ v = .ref r := by
  unfold written at h
  split at h
  · exact h.of_setElement.imp_right eq_of_narrowTo_eq_ref
  · exact .inl h

/-- A new array has no elements that name anything. -/
theorem not_hasElement_arrayOf (id : ClassId) (kind : Kind) (length : Nat) (r : Ref) :
    ¬ (arrayOf id kind length).HasElement r := by
  rintro ⟨hr, kind', elements, helements, hmem⟩
  cases helements
  obtain ⟨_, hzero⟩ := Array.mem_replicate.1 hmem
  cases kind with
  | reference =>
    cases hzero
    cases hr
  | _ => cases hzero

end Object

namespace Heap

variable {t t' : ClassTable} {h h' h'' : Heap}

/-- An array of a class that is there, with elements its class allows. -/
structure Furnishes (t : ClassTable) (h : Heap) (o : Object) : Prop where
  known : ∃ c, t.get? o.type = some c
  elements : ∀ c inner, t.get? o.type = some c → c.element = some (.reference inner) →
    ∀ r, o.HasElement r → ∃ o', h.get? r = some o' ∧ t.Is o'.type inner

/-- All arrays hold what their classes allow. -/
def Furnished (t : ClassTable) (h : Heap) : Prop :=
  ∀ r o, h.get? r = some o → o.elements?.isSome → Furnishes t h o

theorem Furnishes.retains {o : Object} (ho : Furnishes t h o) (hr : t.Retains t') (ht : t.Moored) :
    Furnishes t' h o := by
  obtain ⟨c, hc⟩ := ho.known
  obtain ⟨c', hc', hsame⟩ := hr.known _ c hc
  refine ⟨⟨c', hc'⟩, fun d inner hd hinner r hmem => ?_⟩
  cases hc'.symm.trans hd
  obtain ⟨o', ho', his⟩ := ho.elements c inner hc (hsame ▸ hinner) r hmem
  exact ⟨o', ho', his.retains hr ht⟩

/-- Loading classes and finding out about them takes nothing away from what arrays may hold. -/
theorem Furnished.retains (ho : h.Furnished t) (hr : t.Retains t') (ht : t.Moored) : h.Furnished t' :=
  fun r o hget harray => (ho r o hget harray).retains hr ht

/-- What is pinned stays, with its class, and arrays that are left hold the same objects as before. -/
structure Carries (h h' : Heap) : Prop where
  pinned : h'.pinned = h.pinned
  next : h.nextHandle ≠ 0 → h'.nextHandle ≠ 0
  held : ∀ r ∈ h.pinned, ∀ o, h.get? r = some o → ∃ o', h'.get? r = some o' ∧ o'.type = o.type
  arrays : ∀ r o', h'.get? r = some o' → o'.elements?.isSome → ∃ o, h.get? r = some o ∧ o'.type = o.type ∧
    o'.elements? = o.elements? ∧ ∀ x, o.HasElement x → ∀ y, h.get? x = some y →
      ∃ y', h'.get? x = some y' ∧ y'.type = y.type

theorem Furnished.carries (ho : h.Furnished t) (hc : h.Carries h') : h'.Furnished t := by
  intro r o' ho' harray
  obtain ⟨o, hget, htype, helements, hkept⟩ := hc.arrays r o' ho' harray
  have hfurnished := ho r o hget (helements ▸ harray)
  refine ⟨htype ▸ hfurnished.known, fun c inner hc hinner x hx => ?_⟩
  have hx := hx.of_elements? helements
  obtain ⟨y, hy, his⟩ := hfurnished.elements c inner (htype ▸ hc) hinner x hx
  obtain ⟨y', hy', hsame⟩ := hkept x hx y hy
  exact ⟨y', hy', hsame ▸ his⟩

theorem Furnished.of_objects_eq (ho : h.Furnished t) (hsame : h'.objects = h.objects) : h'.Furnished t := by
  have hget : ∀ r, h'.get? r = h.get? r := by
    intro r
    unfold Heap.get?
    rw [hsame]
  intro r o hr harray
  have hfurnished := ho r o (hget r ▸ hr) harray
  refine ⟨hfurnished.known, fun c inner hc hinner x hx => ?_⟩
  obtain ⟨y, hy, his⟩ := hfurnished.elements c inner hc hinner x hx
  exact ⟨y, (hget x).trans hy, his⟩

/-- Objects keep their classes and what arrays hold. -/
theorem carries_of_pointwise (hobjects : ∀ r, Option.Rel
      (fun o o' : Object => o'.type = o.type ∧ o'.elements? = o.elements?) (h.get? r) (h'.get? r))
    (hpinned : h'.pinned = h.pinned) (hnext : h'.nextHandle = h.nextHandle) : h.Carries h' := by
  have hstays : ∀ r o, h.get? r = some o → ∃ o', h'.get? r = some o' ∧ o'.type = o.type := by
    intro r o ho
    have hrel := hobjects r
    rw [ho] at hrel
    generalize h'.get? r = found at *
    cases hrel with
    | some hsame => exact ⟨_, rfl, hsame.1⟩
  refine ⟨hpinned, fun hn => hnext ▸ hn, fun r _ o ho => hstays r o ho, fun r o' ho' _ => ?_⟩
  have hrel := hobjects r
  rw [ho'] at hrel
  generalize h.get? r = found at *
  cases hrel with
  | some hsame => exact ⟨_, rfl, hsame.1, hsame.2, fun x _ y hy => hstays x y hy⟩

theorem Carries.of_objects_eq (ho : h'.objects = h.objects) (hpinned : h'.pinned = h.pinned)
    (hnext : h'.nextHandle = h.nextHandle) : h.Carries h' := by
  refine carries_of_pointwise (fun r => ?_) hpinned hnext
  rw [show h'.get? r = h.get? r by rw [Heap.get?, ho]; rfl]
  cases h.get? r with
  | none => exact .none
  | some o => exact .some ⟨rfl, rfl⟩

theorem Carries.refl (h : Heap) : h.Carries h := .of_objects_eq rfl rfl rfl

theorem update_carries (h : Heap) (r : Ref) {f : Object → Object} (htype : ∀ o, (f o).type = o.type)
    (helements : ∀ o, (f o).elements? = o.elements?) : h.Carries (h.update r f) := by
  refine carries_of_pointwise (fun r' => ?_) rfl rfl
  rw [get?_update]
  cases h.get? r' with
  | none => split <;> exact .none
  | some o =>
    split
    · exact .some ⟨htype o, helements o⟩
    · exact .some ⟨rfl, rfl⟩

section Collections

variable (roots : List Ref)

theorem leftBy_of_array {answers : List Answer} {r : Ref} {o : Object}
    (h : (leftBy answers r o).elements?.isSome) : leftBy answers r o = o := by
  unfold leftBy at h ⊢
  split
  · next a hfind =>
    rw [hfind] at h
    cases h
  · rfl

theorem type_leftBy (answers : List Answer) (r : Ref) (o : Object) : (leftBy answers r o).type = o.type := by
  unfold leftBy
  split <;> rfl

/-- What an array names survives with it. -/
theorem FreesGarbage.carries {answers : List Answer} {cycle : CollectionStats}
    (hf : FreesGarbage h roots answers cycle h') : h.Carries h' := by
  have hstays : ∀ r o, h.get? r = some o → h.Survives roots answers r →
      ∃ o', h'.get? r = some o' ∧ o'.type = o.type := fun r o ho hs =>
    ⟨_, (hf.get? r _).2 ⟨o, ho, hs, rfl⟩, type_leftBy answers r o⟩
  have hleft : ∀ {r o}, h.get? r = some o → h.asLeft answers r = some (leftBy answers r o) := by
    intro r o ho
    rw [asLeft, ho, Option.map_some]
  have hothers := hf.others
  refine ⟨by rw [hothers], fun hn => by rw [hothers]; exact hn, fun r hr o ho => ?_, fun r o' ho' harray => ?_⟩
  · exact hstays r o ho (.start (.inl (.start (.pinned hr) ho)) (hleft ho))
  · obtain ⟨o, ho, hs, rfl⟩ := (hf.get? r o').1 ho'
    have hsame := leftBy_of_array harray
    refine ⟨o, ho, by rw [hsame], by rw [hsame], fun x hx y hy => hstays x y hy ?_⟩
    exact hs.follow (hleft ho) (hsame.symm ▸ hx.refersTo) (hleft hy)

theorem collect_carries (h : Heap) : h.Carries (h.collect roots).2 := by
  obtain ⟨asked, answers, cycle, -, -, hfree⟩ := collect_frees h roots
  exact hfree.carries roots

theorem Carries.trans (hc : h.Carries h') (hc' : h'.Carries h'') : h.Carries h'' := by
  refine ⟨hc'.pinned.trans hc.pinned, fun hn => hc'.next (hc.next hn), fun r hr o ho => ?_, fun r o'' ho'' harray => ?_⟩
  · obtain ⟨o', ho', htype⟩ := hc.held r hr o ho
    obtain ⟨o'', ho'', htype'⟩ := hc'.held r (hc.pinned ▸ hr) o' ho'
    exact ⟨o'', ho'', htype'.trans htype⟩
  · obtain ⟨o', ho', htype', helements', hkept'⟩ := hc'.arrays r o'' ho'' harray
    obtain ⟨o, ho, htype, helements, hkept⟩ := hc.arrays r o' ho' (helements' ▸ harray)
    refine ⟨o, ho, htype'.trans htype, helements'.trans helements, fun x hx y hy => ?_⟩
    obtain ⟨y', hy', hsame⟩ := hkept x hx y hy
    obtain ⟨y'', hy'', hsame'⟩ := hkept' x (hx.of_elements? helements.symm) y' hy'
    exact ⟨y'', hy'', hsame'.trans hsame⟩

/-- Making room comes down to a collection, if anything. -/
theorem reserve_cases (h : Heap) (units : Nat) :
    (h.reserve roots units).2 = h ∨ ∃ capacity,
      (h.reserve roots units).2 = { (h.collect roots).2 with capacity := capacity } := by
  unfold reserve
  split
  · exact .inl rfl
  · refine .inr ?_
    dsimp only
    split
    · exact ⟨_, rfl⟩
    · cases ho : (h.collect roots).2.overflowed units with
      | error e => exact ⟨_, rfl⟩
      | ok h' =>
        unfold overflowed at ho
        cases hp : (h.collect roots).2.overflow with
        | expand =>
          rw [hp] at ho
          dsimp only at ho
          split at ho
          · cases ho
            exact ⟨_, rfl⟩
          · cases ho
        | throw => rw [hp] at ho; cases ho
        | abort => rw [hp] at ho; cases ho

theorem reserve_carries (h : Heap) (units : Nat) : h.Carries (h.reserve roots units).2 := by
  rcases reserve_cases roots h units with heq | ⟨capacity, heq⟩
  · rw [heq]
    exact .refl h
  · rw [heq]
    exact (collect_carries roots h).trans (.of_objects_eq rfl rfl rfl)

end Collections

section Objects

/-- An object that is added under a handle that named nothing. -/
theorem insert_fresh {o : Object} (hfree : h.contains (h.insert o).1 = false) (r : Ref) :
    (h.insert o).2.get? r = (if (h.insert o).1 = r then some o else h.get? r) ∧
      h.get? (h.insert o).1 = none := by
  have hget : (h.insert o).2.get? r =
      if (h.insert o).1.handle = r.handle then some o else h.get? r := Maps.getElem?_insert_eq _ _ _ _
  refine ⟨?_, ?_⟩
  · rw [hget]
    by_cases hr : (h.insert o).1 = r
    · rw [if_pos hr, if_pos (congrArg Ref.handle hr)]
    · rw [if_neg hr, if_neg fun heq => hr ?_]
      generalize (h.insert o).1 = r₀ at heq
      cases r₀
      cases r
      exact congrArg Ref.mk heq
  · unfold get?
    rw [← Heap.not_mem_iff, ← Std.ExtTreeMap.contains_iff_mem]
    exact Bool.not_eq_true _ ▸ hfree

/-- What is live when an object is added stays as it is. -/
theorem get?_insert_of_live {o x : Object} {r : Ref} (hfree : h.contains (h.insert o).1 = false)
    (hr : h.get? r = some x) : (h.insert o).2.get? r = some x := by
  obtain ⟨hget, hnone⟩ := insert_fresh hfree r
  rw [hget, if_neg, hr]
  intro heq
  rw [heq, hr] at hnone
  cases hnone

theorem insert_carries {o : Object} (hfree : h.contains (h.insert o).1 = false) (hplain : o.elements? = none) :
    h.Carries (h.insert o).2 := by
  refine ⟨rfl, fun _ => successor_ne_zero _, fun r _ x hx => ⟨x, get?_insert_of_live hfree hx, rfl⟩,
    fun r x hx harray => ?_⟩
  rw [(insert_fresh hfree r).1] at hx
  split at hx
  · cases hx
    rw [hplain] at harray
    cases harray
  · exact ⟨x, hx, rfl, rfl, fun y _ z hz => ⟨z, get?_insert_of_live hfree hz, rfl⟩⟩

/-- An array is added that names nothing, of a class that is there. -/
theorem Furnished.insert (ho : h.Furnished t) {o : Object} (hfree : h.contains (h.insert o).1 = false)
    (hknown : ∃ c, t.get? o.type = some c) (hempty : ∀ r, ¬ o.HasElement r) : (h.insert o).2.Furnished t := by
  intro r x hx harray
  rw [(insert_fresh hfree r).1] at hx
  split at hx
  · cases hx
    exact ⟨hknown, fun _ _ _ _ y hy => (hempty y hy).elim⟩
  · have hfurnished := ho r x hx harray
    refine ⟨hfurnished.known, fun c inner hc hinner y hy => ?_⟩
    obtain ⟨z, hz, his⟩ := hfurnished.elements c inner hc hinner y hy
    exact ⟨z, get?_insert_of_live hfree hz, his⟩

/-- A value that an array may be given: if it names anything, a live object of the class of the elements. -/
def Suits (t : ClassTable) (h : Heap) (array : Ref) (v : Value) : Prop :=
  ∀ o c inner r, h.get? array = some o → t.get? o.type = some c → c.element = some (.reference inner) →
    v = .ref r → r.isNull = false → ∃ o', h.get? r = some o' ∧ t.Is o'.type inner

theorem get?_update_type (array : Ref) {f : Object → Object} (htype : ∀ o, (f o).type = o.type) (r : Ref) :
    ((h.update array f).get? r).map Object.type = (h.get? r).map Object.type := by
  rw [get?_update]
  split
  · rw [Option.map_map]
    congr 1
    funext o
    exact htype o
  · rfl

theorem exists_type_iff {r : Ref} {id : ClassId} :
    (∃ o, h.get? r = some o ∧ o.type = id) ↔ (h.get? r).map Object.type = some id :=
  Option.map_eq_some_iff.symm

/-- An object is changed, and what it then has as elements it had before, or may be given. -/
theorem Furnished.update (ho : h.Furnished t) (array : Ref) {f : Object → Object} (htype : ∀ o, (f o).type = o.type)
    (hsome : ∀ o, (f o).elements?.isSome = o.elements?.isSome)
    (hf : ∀ o r, h.get? array = some o → (f o).HasElement r → o.HasElement r ∨ Suits t h array (.ref r)) :
    (h.update array f).Furnished t := by
  have hstays : ∀ r o, h.get? r = some o → ∃ o', (h.update array f).get? r = some o' ∧ o'.type = o.type := by
    intro r o ho
    rw [exists_type_iff, get?_update_type array htype, ho, Option.map_some]
  have hnamed : ∀ {r : Ref} {inner : ClassId}, (∃ o, h.get? r = some o ∧ t.Is o.type inner) →
      ∃ o', (h.update array f).get? r = some o' ∧ t.Is o'.type inner := by
    rintro r inner ⟨o, ho, his⟩
    obtain ⟨o', ho', hsame⟩ := hstays r o ho
    exact ⟨o', ho', hsame ▸ his⟩
  intro r o' ho' harray
  rw [get?_update] at ho'
  split at ho'
  · next hr =>
    obtain ⟨o, hget, rfl⟩ := Option.map_eq_some_iff.1 ho'
    subst hr
    have hfurnished := ho array o hget (hsome o ▸ harray)
    refine ⟨(htype o).symm ▸ hfurnished.known, fun c inner hc hinner x hx => ?_⟩
    rw [htype] at hc
    rcases hf o x hget hx with hold | hnew
    · exact hnamed (hfurnished.elements c inner hc hinner x hold)
    · exact hnamed (hnew o c inner x hget hc hinner rfl hx.1)
  · have hfurnished := ho r o' ho' harray
    exact ⟨hfurnished.known, fun c inner hc hinner x hx => hnamed (hfurnished.elements c inner hc hinner x hx)⟩

/-- What suits an array suits it when objects are changed in other ways than in their classes. -/
theorem Suits.update {array r : Ref} {v : Value} (hv : Suits t h array v) {f : Object → Object}
    (htype : ∀ o, (f o).type = o.type) : Suits t (h.update r f) array v := by
  intro o c inner x ho hc hinner hx hnull
  obtain ⟨o₀, ho₀, hsame⟩ := exists_type_iff.2 ((get?_update_type r htype array).symm.trans
    (exists_type_iff.1 ⟨o, ho, rfl⟩))
  obtain ⟨y, hy, his⟩ := hv o₀ c inner x ho₀ (hsame ▸ hc) hinner hx hnull
  obtain ⟨y', hy', hsame'⟩ := exists_type_iff.2 ((get?_update_type r htype x).trans
    (exists_type_iff.1 ⟨y, hy, rfl⟩))
  exact ⟨y', hy', hsame' ▸ his⟩

/-- What suits an array suits it when more is found out about classes. -/
theorem Suits.retains {array : Ref} {v : Value} (hv : Suits t h array v)
    (hknown : ∀ o, h.get? array = some o → ∃ c, t.get? o.type = some c) (hr : t.Retains t') (ht : t.Moored) :
    Suits t' h array v := by
  intro o c' inner r ho hc' hinner hv' hnull
  obtain ⟨c, hc⟩ := hknown o ho
  obtain ⟨d, hd, hsame⟩ := hr.known _ c hc
  cases hd.symm.trans hc'
  obtain ⟨y, hy, his⟩ := hv o c inner r ho hc (hsame ▸ hinner) hv' hnull
  exact ⟨y, hy, his.retains hr ht⟩

theorem Furnished.written (hf : h.Furnished t) {array : Ref} {v : Value} (hv : Suits t h array v) (index : Nat) :
    (h.update array (·.written index v)).Furnished t := by
  refine hf.update array (fun o => o.type_written index v) (fun o => o.elements?_written_isSome index v)
    fun o r _ hr => ?_
  rcases hr.of_written with hold | rfl
  · exact .inl hold
  · exact .inr hv

theorem Furnished.setElement (hf : h.Furnished t) {array : Ref} {v : Value} (hv : Suits t h array v) (index : Nat) :
    (h.update array (·.setElement index v)).Furnished t := by
  refine hf.update array (fun o => o.type_setElement index v) (fun o => o.elements?_setElement_isSome index v)
    fun o r _ hr => ?_
  rcases hr.of_setElement with hold | rfl
  · exact .inl hold
  · exact .inr hv

end Objects

end Heap

end ClassMachine
