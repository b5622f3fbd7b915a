import ClassMachine.Proofs.Machine.Furnishing

/-!
What makes and fills arrays. Three things write elements: a store, which compares the object to the class of
the elements; a copy, which compares one object after the other and stops at the first that does not fit; and
the making of arrays of arrays, where what is put in was made of the class of the elements. Each leaves arrays
as their classes allow, and so does whatever else an instruction is made of.
-/
namespace ClassMachine.Machine
open Stateful

variable {α β : Type} {t : ThreadId} {m : Machine}

/-- As a relation, of a computation to whatever else. -/
abbrev Maintained : Comparison := fun _ x _ => Maintaining x

theorem sequel_maintained : Sequel Maintained (@Maintained β) :=
  ⟨fun hx hf => hx.along hf, fun hf _ => .read hf, fun e _ => .throw e⟩

theorem popFrame_maintains (hm : Furnished m) : Maintains m { m with active := m.active.tail } :=
  .reframe hm fun _ hf => hm.bodies _ (.running (List.mem_of_mem_tail hf) rfl)

theorem rules_maintained : Rules t Maintained where
  seq := sequel_maintained
  pure := .pure
  onTop hx := .onTop hx
  popFrame := .modify fun _ hm => popFrame_maintains hm
  orPopFrame := by
    intro α x y hx m hm
    have hends := hx m hm
    unfold Machine.orPopFrame
    cases hr : x m with
    | ok a m' => exact hends.of_ok hr
    | error e m' =>
      have h := hends.of_error hr
      exact h.trans (popFrame_maintains h.furnished)
  onLinker hx := .onLinker hx
  reserve := .reserve
  newInstance id := sequel_maintained.newInstance (.onLinker (Linker.consulting_prepare id)) .reserve
    fun _ => .insertObject rfl
  insertObject _ _ ho := .insertObject ho
  setField r _ _ := .updateHeap fun h => Heap.update_carries h r (fun _ => rfl) fun _ => rfl
  intern _ hmake := sequel_maintained.internString .pure hmake fun _ => .updateHeap fun _ => .of_objects_eq rfl rfl rfl
  registerMirror _ _ := .updateHeap fun _ => .of_objects_eq rfl rfl rfl
  pinning rs _ _ hx := Maintaining.pinning rs hx
  collectGarbage := fun m hm => .reheap hm (Heap.collect_carries m.roots m.heap)
  currentThread := sequel_maintained.threadObject .pure fun _ => .updateThread t fun _ => rfl
  interrupt target := .onScheduler fun s => (s.interrupt_wakes target).alike
  exit object := .onSync (Sync.exit_gentle t object)
  notify object := .onSync (Sync.notify_gentle t object)
  notifyAll object := .onSync (Sync.notifyAll_gentle t object)

/-- As a relation, of a computation that fails in any case. -/
abbrev Failing : MachineM β → MachineM β → Prop := fun x _ =>
  ∀ m, Furnished m → Ends (x m) (fun _ _ => False) fun _ m' => Maintains m m'

theorem sequel_failing : Sequel Maintained (@Failing β) where
  along {α x y f g} hx hf := by
    intro m hm
    have hends := hx m hm
    cases hr : x m with
    | ok a m₁ =>
      have h₁ := hends.of_ok hr
      rw [bind_of_ok hr]
      exact (hf a ⟨m, m₁, hr⟩ m₁ h₁.furnished).mono (fun _ _ h => h) fun _ _ h => h₁.trans h
    | error e m₁ =>
      rw [bind_of_error hr]
      exact hends.of_error hr
  read hf _ := fun m hm => hf m m hm
  throw e _ := fun _ hm => .refl hm

theorem raise_maintains {Q : α → Machine → Prop} (hm : Furnished m) (className : String) (message : Option String) :
    Ends (raise className message m) Q fun _ m' => Maintains m m' :=
  ((rules_maintained (t := 1)).raise sequel_failing className message m hm).mono (fun _ _ h => h.elim) fun _ _ h => h

section Making

/-- A live object of a class. -/
def HasClass (m : Machine) (r : Ref) (id : ClassId) : Prop := ∃ o, m.heap.get? r = some o ∧ o.type = id

theorem HasClass.stays {m' : Machine} {r : Ref} {id : ClassId} (h : m.HasClass r id)
    (hkept : ∀ o, m.heap.get? r = some o → ∃ o', m'.heap.get? r = some o' ∧ o'.type = o.type) :
    m'.HasClass r id := by
  obtain ⟨o, ho, htype⟩ := h
  obtain ⟨o', ho', hsame⟩ := hkept o ho
  exact ⟨o', ho', hsame.trans htype⟩

theorem Maintains.known {m' : Machine} (h : Maintains m m') {id : ClassId} (hknown : ∃ c, m.classes.get? id = some c) :
    ∃ c, m'.classes.get? id = some c := by
  obtain ⟨c, hc⟩ := hknown
  obtain ⟨c', hc', _⟩ := h.retains.known id c hc
  exact ⟨c', hc'⟩

/-- An array that is made is live, and of its class. -/
theorem newArray_maintains (hm : Furnished m) {id : ClassId} (hknown : ∃ c, m.classes.get? id = some c)
    (kind : Kind) (length : Int32) :
    Ends (newArray id kind length m) (fun r m' => Maintains m m' ∧ r.isNull = false ∧ m'.HasClass r id)
      fun _ m' => Maintains m m' := by
  unfold newArray
  split
  · exact raise_maintains hm _ _
  · refine Ends.bind (E := fun (_ : Trap) m' => Maintains m m') (Maintaining.reserve _ m hm) fun _ m₁ h₁ => ?_
    unfold insertObject
    dsimp only
    split
    · exact h₁
    · next hfree =>
      have hfree := Bool.eq_false_iff.2 hfree
      have harrays := h₁.furnished.arrays.insert (o := Object.arrayOf id kind length.toInt.toNat) hfree
        (h₁.known hknown) (Object.not_hasElement_arrayOf id kind _)
      refine ⟨h₁.trans (.of_arrays h₁.furnished harrays rfl (Heap.successor_ne_zero _) fun r o ho =>
        ⟨o, Heap.get?_insert_of_live hfree ho, rfl⟩), ?_, ?_⟩
      · exact beq_eq_false_iff_ne.2 (Heap.seekHandle_ne_zero _ _ h₁.furnished.next)
      · exact ⟨_, by rw [(Heap.insert_fresh hfree _).1, if_pos rfl], rfl⟩

/-- Objects keep their classes, and arrays have only what suits them besides what they had. -/
theorem Maintains.update (hm : Furnished m) (r : Ref) {f : Object → Object} (htype : ∀ o, (f o).type = o.type)
    (harrays : (m.heap.update r f).Furnished m.classes) :
    Maintains m { m with heap := m.heap.update r f } := by
  refine .of_arrays hm harrays rfl hm.next fun x o ho => ?_
  rw [Heap.exists_type_iff, Heap.get?_update_type r htype, ho, Option.map_some]

/-- What arrays of arrays are filled with was made of the class of their elements. -/
theorem fillArray_maintains {array : Ref} {id inner : ClassId} {c : ClassInfo} {make : MachineM Ref}
    (hmake : ∀ m, Furnished m →
      Ends (make m) (fun r m' => Maintains m m' ∧ m'.HasClass r inner) fun _ m' => Maintains m m')
    (hm : Furnished m) (hpinned : array ∈ m.heap.pinned) (harray : m.HasClass array id)
    (hc : m.classes.get? id = some c) (hinner : c.element = some (.reference inner)) (count index : Nat) :
    Ends (fillArray array make count index m) (fun _ m' => Maintains m m') fun _ m' => Maintains m m' := by
  induction count generalizing m c index with
  | zero => exact .refl hm
  | succ count ih =>
    unfold fillArray
    refine (hmake m hm).bind fun child m₁ hmade => ?_
    obtain ⟨h₁, o', ho', hchild⟩ := hmade
    have harray₁ := harray.stays (h₁.held array hpinned)
    obtain ⟨c₁, hc₁, helement⟩ := h₁.retains.known id c hc
    have hsuits : Heap.Suits m₁.classes m₁.heap array (.ref child) := by
      intro o d inner' r ho hd hd' hr _
      cases hr
      obtain ⟨o₁, ho₁, htype⟩ := harray₁
      cases ho.symm.trans ho₁
      cases hc₁.symm.trans (htype ▸ hd)
      cases (helement.trans hinner).symm.trans hd'
      exact ⟨o', ho', hchild ▸ ClassTable.is_refl _ _⟩
    have h₂ := Maintains.update h₁.furnished array (fun o => o.type_setElement index (.ref child))
      (h₁.furnished.arrays.setElement hsuits index)
    have h := h₁.trans h₂
    exact (ih h.furnished (h.pinned ▸ hpinned) (harray.stays (h.held array hpinned))
      hc₁ (helement.trans hinner) (index + 1)).mono (fun _ _ h' => h.trans h') fun _ _ h' => h.trans h'

theorem newMultiArray_maintains (lengths : List Int32) (id : ClassId) (hm : Furnished m) :
    Ends (newMultiArray lengths id m) (fun r m' => Maintains m m' ∧ m'.HasClass r id)
      fun _ m' => Maintains m m' := by
  induction lengths generalizing id m with
  | nil => exact .refl hm
  | cons length rest ih =>
    unfold newMultiArray
    rw [bind_get]
    cases helement : (m.classes.get? id).bind (·.element) with
    | none => exact .refl hm
    | some element =>
      obtain ⟨c, hc, hinner⟩ := Option.bind_eq_some_iff.1 helement
      refine (newArray_maintains hm ⟨c, hc⟩ element.kind length).bind fun array m₁ hmade => ?_
      obtain ⟨h₁, hnonnull, hlive⟩ := hmade
      cases element with
      | primitive kind => exact ⟨h₁, hlive⟩
      | reference inner =>
        dsimp only
        split
        · obtain ⟨c₁, hc₁, hsame⟩ := h₁.retains.known id c hc
          have hfill := pinning_maintains [array] h₁.furnished
            (x := fillArray array (newMultiArray rest inner) length.toInt.toNat 0) fun hpinned =>
            fillArray_maintains (fun _ hm => ih inner hm) hpinned (mem_pinnedAll List.mem_cons_self hnonnull)
              (hlive.stays fun o ho => ⟨o, (get?_pinAll m₁.heap [array] array).trans ho, rfl⟩) hc₁
              (hsame.trans hinner) _ 0
          refine (hfill.mono (fun _ _ h => h) fun _ _ h => h₁.trans h).bind fun _ m₂ hfilled => ?_
          obtain ⟨h₂, hheld⟩ := hfilled
          exact ⟨h₁.trans h₂, hlive.stays (hheld array List.mem_cons_self hnonnull)⟩
        · exact ⟨h₁, hlive⟩

theorem newPrimitiveArray_maintains (kind : Kind) : Maintaining (newPrimitiveArray kind) := by
  intro m hm
  unfold newPrimitiveArray
  refine Ends.bind (E := fun (_ : Trap) m' => Maintains m m')
    (Maintaining.onTop Frame.plain_popInt m hm) fun length m₁ h₁ => ?_
  have hasks := ClassTable.arrayOf_asks (.primitive kind)
  have hlinked : Ends (onClasses (ClassTable.arrayOf (.primitive kind)) m₁)
      (fun found m₂ => Maintains m m₂ ∧ ∀ id, found = .ok id → ∃ c, m₂.classes.get? id = some c)
      fun (_ : Trap) m' => Maintains m m' := by
    have hmaintains := Maintaining.onLinker (Linker.consulting_asks hasks) m₁ h₁.furnished
    refine ⟨h₁.trans hmaintains, fun id hid => ?_⟩
    obtain ⟨name, _, hname⟩ := ClassTable.lookup?_arrayOf hid
    exact (hmaintains.of_ok rfl).furnished.moored.named name id hname
  refine hlinked.bind fun found m₂ ⟨h₂, hknown⟩ => ?_
  cases found with
  | error e => exact h₂
  | ok id =>
    exact (newArray_maintains h₂.furnished (hknown id rfl) kind length).mono (fun _ _ h => h₂.trans h.1)
      fun _ _ h => h₂.trans h

end Making

section Filling

/-- Values are written to an array one after the other, each of which suits it. -/
theorem writeElements_maintains {array : Ref} (values : List Value) (hm : Furnished m)
    (hvalues : ∀ v ∈ values, Heap.Suits m.classes m.heap array v) (index : Nat) :
    Ends (writeElements array index values m) (fun _ m' => Maintains m m') fun _ m' => Maintains m m' := by
  induction values generalizing m index with
  | nil => exact .refl hm
  | cons v rest ih =>
    have htype : ∀ o : Object, (o.written index v).type = o.type := fun o => o.type_written index v
    have h₁ := Maintains.update hm array htype (hm.arrays.written (hvalues v List.mem_cons_self) index)
    exact (ih h₁.furnished (fun w hw => (hvalues w (List.mem_cons_of_mem v hw)).update htype) (index + 1)).mono
      (fun _ _ h => h₁.trans h) fun _ _ h => h₁.trans h

/-- The class of what is found at `array` is there, and says `element` of elements. -/
def Types (m : Machine) (array : Ref) (element : Option ElementType) : Prop :=
  ∀ o, m.heap.get? array = some o → ∃ c, m.classes.get? o.type = some c ∧ c.element = element

theorem Types.stays {m' : Machine} {array : Ref} {element : Option ElementType} (h : m.Types array element)
    (hheap : m'.heap = m.heap) (hm : Maintains m m') : m'.Types array element := by
  intro o ho
  obtain ⟨c, hc, helement⟩ := h o (hheap ▸ ho)
  obtain ⟨c', hc', hsame⟩ := hm.retains.known _ c hc
  exact ⟨c', hc', hsame.trans helement⟩

theorem liveClass?_eq_some {r : Ref} {id : ClassId} :
    m.liveClass? r = some id ↔ r.isNull = false ∧ m.HasClass r id := by
  unfold liveClass? Ref.nonNull? HasClass
  cases r.isNull with
  | true => simp
  | false => simp [Option.map_eq_some_iff]

/-- An array takes only what suits it. What it takes is told by the class of its elements, and is live. -/
theorem accepts_maintains {array : Ref} {element : Option ElementType} {v : Value} (hm : Furnished m)
    (htypes : m.Types array element) (hv : ∀ inner, element = some (.reference inner) → v.Within m.heap.Names) :
    Ends (accepts element v m) (fun taken m' => Maintains m m' ∧ m'.heap = m.heap ∧
        (taken = true → Heap.Suits m'.classes m'.heap array v)) fun _ m' => Maintains m m' := by
  have helement : ∀ {o c inner}, m.heap.get? array = some o → m.classes.get? o.type = some c →
      c.element = some (.reference inner) → element = some (.reference inner) := by
    intro o c inner ho hc hinner
    obtain ⟨d, hd, hsame⟩ := htypes o ho
    cases hc.symm.trans hd
    exact hsame.symm.trans hinner
  unfold accepts
  split
  · next expected r =>
    have hlive := hv expected rfl
    rw [bind_get]
    cases hclass : m.liveClass? r with
    | none =>
      refine ⟨.refl hm, rfl, fun _ o c inner x _ _ _ hx hnull => ?_⟩
      cases hx
      have hdead := liveClass?_eq_some.2 ⟨hnull, _, Std.ExtTreeMap.getElem?_eq_some_getElem (hlive hnull), rfl⟩
      cases hclass.symm.trans hdead
    | some actual =>
      obtain ⟨_, y, hy, htype⟩ := liveClass?_eq_some.1 hclass
      have hasks := Linker.consulting_asks (ClassTable.isSubclass_asks actual expected)
      have h₁ := (Maintaining.onLinker hasks m hm).of_ok rfl
      refine ⟨h₁, rfl, fun htaken => Heap.Suits.retains (t := m.classes) ?_ ?_ h₁.retains hm.moored⟩
      · intro o c inner x ho hc hinner hx _
        cases hx
        cases helement ho hc hinner
        exact ⟨y, hy, htype ▸ htaken⟩
      · intro o ho
        obtain ⟨c, hc, _⟩ := htypes o ho
        exact ⟨c, hc⟩
  · next hother =>
    refine ⟨.refl hm, rfl, fun _ o c inner x ho hc hinner hx _ => ?_⟩
    exact (hother inner x (helement ho hc hinner) hx).elim

/-- A store leaves arrays as their classes allow, whether or not the array takes the value. -/
theorem storeElement_maintains (hm : Furnished m) (array : Ref) (index : Int32) {v : Value}
    (hv : v.Within m.heap.Names) :
    Ends (storeElement array index v m) (fun _ m' => Maintains m m') fun _ m' => Maintains m m' := by
  unfold storeElement elementsOf
  split
  · exact (raise_maintains (Q := fun (_ : Array Value) _ => False) hm _ _).bind fun _ _ h => h.elim
  · rw [bind_assoc, bind_get]
    cases he : (m.heap.get? array).bind Object.elements? with
    | none => exact .refl hm
    | some pair =>
      obtain ⟨o, ho, harray⟩ := Option.bind_eq_some_iff.1 he
      have htypes : m.Types array (m.elementType? array) := by
        intro o' ho'
        cases ho.symm.trans ho'
        obtain ⟨c, hc⟩ := (hm.arrays array o ho (by rw [harray]; rfl)).known
        exact ⟨c, hc, by rw [elementType?, ho, Option.bind_some, hc, Option.bind_some]⟩
      dsimp only
      rw [pure_bind]
      cases position? index pair.2.size with
      | none => exact raise_maintains hm _ _
      | some position =>
        dsimp only
        rw [bind_get]
        refine (accepts_maintains hm htypes fun _ _ => hv).bind fun taken m₁ ⟨h₁, _, hsuits⟩ => ?_
        split
        · next htaken =>
          have hvalues : ∀ w ∈ [v], Heap.Suits m₁.classes m₁.heap array w := fun w hw =>
            List.mem_singleton.1 hw ▸ hsuits htaken
          exact (writeElements_maintains [v] h₁.furnished hvalues position).mono (fun _ _ h => h₁.trans h)
            fun _ _ h => h₁.trans h
        · rw [bind_get]
          exact (raise_maintains h₁.furnished _ _).mono (fun _ _ h => h) fun _ _ h => h₁.trans h

/-- The part of some values that comes before the first one an array does not take. -/
theorem acceptedPart_maintains {array : Ref} {element : ElementType} (values : List Value) (hm : Furnished m)
    (htypes : m.Types array (some element))
    (hvalues : ∀ v ∈ values, ∀ inner, element = .reference inner → v.Within m.heap.Names) :
    Ends (acceptedPart element values m) (fun accepted m' => Maintains m m' ∧ m'.heap = m.heap ∧
        ∀ v ∈ accepted, Heap.Suits m'.classes m'.heap array v) fun _ m' => Maintains m m' := by
  induction values generalizing m with
  | nil => exact ⟨.refl hm, rfl, List.forall_mem_nil _⟩
  | cons v rest ih =>
    unfold acceptedPart
    refine (accepts_maintains hm htypes fun inner hinner =>
      hvalues v List.mem_cons_self inner (Option.some.inj hinner)).bind fun taken m₁ htaken => ?_
    obtain ⟨h₁, hheap₁, hsuits⟩ := htaken
    cases taken with
    | false => exact ⟨h₁, hheap₁, List.forall_mem_nil _⟩
    | true =>
      have hrest := ih h₁.furnished (htypes.stays hheap₁ h₁) fun w hw => by
        rw [hheap₁]
        exact hvalues w (List.mem_cons_of_mem v hw)
      refine (hrest.mono (fun _ _ h => h) fun _ _ h => h₁.trans h).bind fun accepted m₂ hpart => ?_
      obtain ⟨h₂, hheap₂, haccepted⟩ := hpart
      refine ⟨h₁.trans h₂, hheap₂.trans hheap₁, List.forall_mem_cons.2 ⟨?_, haccepted⟩⟩
      rw [hheap₂]
      refine (hsuits rfl).retains (fun o ho => ?_) h₂.retains h₁.furnished.moored
      obtain ⟨c, hc, _⟩ := (htypes.stays hheap₁ h₁) o ho
      exact ⟨c, hc⟩

theorem of_arrayOf? {r : Ref} {element : ElementType} {elements : Array Value}
    (h : m.arrayOf? r = some (element, elements)) : ∃ o c kind, m.heap.get? r = some o ∧
      m.classes.get? o.type = some c ∧ c.element = some element ∧ o.elements? = some (kind, elements) := by
  obtain ⟨o, ho, h⟩ := Option.bind_eq_some_iff.1 h
  obtain ⟨c, hc, h⟩ := Option.bind_eq_some_iff.1 h
  obtain ⟨e, he, h⟩ := Option.bind_eq_some_iff.1 h
  obtain ⟨⟨kind, found⟩, hfound, h⟩ := Option.bind_eq_some_iff.1 h
  cases h
  exact ⟨o, c, kind, ho, hc, he, hfound⟩

/-- What arrays of references hold is null or live. -/
theorem Furnished.elements_within (hm : Furnished m) {r : Ref} {inner : ClassId} {elements : Array Value}
    (h : m.arrayOf? r = some (.reference inner, elements)) : ∀ v ∈ elements, v.Within m.heap.Names := by
  obtain ⟨o, c, kind, ho, hc, hinner, helements⟩ := of_arrayOf? h
  intro v hv
  refine Value.within_iff_ref?.2 fun x hx hnull => ?_
  have hmem : Value.ref x ∈ elements := by
    cases v with
    | ref y =>
      cases hx
      exact hv
    | _ => cases hx
  obtain ⟨y, hy, _⟩ := (hm.arrays r o ho (by rw [helements]; rfl)).elements c inner hc hinner x
    ⟨hnull, kind, elements, helements, hmem⟩
  exact (Std.ExtTreeMap.mem_iff_isSome_getElem?).2 (by rw [show m.heap.objects[x.handle]? = some y from hy]; rfl)

/-- A copy leaves arrays as their classes allow, also when it comes to an end before all is copied. -/
theorem arrayCopy_maintains (source : Ref) (sourcePos : Int32) (target : Ref) (targetPos length : Int32) :
    Maintaining (arrayCopy source sourcePos target targetPos length) := by
  intro m hm
  have hraise : ∀ {α : Type} {m : Machine} (className : String) (message : Option String), Furnished m →
      Ends (raise (α := α) className message m) (fun _ m' => Maintains m m') fun _ m' => Maintains m m' :=
    fun className message hm => raise_maintains hm className message
  unfold arrayCopy
  split
  · exact hraise _ _ hm
  · rw [bind_get]
    cases hsource : m.arrayOf? source with
    | none => exact hraise _ _ hm
    | some pair =>
      obtain ⟨sourceType, elements⟩ := pair
      cases htarget : m.arrayOf? target with
      | none => exact hraise _ _ hm
      | some pair =>
        obtain ⟨targetType, targetElements⟩ := pair
        dsimp only
        split
        · exact hraise _ _ hm
        · next hcopyable =>
          split
          · exact hraise _ _ hm
          · have htypes : m.Types target (some targetType) := by
              obtain ⟨o, c, _, ho, hc, helement, _⟩ := of_arrayOf? htarget
              intro x hx
              cases ho.symm.trans hx
              exact ⟨c, hc, helement⟩
            have hlive : ∀ v ∈ (elements.toList.drop sourcePos.toInt.toNat).take length.toInt.toNat,
                ∀ inner, targetType = .reference inner → v.Within m.heap.Names := by
              rintro v hv inner rfl
              cases sourceType with
              | primitive kind => exact (hcopyable rfl).elim
              | reference inner' =>
                exact hm.elements_within hsource v
                  (Array.mem_toList_iff.1 (List.mem_of_mem_drop (List.mem_of_mem_take hv)))
            refine (acceptedPart_maintains _ hm htypes hlive).bind fun accepted m₁ ⟨h₁, _, hsuits⟩ => ?_
            refine ((writeElements_maintains accepted h₁.furnished hsuits _).mono (fun _ _ h => h)
              fun _ _ h => h₁.trans h).bind fun _ m₂ h₂ => ?_
            have h := h₁.trans h₂
            split
            · exact (hraise _ _ h₂.furnished).mono (fun _ _ h' => h.trans h') fun _ _ h' => h.trans h'
            · exact h

end Filling

end ClassMachine.Machine
