import ClassMachine.Proofs.Heap.Elements

/-!
What is held. An object that roots, pins, interned strings or mirrors lead to stays as it is, whatever is
collected or made: a collection does not ask about it, and what is made has another handle. What only a
companion hides that nothing leads to is no part of this; it goes after that companion does. So what is pinned
stays, whatever is changed about it but its class, and a literal has its string for good.
-/
namespace ClassMachine.Heap

/-- What is held by roots, and by the heap on its own account. -/
def Anchor (h : Heap) (roots : List Ref) (r : Ref) : Prop :=
  r ∈ roots ∨ r ∈ h.pinned ∨ (∃ text, h.interned? text = some r) ∨ ∃ id, h.mirror? id = some r

/-- Live objects that references lead to from there. -/
def Held (h : Heap) (roots : List Ref) : Ref → Prop := Reachable h.get? (h.Anchor roots)

/-- All that is held is as it was, and is still held. -/
structure Upholds (roots : List Ref) (h h' : Heap) : Prop where
  get? : ∀ r o, h.Held roots r → h.get? r = some o → h'.get? r = some o
  pinned : h.pinned ⊆ h'.pinned
  interned : ∀ text r, h.interned? text = some r → h'.interned? text = some r
  mirrors : ∀ id r, h.mirror? id = some r → h'.mirror? id = some r

/-- Arrays are as they were, if they are still there, and none is new. -/
def SameArrays (h h' : Heap) : Prop :=
  ∀ r o, h'.get? r = some o → o.elements? ≠ none → h.get? r = some o

variable {h h' h'' : Heap} {roots : List Ref} {r : Ref}

theorem Held.reached (hr : h.Held roots r) : h.Reached roots r := by
  refine Reachable.trans (fun _ _ ho => ho) (fun r o hstart ho => .start ?_ ho) hr
  rcases hstart with hr | hr | ⟨text, hr⟩ | ⟨id, hr⟩
  · exact .given hr
  · exact .pinned hr
  · exact .interned hr
  · exact .mirror hr

namespace Upholds

theorem refl (roots : List Ref) (h : Heap) : Upholds roots h h :=
  ⟨fun _ _ _ ho => ho, List.Subset.refl _, fun _ _ hr => hr, fun _ _ hr => hr⟩

theorem anchor (hu : Upholds roots h h') (hr : h.Anchor roots r) : h'.Anchor roots r := by
  rcases hr with hr | hr | ⟨text, hr⟩ | ⟨id, hr⟩
  · exact .inl hr
  · exact .inr (.inl (hu.pinned hr))
  · exact .inr (.inr (.inl ⟨text, hu.interned text r hr⟩))
  · exact .inr (.inr (.inr ⟨id, hu.mirrors id r hr⟩))

theorem held (hu : Upholds roots h h') (hr : h.Held roots r) : h'.Held roots r := by
  induction hr with
  | start hstart ho => exact .start (hu.anchor hstart) (hu.get? _ _ (.start hstart ho) ho)
  | follow hr ho href ho' ih =>
    exact .follow ih (hu.get? _ _ hr ho) href (hu.get? _ _ (.follow hr ho href ho') ho')

theorem trans (hu : Upholds roots h h') (hu' : Upholds roots h' h'') : Upholds roots h h'' :=
  ⟨fun r o hr ho => hu'.get? r o (hu.held hr) (hu.get? r o hr ho), fun _ hr => hu'.pinned (hu.pinned hr),
    fun text r hr => hu'.interned text r (hu.interned text r hr),
    fun id r hr => hu'.mirrors id r (hu.mirrors id r hr)⟩

/-- More is pinned, or the accounting is another. -/
theorem of_objects_eq (ho : h'.objects = h.objects) (hp : h.pinned ⊆ h'.pinned)
    (hi : h'.interned = h.interned) (hm : h'.mirrors = h.mirrors) : Upholds roots h h' := by
  refine ⟨fun r o _ hr => ?_, hp, fun text r hr => ?_, fun id r hr => ?_⟩
  · unfold Heap.get? at hr ⊢
    rw [ho, hr]
  · unfold interned? at hr ⊢
    rw [hi, hr]
  · unfold mirror? at hr ⊢
    rw [hm, hr]

/-- An object that is not held may change. -/
theorem update (hu : Upholds roots h h') (hr : ¬ h.Held roots r) (f : Object → Object) :
    Upholds roots h (h'.update r f) := by
  refine ⟨fun x o hx ho => ?_, hu.pinned, hu.interned, hu.mirrors⟩
  rw [get?_update, if_neg, hu.get? x o hx ho]
  rintro rfl
  exact hr hx

end Upholds

theorem SameArrays.refl (h : Heap) : SameArrays h h := fun _ _ ho _ => ho

theorem SameArrays.trans (hs : SameArrays h h') (hs' : SameArrays h' h'') : SameArrays h h'' :=
  fun r o ho harray => hs r o (hs' r o ho harray) harray

theorem sameArrays_of_objects_eq (ho : h'.objects = h.objects) : SameArrays h h' := fun r o hr _ => by
  unfold get? at hr ⊢
  rw [← ho, hr]

/-- What is no array changes. -/
theorem SameArrays.update (hs : SameArrays h h') {o : Object} (ho : h'.get? r = some o) {f : Object → Object}
    (hf : (f o).elements? = none) : SameArrays h (h'.update r f) := by
  intro x o' ho' harray
  rw [get?_update] at ho'
  split at ho'
  · next hx =>
    subst hx
    rw [ho] at ho'
    cases ho'
    exact absurd hf harray
  · exact hs x o' ho' harray

theorem collect_upholds (roots : List Ref) (h : Heap) : Upholds roots h (h.collect roots).2 := by
  obtain ⟨asked, answers, cycle, hasked, hanswers, hfree⟩ := collect_frees h roots
  have ha : Interviewed h roots answers := hanswers ▸ hasked.interviewed ()
  refine ⟨fun r o hr ho => ?_, List.Subset.refl _, fun _ _ hr => hr, fun _ _ hr => hr⟩
  have hreached : h.Reached roots r := Held.reached hr
  have hleft : leftBy answers r o = o := by
    have hsame := asLeft_of_reached ha hreached
    unfold asLeft at hsame
    rw [ho] at hsame
    exact Option.some.inj hsame
  rw [hfree.get?]
  refine ⟨o, ho, .start (.inl hreached) (o := o) ?_, hleft.symm⟩
  rw [asLeft_of_reached ha hreached, ho]

theorem collect_sameArrays (roots : List Ref) (h : Heap) : SameArrays h (h.collect roots).2 := by
  obtain ⟨asked, answers, cycle, -, -, hfree⟩ := collect_frees h roots
  intro r o' ho' harray
  obtain ⟨o, ho, _, rfl⟩ := (hfree.get? r o').1 ho'
  rw [ho]
  unfold leftBy at harray ⊢
  split
  · next a hfind =>
    rw [hfind] at harray
    exact absurd rfl harray
  · rfl

section Making

variable {o : Object}

theorem pinned_reserve (roots : List Ref) (h : Heap) (units : Nat) :
    (h.reserve roots units).2.pinned = h.pinned := by
  rcases reserve_cases roots h units with heq | ⟨capacity, heq⟩
  · rw [heq]
  · rw [heq]
    rfl

theorem nextHandle_reserve (roots : List Ref) (h : Heap) (units : Nat) :
    (h.reserve roots units).2.nextHandle = h.nextHandle := by
  rcases reserve_cases roots h units with heq | ⟨capacity, heq⟩
  · rw [heq]
  · rw [heq]
    rfl

theorem reserve_upholds (roots : List Ref) (h : Heap) (units : Nat) :
    Upholds roots h (h.reserve roots units).2 := by
  rcases reserve_cases roots h units with heq | ⟨capacity, heq⟩
  · rw [heq]
    exact .refl roots h
  · rw [heq]
    exact (collect_upholds roots h).trans (.of_objects_eq rfl (List.Subset.refl _) rfl rfl)

theorem reserve_sameArrays (roots : List Ref) (h : Heap) (units : Nat) :
    SameArrays h (h.reserve roots units).2 := by
  rcases reserve_cases roots h units with heq | ⟨capacity, heq⟩
  · rw [heq]
    exact .refl h
  · rw [heq]
    exact (collect_sameArrays roots h).trans (sameArrays_of_objects_eq rfl)

theorem insert_upholds (roots : List Ref) (hfree : h.contains (h.insert o).1 = false) :
    Upholds roots h (h.insert o).2 :=
  ⟨fun _ _ _ hr => get?_insert_of_live hfree hr, List.Subset.refl _, fun _ _ hr => hr, fun _ _ hr => hr⟩

theorem insert_sameArrays (hfree : h.contains (h.insert o).1 = false) (ho : o.elements? = none) :
    SameArrays h (h.insert o).2 := by
  intro r x hx harray
  rw [(insert_fresh hfree r).1] at hx
  split at hx
  · cases hx
    exact absurd ho harray
  · exact hx

end Making

section Literals

/-- `o'` is of the class of `o`, and has its text if it has one. -/
structure Persists (o o' : Object) : Prop where
  type : o'.type = o.type
  text : ∀ text, o.text? = some text → o'.text? = some text

variable {o o' : Object}

theorem Persists.refl (o : Object) : Persists o o := ⟨rfl, fun _ h => h⟩

theorem Persists.of_payload (htype : o'.type = o.type) (hpayload : o'.payload = o.payload) : Persists o o' :=
  ⟨htype, fun _ h => by rwa [Object.text?, hpayload]⟩

theorem Persists.of_textless (htype : o'.type = o.type) (hnone : o.text? = none) : Persists o o' :=
  ⟨htype, fun text h => by
    rw [hnone] at h
    cases h⟩

theorem persists_setElement (o : Object) (index : Nat) (v : Value) : Persists o (o.setElement index v) := by
  unfold Object.setElement
  split
  · next harray => exact .of_textless rfl (by rw [Object.text?, harray])
  · exact .refl o

theorem persists_written (o : Object) (index : Nat) (v : Value) : Persists o (o.written index v) := by
  unfold Object.written
  split
  · exact persists_setElement o index _
  · exact .refl o

/-- Each literal has a string of its text. -/
def Spelt (h : Heap) : Prop := ∀ text r, h.interned? text = some r → h.text? r = some text

/-- What is pinned is pinned no less often, and stays there; and literals have their strings. -/
structure Secures (h h' : Heap) : Prop where
  pinned : ∀ r, r.isNull = false → h.pinned.count r ≤ h'.pinned.count r
  held : ∀ r ∈ h.pinned, r.isNull = false → ∀ o, h.get? r = some o → ∃ o', h'.get? r = some o' ∧ o'.type = o.type
  literals : h.Spelt → h'.Spelt

namespace Secures

theorem mem (hs : h.Secures h') (hnull : r.isNull = false) (hr : r ∈ h.pinned) : r ∈ h'.pinned :=
  List.count_pos_iff.1 (Nat.lt_of_lt_of_le (List.count_pos_iff.2 hr) (hs.pinned r hnull))

theorem trans (hs : h.Secures h') (hs' : h'.Secures h'') : h.Secures h'' := by
  refine ⟨fun r hr => Nat.le_trans (hs.pinned r hr) (hs'.pinned r hr), fun r hr hnull o ho => ?_,
    fun hl => hs'.literals (hs.literals hl)⟩
  obtain ⟨o', ho', htype⟩ := hs.held r hr hnull o ho
  obtain ⟨o'', ho'', htype'⟩ := hs'.held r (hs.mem hnull hr) hnull o' ho'
  exact ⟨o'', ho'', htype'.trans htype⟩

/-- What is pinned or stands for a literal is left. -/
theorem of_anchored (hpinned : h'.pinned = h.pinned) (hinterned : h'.interned = h.interned)
    (hkept : ∀ r o, h.get? r = some o → r ∈ h.pinned ∨ (∃ text, h.interned? text = some r) →
      ∃ o', h'.get? r = some o' ∧ Persists o o') :
    h.Secures h' := by
  refine ⟨fun r _ => Nat.le_of_eq (by rw [hpinned]), fun r hr _ o ho => ?_, fun hl text r hr => ?_⟩
  · obtain ⟨o', ho', hsame⟩ := hkept r o ho (.inl hr)
    exact ⟨o', ho', hsame.type⟩
  · rw [interned?, hinterned] at hr
    obtain ⟨o, ho, htext⟩ := Option.bind_eq_some_iff.1 (hl text r hr)
    obtain ⟨o', ho', hsame⟩ := hkept r o ho (.inr ⟨text, hr⟩)
    exact Option.bind_eq_some_iff.2 ⟨o', ho', hsame.text text htext⟩

theorem of_objects_eq (hobjects : h'.objects = h.objects) (hpinned : h'.pinned = h.pinned)
    (hinterned : h'.interned = h.interned) : h.Secures h' :=
  of_anchored hpinned hinterned fun r o ho _ => ⟨o, by rwa [Heap.get?, hobjects], .refl o⟩

theorem refl (h : Heap) : h.Secures h := of_objects_eq rfl rfl rfl

end Secures

theorem Upholds.secures (hu : Upholds roots h h') (hpinned : h'.pinned = h.pinned)
    (hinterned : h'.interned = h.interned) : h.Secures h' :=
  .of_anchored hpinned hinterned fun r o ho hr => ⟨o, hu.get? r o (.start (.inr (hr.imp_right .inl)) ho) ho, .refl o⟩

theorem update_secures (h : Heap) (r : Ref) {f : Object → Object}
    (hf : ∀ o, h.get? r = some o → Persists o (f o)) : h.Secures (h.update r f) := by
  refine .of_anchored rfl rfl fun r' o ho _ => ?_
  rw [get?_update, ho]
  split
  · next hsame =>
    have hr : h.get? r = some o := by rw [← ho, Heap.get?, Heap.get?, hsame]
    exact ⟨f o, rfl, hf o hr⟩
  · exact ⟨o, rfl, .refl o⟩

theorem collect_secures (h : Heap) (roots : List Ref) : h.Secures (h.collect roots).2 :=
  (collect_upholds roots h).secures rfl rfl

theorem reserve_secures (h : Heap) (roots : List Ref) (units : Nat) : h.Secures (h.reserve roots units).2 := by
  rcases reserve_cases roots h units with heq | ⟨capacity, heq⟩
  · rw [heq]
    exact .refl h
  · rw [heq]
    exact (collect_secures h roots).trans (.of_objects_eq rfl rfl rfl)

theorem insert_secures (hfree : h.contains (h.insert o).1 = false) : h.Secures (h.insert o).2 :=
  (insert_upholds [] hfree).secures rfl rfl

theorem intern_secures {text : String} (hr : h.text? r = some text) : h.Secures (h.intern text r) := by
  refine ⟨fun _ _ => Nat.le_refl _, fun _ _ _ o ho => ⟨o, ho, rfl⟩, fun hl text' r' hr' => ?_⟩
  rw [interned?, intern, Maps.getElem?_insert_eq] at hr'
  split at hr'
  · next heq =>
    cases hr'
    exact heq ▸ hr
  · exact hl text' r' hr'

theorem count_pinAll (rs : List Ref) (h : Heap) (hr : r.isNull = false) :
    (h.pinAll rs).pinned.count r = h.pinned.count r + rs.count r := by
  induction rs generalizing h with
  | nil => rfl
  | cons r' rs ih =>
    refine (ih (h.pin r')).trans ?_
    rw [List.count_cons]
    unfold pin
    split
    · next hnull =>
      have hne : (r' == r) = false := beq_eq_false_iff_ne.2 fun heq => by
        rw [heq, hr] at hnull
        cases hnull
      rw [hne]
      rfl
    · rw [List.count_cons]
      omega

theorem count_unpinAll (rs : List Ref) (h : Heap) (r : Ref) :
    h.pinned.count r ≤ (h.unpinAll rs).pinned.count r + rs.count r := by
  induction rs generalizing h with
  | nil => exact Nat.le_refl _
  | cons r' rs ih =>
    have hrest := ih (h.unpin r')
    have hfirst : h.pinned.count r ≤ (h.unpin r').pinned.count r + if r' == r then 1 else 0 := by
      rw [unpin, List.count_erase]
      omega
    rw [List.count_cons]
    show h.pinned.count r ≤ ((h.unpin r').unpinAll rs).pinned.count r + _
    omega

theorem interned_pinAll (rs : List Ref) (h : Heap) : (h.pinAll rs).interned = h.interned := by
  induction rs generalizing h with
  | nil => rfl
  | cons r rs ih =>
    refine (ih (h.pin r)).trans ?_
    unfold pin
    split <;> rfl

theorem interned_unpinAll (rs : List Ref) (h : Heap) : (h.unpinAll rs).interned = h.interned := by
  induction rs generalizing h with
  | nil => rfl
  | cons r rs ih => exact ih (h.unpin r)

/-- What is pinned for a while is let go again, and nothing else is. -/
theorem Secures.pinned_for {rs : List Ref} (hs : (h.pinAll rs).Secures h') : h.Secures (h'.unpinAll rs) := by
  have hcount : ∀ r, r.isNull = false → h.pinned.count r ≤ (h'.unpinAll rs).pinned.count r := fun r hr => by
    have hmore := hs.pinned r hr
    have hless := count_unpinAll rs h' r
    rw [count_pinAll rs h hr] at hmore
    omega
  refine ⟨hcount, fun r hr hnull o ho => ?_, fun hl text r hr => ?_⟩
  · have hpinned : r ∈ (h.pinAll rs).pinned := List.count_pos_iff.1 <| by
      rw [count_pinAll rs h hnull]
      exact Nat.add_pos_left (List.count_pos_iff.2 hr) _
    have hbefore : (h.pinAll rs).get? r = some o := by rwa [Heap.get?, (h.objects_pinAll rs).1]
    obtain ⟨o', ho', htype⟩ := hs.held r hpinned hnull o hbefore
    exact ⟨o', by rwa [Heap.get?, (h'.objects_unpinAll rs).1], htype⟩
  · have hbefore : (h.pinAll rs).Spelt := by
      intro text r hr
      rw [interned?, interned_pinAll] at hr
      rw [text?, Heap.get?, (h.objects_pinAll rs).1]
      exact hl text r hr
    rw [interned?, interned_unpinAll] at hr
    rw [text?, Heap.get?, (h'.objects_unpinAll rs).1]
    exact hs.literals hbefore text r hr

theorem pin_secures (h : Heap) (r : Ref) : h.Secures (h.pin r) := by
  unfold pin
  split
  · exact .refl h
  · exact ⟨fun _ _ => List.count_le_count_cons, fun _ _ _ o ho => ⟨o, ho, rfl⟩, fun hl => hl⟩

end Literals

end ClassMachine.Heap
