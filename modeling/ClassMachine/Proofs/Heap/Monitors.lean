import ClassMachine.Proofs.Heap.Garbage
import ClassMachine.Proofs.Sync.Orderly

/-!
What becomes of monitors when the heap changes. An object that a root names keeps its monitor as
long as the object is not told otherwise, an object that is made has a monitor nobody has touched,
and a collection frees monitors only together with objects no root names.
-/
namespace ClassMachine.Heap

/-- The monitor of a live object. -/
def monitor? (h : Heap) (r : Ref) : Option Monitor := (h.get? r).map (·.monitor)

/-- Handles go on from one that is not null, and nothing is found under null. -/
structure Addressed (h : Heap) : Prop where
  next : h.nextHandle ≠ 0
  null : h.get? .null = none

/-- A heap in which what the roots name has kept its monitors, and whatever else there is has its
monitor from before or one that is fresh. -/
structure Respects (h : Heap) (roots : List Ref) (h' : Heap) : Prop where
  kept : ∀ r ∈ roots, ∀ m, h.monitor? r = some m → h'.monitor? r = some m
  others : ∀ r m, h'.monitor? r = some m → h.monitor? r = some m ∨ h.monitor? r = none ∧ m = {}
  addressed : h.Addressed → h'.Addressed

section Changes

variable {h h' : Heap} (roots : List Ref)

theorem respects_of_objects_eq (ho : h'.objects = h.objects) (hn : h'.nextHandle = h.nextHandle) :
    h.Respects roots h' := by
  have hget : ∀ r, h'.get? r = h.get? r := by
    intro r
    unfold get?
    rw [ho]
  have hmonitor : ∀ r, h'.monitor? r = h.monitor? r := by
    intro r
    unfold monitor?
    rw [hget]
  refine ⟨fun r _ m hm => by rw [hmonitor, hm], fun r m hm => .inl ?_, fun ha => ⟨?_, ?_⟩⟩
  · rw [← hmonitor, hm]
  · rw [hn]
    exact ha.next
  · rw [hget]
    exact ha.null

theorem respects_refl (h : Heap) : h.Respects roots h := respects_of_objects_eq roots rfl rfl

theorem pin_respects (h : Heap) (r : Ref) : h.Respects roots (h.pin r) := by
  unfold pin
  split
  · exact respects_refl roots h
  · exact respects_of_objects_eq roots rfl rfl

theorem objects_pinAll (rs : List Ref) (h : Heap) :
    (h.pinAll rs).objects = h.objects ∧ (h.pinAll rs).nextHandle = h.nextHandle := by
  induction rs generalizing h with
  | nil => exact ⟨rfl, rfl⟩
  | cons r rest ih =>
    have hone : (h.pin r).objects = h.objects ∧ (h.pin r).nextHandle = h.nextHandle := by
      unfold pin
      split <;> exact ⟨rfl, rfl⟩
    exact ⟨(ih (h.pin r)).1.trans hone.1, (ih (h.pin r)).2.trans hone.2⟩

theorem objects_unpinAll (rs : List Ref) (h : Heap) :
    (h.unpinAll rs).objects = h.objects ∧ (h.unpinAll rs).nextHandle = h.nextHandle := by
  induction rs generalizing h with
  | nil => exact ⟨rfl, rfl⟩
  | cons r rest ih => exact ih (h.unpin r)

/-- A change to an object that leaves its monitor alone. -/
theorem update_respects (h : Heap) (r : Ref) {f : Object → Object}
    (hf : ∀ o, (f o).monitor = o.monitor) : h.Respects roots (h.update r f) := by
  have hmonitor : ∀ j, (h.update r f).monitor? j = h.monitor? j := by
    intro j
    unfold monitor?
    rw [get?_update]
    split
    · cases h.get? j with
      | none => rfl
      | some o => exact congrArg some (hf o)
    · rfl
  refine ⟨fun j _ m hm => by rw [hmonitor, hm], fun j m hm => .inl ?_, fun ha => ⟨ha.next, ?_⟩⟩
  · rw [← hmonitor, hm]
  · rw [get?_update]
    split
    · rw [ha.null]
      rfl
    · exact ha.null

theorem seekHandle_ne_zero (objects : ObjectMap) (fuel : Nat) {handle : UInt32} (h : handle ≠ 0) :
    seekHandle objects fuel handle ≠ 0 := by
  induction fuel generalizing handle with
  | zero => exact h
  | succ fuel ih =>
    unfold seekHandle
    split
    · exact ih (successor_ne_zero handle)
    · exact h

/-- An object that is made under a free handle. -/
theorem insert_respects (h : Heap) {o : Object} (ho : o.monitor = {})
    (hfree : h.contains (h.insert o).1 = false) : h.Respects roots (h.insert o).2 := by
  let handle := seekHandle h.objects h.size h.nextHandle
  have hnone : h.objects[handle]? = none := by
    rw [← Heap.not_mem_iff, ← Std.ExtTreeMap.contains_iff_mem]
    exact Bool.not_eq_true _ ▸ hfree
  have hget : ∀ r, (h.insert o).2.get? r = if handle = r.handle then some o else h.get? r := fun r =>
    Maps.getElem?_insert_eq _ _ _ _
  refine ⟨fun r _ m hm => ?_, fun r m hm => ?_, fun ha => ⟨successor_ne_zero _, ?_⟩⟩
  · unfold monitor? at hm ⊢
    rw [hget]
    split
    · next heq =>
      unfold get? at hm
      rw [← heq, hnone] at hm
      cases hm
    · exact hm
  · unfold monitor? at hm ⊢
    rw [hget] at hm
    split at hm
    · next heq =>
      cases hm
      refine .inr ⟨?_, ho⟩
      unfold get?
      rw [← heq, hnone]
      rfl
    · exact .inl hm
  · have hne : handle ≠ Ref.null.handle := seekHandle_ne_zero h.objects h.size ha.next
    rw [hget, if_neg hne]
    exact ha.null

theorem monitor_leftBy (answers : List Answer) (r : Ref) (o : Object) :
    (leftBy answers r o).monitor = o.monitor := by
  unfold leftBy
  split <;> rfl

theorem collect_respects (h : Heap) : h.Respects roots (h.collect roots).2 := by
  obtain ⟨asked, answers, cycle, -, -, hfree⟩ := collect_frees h roots
  have hnext : (h.collect roots).2.nextHandle = h.nextHandle := rfl
  generalize (h.collect roots).2 = h' at hfree hnext ⊢
  -- survivors keep their monitors; nothing else is there afterwards
  have hafter : ∀ r m, h'.monitor? r = some m → h.monitor? r = some m := by
    intro r m hm
    obtain ⟨o', ho', rfl⟩ := Option.map_eq_some_iff.1 hm
    obtain ⟨o, ho, _, rfl⟩ := (hfree.get? r o').1 ho'
    unfold monitor?
    rw [ho, monitor_leftBy]
    rfl
  refine ⟨fun r hr m hm => ?_, fun r m hm => .inl (hafter r m hm), fun ha => ⟨?_, ?_⟩⟩
  · obtain ⟨o, ho, rfl⟩ := Option.map_eq_some_iff.1 hm
    have hreached : h.Reached roots r := .start (.given hr) ho
    have hleft : h.asLeft answers r = some (leftBy answers r o) := by
      unfold asLeft
      rw [ho]
      rfl
    have hget := (hfree.get? r _).2 ⟨o, ho, .start (.inl hreached) hleft, rfl⟩
    unfold monitor?
    rw [hget, Option.map_some, monitor_leftBy]
  · rw [hnext]
    exact ha.next
  · cases hnull : h'.get? .null with
    | none => rfl
    | some o =>
      obtain ⟨o₀, ho₀, _⟩ := (hfree.get? .null o).1 hnull
      rw [ha.null] at ho₀
      cases ho₀

theorem Respects.of_objects_eq {h'' : Heap} (hr : h.Respects roots h')
    (ho : h''.objects = h'.objects) (hn : h''.nextHandle = h'.nextHandle) : h.Respects roots h'' := by
  have hrest := respects_of_objects_eq roots ho hn
  refine ⟨fun r hmem m hm => hrest.kept r hmem m (hr.kept r hmem m hm), fun r m hm => ?_,
    fun ha => hrest.addressed (hr.addressed ha)⟩
  have hsame : h'.monitor? r = h''.monitor? r := by
    unfold monitor? get?
    rw [ho]
  rw [← hsame] at hm
  exact hr.others r m hm

theorem reserve_respects (h : Heap) (units : Nat) : h.Respects roots (h.reserve roots units).2 := by
  have hcollect := collect_respects roots h
  unfold reserve
  split
  · exact respects_refl roots h
  · dsimp only
    split
    · exact hcollect
    · cases ho : (h.collect roots).2.overflowed units with
      | error e => exact hcollect
      | ok h' =>
        unfold overflowed at ho
        cases hp : (h.collect roots).2.overflow with
        | expand =>
          rw [hp] at ho
          dsimp only at ho
          split at ho
          · cases ho
            exact hcollect.of_objects_eq roots rfl rfl
          · cases ho
        | throw => rw [hp] at ho; cases ho
        | abort => rw [hp] at ho; cases ho

end Changes

end ClassMachine.Heap
