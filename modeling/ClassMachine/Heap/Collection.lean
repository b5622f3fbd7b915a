import ClassMachine.Fatal
import ClassMachine.Heap.Basic

/-!
Collection and allocation. A collection marks what can be reached from the roots, asks the companions of
objects without a mark for consent, marks what can be reached from those that refuse, frees what has no
mark, and takes the marks off the rest.
-/
namespace ClassMachine

/-- Objects in the course of a collection. A mark is on an object that is there. -/
structure Marking where
  objects : ObjectMap
  marks : Marks
  live : ∀ handle ∈ marks, handle ∈ objects

namespace Marking

def isMarked (s : Marking) (r : Ref) : Bool := s.marks.contains r.handle

def marked (s : Marking) : ObjectMap := s.objects.filter fun handle _ => s.marks.contains handle

def unmarked (s : Marking) : ObjectMap := s.objects.filter fun handle _ => !s.marks.contains handle

/-- Sets the mark of an object that is there. -/
def set (s : Marking) (handle : UInt32) : Marking where
  objects := s.objects
  marks := if handle ∈ s.objects then s.marks.insert handle else s.marks
  live other hother := by
    split at hother
    · next hmem =>
      rcases Std.ExtTreeSet.mem_insert.1 hother with heq | hold
      · exact Std.LawfulEqCmp.eq_of_compare heq ▸ hmem
      · exact s.live other hold
    · exact s.live other hother

theorem getElem?_unmarked (s : Marking) (handle : UInt32) :
    s.unmarked[handle]? = if handle ∈ s.marks then none else s.objects[handle]? := by
  unfold unmarked
  rw [Std.ExtTreeMap.getElem?_filter']
  by_cases hmem : handle ∈ s.marks
  · cases s.objects[handle]? <;> simp [hmem]
  · have hout : s.marks.contains handle = false := by rwa [← Bool.not_eq_true, Std.ExtTreeSet.contains_iff_mem]
    cases s.objects[handle]? <;> simp [hmem, hout]

theorem unmarked_set (s : Marking) (handle : UInt32) : (s.set handle).unmarked = s.unmarked.erase handle := by
  refine Std.ExtTreeMap.ext_getElem? fun other => ?_
  rw [Std.ExtTreeMap.getElem?_erase, getElem?_unmarked, getElem?_unmarked]
  unfold set
  split
  · by_cases heq : compare handle other = .eq <;> simp [heq]
  · next hout =>
    by_cases heq : compare handle other = .eq
    · rw [Std.LawfulEqCmp.eq_of_compare heq] at hout
      simp [heq, hout]
    · simp [heq]

theorem size_unmarked_set_lt {s : Marking} {handle : UInt32} (h : handle ∈ s.objects) (hm : handle ∉ s.marks) :
    (s.set handle).unmarked.size < s.unmarked.size := by
  have hmem : handle ∈ s.unmarked := by
    rw [Std.ExtTreeMap.mem_iff_isSome_getElem?, getElem?_unmarked, if_neg hm]
    exact Std.ExtTreeMap.mem_iff_isSome_getElem?.1 h
  have hpos : s.unmarked.size ≠ 0 := fun hz =>
    Std.ExtTreeMap.ne_empty_of_mem hmem (Std.ExtTreeMap.eq_empty_iff_size_eq_zero.2 hz)
  rw [unmarked_set, Std.ExtTreeMap.size_erase, if_pos (Std.ExtTreeMap.contains_iff_mem.2 hmem)]
  omega

/-- Marks what can be reached from `work`, and goes no further where a mark is set already. -/
def mark (s : Marking) (work : List Ref) : Marking :=
  match work with
  | [] => s
  | r :: rest =>
    match _h : s.objects[r.handle]? with
    | none => s.mark rest
    | some o =>
      if _hm : r.handle ∈ s.marks then s.mark rest
      else (s.set r.handle).mark (o.references ++ rest)
termination_by (s.unmarked.size, work.length)
decreasing_by
  · exact Prod.Lex.right _ (Nat.lt_succ_self _)
  · exact Prod.Lex.right _ (Nat.lt_succ_self _)
  · refine Prod.Lex.left _ _ (size_unmarked_set_lt ?_ _hm)
    rw [Std.ExtTreeMap.mem_iff_isSome_getElem?, _h]
    rfl

/-- Marks are on objects that are there, so each is on an object that is marked. -/
theorem mem_marked {s : Marking} {handle : UInt32} (h : handle ∈ s.marks) : handle ∈ s.marked := by
  have hlive := Std.ExtTreeMap.mem_iff_isSome_getElem?.1 (s.live handle h)
  unfold marked
  rw [Std.ExtTreeMap.mem_iff_isSome_getElem?, Std.ExtTreeMap.getElem?_filter']
  cases ho : s.objects[handle]? with
  | none =>
    rw [ho] at hlive
    cases hlive
  | some o => simp [Std.ExtTreeSet.contains_iff_mem.2 h]

/-- The marks when the mark of each of the objects that stay has been taken off. -/
def cleared (s : Marking) : Marks :=
  let stays := s.marked
  s.marks.filter fun handle => !stays.contains handle

theorem cleared_eq_empty (s : Marking) : s.cleared = ∅ := by
  refine Std.ExtTreeSet.eq_empty_iff_forall_not_mem.2 fun handle hmem => ?_
  obtain ⟨hin, hout⟩ := Std.ExtTreeSet.mem_filter.1 hmem
  rw [Std.ExtTreeSet.get_eq] at hout
  rw [Std.ExtTreeMap.contains_iff_mem.2 (mem_marked hin)] at hout
  cases hout

end Marking

namespace Heap

/-- Everything a collection starts from besides the roots it is given. -/
def ownRoots (h : Heap) : List Ref :=
  h.pinned ++ h.interned.values ++ h.mirrors.values ++ h.objects.values.flatMap Object.hiddenRefs

/-- The objects, with the marks that are set before a collection. -/
def marking (h : Heap) : Marking where
  objects := h.objects
  marks := h.marks
  live handle hmem := by
    rw [h.unmarked] at hmem
    exact absurd hmem Std.ExtTreeSet.not_mem_empty

/-- The objects, with what the roots lead to marked. -/
def reach (h : Heap) (roots : List Ref) : Marking := h.marking.mark (roots ++ h.ownRoots)

/-- Objects that a collection would free if no companion refused. -/
def unreached (h : Heap) (roots : List Ref) : ObjectMap := (h.reach roots).unmarked

/-- What became of a companion that was asked for consent to free its object. -/
structure Answer where
  ref : Ref
  agrees : Bool
  companion : Companion

/-- Companions of unreached objects in the order of their handles. -/
def questions (unreached : ObjectMap) : List (Ref × Companion) :=
  unreached.toList.filterMap fun (handle, o) => o.companion?.map fun c => (⟨handle⟩, c)

/-- Asks companions one after the other. A host has a state of its own, and an answer may depend on
it. -/
def interview {σ : Type} (ask : Ref → Companion → StateM σ (Bool × Companion))
    (asked : List (Ref × Companion)) : StateM σ (List Answer) :=
  asked.mapM fun (r, c) => do
    let (agrees, left) ← ask r c
    return ⟨r, agrees, left⟩

/-- The object whose companion was asked, with the companion as the question left it. -/
def Answer.apply (objects : ObjectMap) (a : Answer) : ObjectMap :=
  objects.modify a.ref.handle fun o => { o with payload := .companion a.companion }

/-- Objects as the questions left them. -/
def afterwards (objects : ObjectMap) (answers : List Answer) : ObjectMap :=
  answers.foldl Answer.apply objects

theorem mem_afterwards (objects : ObjectMap) (answers : List Answer) (handle : UInt32) :
    handle ∈ afterwards objects answers ↔ handle ∈ objects := by
  unfold afterwards
  induction answers generalizing objects with
  | nil => rfl
  | cons a answers ih => exact (ih _).trans Std.ExtTreeMap.mem_modify

/-- Those whose companions refused. -/
def refusals (answers : List Answer) : List Ref := (answers.filter (!·.agrees)).map (·.ref)

end Heap

/-- The objects as the questions left them, with their marks. -/
def Marking.heard (s : Marking) (answers : List Heap.Answer) : Marking where
  objects := Heap.afterwards s.objects answers
  marks := s.marks
  live handle hmem := (Heap.mem_afterwards s.objects answers handle).2 (s.live handle hmem)

namespace Heap

/-- What is marked in the end: what the roots led to, and what those whose companions refused lead to. -/
def kept (s : Marking) (answers : List Answer) : Marking := (s.heard answers).mark (refusals answers)

/-- Frees what has no mark in the end, and takes the marks off the rest. -/
def sweep (h : Heap) (s : Marking) (answers : List Answer) : CollectionStats × Heap :=
  let kept := kept s answers
  let freed := kept.unmarked
  let reclaimed := total Object.weight freed.values
  let cycle : CollectionStats := ⟨1, freed.size, (refusals answers).length, reclaimed⟩
  (cycle,
    { h with
      objects := kept.marked
      marks := kept.cleared
      unmarked := kept.cleared_eq_empty
      used := h.used - reclaimed
      stats := h.stats.add cycle })

/-- A collection with any host behind the companions. -/
def collectAsking {σ : Type} (ask : Ref → Companion → StateM σ (Bool × Companion)) (h : Heap)
    (roots : List Ref) : StateM σ (CollectionStats × Heap) := do
  let s := h.reach roots
  return h.sweep s (← interview ask (questions s.unmarked))

/-- A collection with companions that answer for themselves. -/
def collect (h : Heap) (roots : List Ref) : CollectionStats × Heap :=
  (h.collectAsking (fun _ c => return c.onDelete) roots ()).1

end Heap

/-- An allocation that did not fit after a collection. -/
inductive AllocError where
  /-- The program may catch this. -/
  | exhausted (requested used capacity : Nat)
  | fatal (error : Fatal)
  deriving DecidableEq, Repr

def AllocError.message : AllocError → String
  | exhausted requested used capacity =>
    s!"heap exhausted: {requested} units requested, {used}/{capacity} in use"
  | fatal error => error.message

namespace Heap

/-- Largest request the heap grows for. -/
def growthLimit : Nat := 0x10000000

/-- What the overflow policy makes of a request that does not fit. -/
def overflowed (h : Heap) (units : Nat) : Except AllocError Heap :=
  match h.overflow with
  | .expand =>
    if units ≤ growthLimit then
      .ok { h with capacity := max (min (h.capacity * 2) Object.maxUnits) (h.used + units) }
    else .error (.exhausted units h.used h.capacity)
  | .throw => .error (.exhausted units h.used h.capacity)
  | .abort => .error (.fatal (.outOfMemory units h.used h.capacity))

/-- Makes room for a request, by a collection if need be. The heap after the collection is returned
also when there is no room. -/
def reserve (h : Heap) (roots : List Ref) (units : Nat) : Except AllocError Unit × Heap :=
  if h.fits units then (.ok (), h)
  else
    let (_, h) := h.collect roots
    if h.fits units then (.ok (), h)
    else
      match h.overflowed units with
      | .ok h => (.ok (), h)
      | .error e => (.error e, h)

/-- Makes room for an object and adds it. -/
def allocate (h : Heap) (roots : List Ref) (o : Object) : Except AllocError Ref × Heap :=
  match h.reserve roots o.weight with
  | (.ok (), h) =>
    let (r, h) := h.insert o
    (.ok r, h)
  | (.error e, h) => (.error e, h)

end Heap

end ClassMachine
