import ClassMachine.Heap.Collection
import ClassMachine.Proofs.Maps

/-!
The two walks of a collection and the interview between them. A walk marks exactly what can be reached
from where it starts, and every companion that is asked is asked once.
-/
namespace ClassMachine

/-- A field, an array element or a companion of the object holds a reference that is not null. -/
def Object.RefersTo (o : Object) (r : Ref) : Prop :=
  r.isNull = false ∧ (Value.ref r ∈ o.fields ∨
    (∃ kind elements, o.payload = .array kind elements ∧ Value.ref r ∈ elements) ∨
    ∃ c, o.payload = .companion c ∧ r ∈ c.hiddenRefs)

theorem Value.ref?_eq_some {v : Value} {r : Ref} : v.ref? = some r ↔ v = .ref r := by
  cases v <;> simp [Value.ref?]

theorem Payload.mem_refs {p : Payload} {r : Ref} :
    r ∈ p.refs ↔ (∃ kind elements, p = .array kind elements ∧ Value.ref r ∈ elements) ∨
      ∃ c, p = .companion c ∧ r ∈ c.hiddenRefs := by
  cases p with
  | array kind elements =>
    simp only [Payload.refs, List.mem_filterMap, Array.mem_toList_iff, Value.ref?_eq_some,
      exists_eq_right, Payload.array.injEq, reduceCtorEq, false_and, exists_false, or_false]
    exact ⟨fun h => ⟨kind, elements, ⟨rfl, rfl⟩, h⟩, fun ⟨_, _, ⟨_, he⟩, h⟩ => he ▸ h⟩
  | _ => simp [Payload.refs]

theorem Object.mem_references {o : Object} {r : Ref} : r ∈ o.references ↔ o.RefersTo r := by
  unfold Object.references Object.RefersTo
  simp only [List.mem_filter, List.mem_append, List.mem_filterMap, Array.mem_toList_iff,
    Value.ref?_eq_some, exists_eq_right, Payload.mem_refs, Bool.not_eq_true']
  exact And.comm

theorem Object.companion?_eq_some {o : Object} {c : Companion} :
    o.companion? = some c ↔ o.payload = .companion c := by
  unfold Object.companion?
  cases o.payload <;> simp

/-- Objects that references lead to from where `start` holds. -/
inductive Reachable (get? : Ref → Option Object) (start : Ref → Prop) : Ref → Prop
  | start {r : Ref} {o : Object} : start r → get? r = some o → Reachable get? start r
  | follow {r r' : Ref} {o o' : Object} : Reachable get? start r → get? r = some o → o.RefersTo r' →
      get? r' = some o' → Reachable get? start r'

theorem Reachable.live {get? : Ref → Option Object} {start : Ref → Prop} {r : Ref}
    (h : Reachable get? start r) : ∃ o, get? r = some o := by
  cases h with
  | start _ ho => exact ⟨_, ho⟩
  | follow _ _ _ ho => exact ⟨_, ho⟩

/-- What can be reached in part of the objects can be reached in all of them. -/
theorem Reachable.trans {get? get?' : Ref → Option Object} {start start' : Ref → Prop} {r : Ref}
    (hsub : ∀ r o, get? r = some o → get?' r = some o)
    (hstart : ∀ r o, start r → get?' r = some o → Reachable get?' start' r)
    (h : Reachable get? start r) : Reachable get?' start' r := by
  induction h with
  | start hs ho => exact hstart _ _ hs (hsub _ _ ho)
  | follow _ ho href ho' ih => exact .follow ih (hsub _ _ ho) href (hsub _ _ ho')

namespace Heap

theorem not_mem_iff {objects : ObjectMap} {handle : UInt32} :
    handle ∉ objects ↔ objects[handle]? = none := by
  rw [Std.ExtTreeMap.mem_iff_isSome_getElem?]
  cases objects[handle]? <;> simp

section Walk

theorem size_erase_lt {objects : ObjectMap} {handle : UInt32} (h : handle ∈ objects) :
    (objects.erase handle).size < objects.size := by
  have pos : objects.size ≠ 0 := fun hz =>
    Std.ExtTreeMap.ne_empty_of_mem h (Std.ExtTreeMap.eq_empty_iff_size_eq_zero.2 hz)
  rw [Std.ExtTreeMap.size_erase, if_pos (Std.ExtTreeMap.contains_iff_mem.2 h)]
  omega

/-- What is left of `unreached` once everything reachable from `work` is taken out. -/
def unreachedFrom (unreached : ObjectMap) (work : List Ref) : ObjectMap :=
  match work with
  | [] => unreached
  | r :: rest =>
    match _h : unreached[r.handle]? with
    | none => unreachedFrom unreached rest
    | some o => unreachedFrom (unreached.erase r.handle) (o.references ++ rest)
termination_by (unreached.size, work.length)
decreasing_by
  · exact Prod.Lex.right _ (Nat.lt_succ_self _)
  · refine Prod.Lex.left _ _ (size_erase_lt ?_)
    rw [Std.ExtTreeMap.mem_iff_isSome_getElem?, _h]
    rfl

@[simp] theorem objects_mark (s : Marking) (work : List Ref) : (s.mark work).objects = s.objects := by
  induction s, work using Marking.mark.induct with
  | case1 s => rw [Marking.mark]
  | case2 s r rest hnone ih =>
    rw [Marking.mark, hnone]
    exact ih
  | case3 s r rest o hsome hm ih =>
    rw [Marking.mark, hsome]
    simpa [hm] using ih
  | case4 s r rest o hsome hm ih =>
    rw [Marking.mark, hsome]
    dsimp only
    rw [dif_neg hm]
    exact ih

/-- What a walk leaves without a mark is what is left once everything that is reached is taken out. -/
theorem unmarked_mark (s : Marking) (work : List Ref) :
    (s.mark work).unmarked = unreachedFrom s.unmarked work := by
  induction s, work using Marking.mark.induct with
  | case1 s => rw [Marking.mark, unreachedFrom]
  | case2 s r rest hnone ih =>
    have hout : s.unmarked[r.handle]? = none := by
      rw [s.getElem?_unmarked, hnone, ite_self]
    rw [Marking.mark, hnone, unreachedFrom, hout]
    exact ih
  | case3 s r rest o hsome hm ih =>
    have hout : s.unmarked[r.handle]? = none := by rw [s.getElem?_unmarked, if_pos hm]
    rw [Marking.mark, hsome, unreachedFrom, hout]
    simpa [hm] using ih
  | case4 s r rest o hsome hm ih =>
    have hin : s.unmarked[r.handle]? = some o := by rw [s.getElem?_unmarked, if_neg hm, hsome]
    rw [Marking.mark, hsome, unreachedFrom, hin, ← s.unmarked_set]
    simpa [hm] using ih

/-- A walk takes out of `unreached` what can be reached from `work`, and that only. -/
structure Walked (unreached : ObjectMap) (work : List Ref) (left : ObjectMap) : Prop where
  sub : ∀ (handle : UInt32) o, left[handle]? = some o → unreached[handle]? = some o
  started : ∀ r ∈ work, r.handle ∉ left
  followed : ∀ (handle : UInt32) o, unreached[handle]? = some o → handle ∉ left →
    ∀ r ∈ o.references, r.handle ∉ left
  reached : ∀ (r : Ref) o, unreached[r.handle]? = some o → r.handle ∉ left →
    Reachable (fun r => unreached[r.handle]?) (· ∈ work) r

theorem unreachedFrom_walked (unreached : ObjectMap) (work : List Ref) :
    Walked unreached work (unreachedFrom unreached work) := by
  induction unreached, work using unreachedFrom.induct with
  | case1 unreached =>
    rw [unreachedFrom]
    constructor
    · exact fun _ _ h => h
    · intro r hr
      cases hr
    · intro handle o ho hn
      rw [not_mem_iff, ho] at hn
      cases hn
    · intro r o ho hn
      rw [not_mem_iff, ho] at hn
      cases hn
  | case2 unreached r rest hnone ih =>
    rw [unreachedFrom, hnone]
    refine ⟨ih.sub, fun r' hr' => ?_, ih.followed, fun r' o ho hn => ?_⟩
    · rcases List.mem_cons.1 hr' with rfl | hr'
      · rw [not_mem_iff]
        cases hleft : (unreachedFrom unreached rest)[r'.handle]? with
        | none => rfl
        | some o => rw [ih.sub _ _ hleft] at hnone; cases hnone
      · exact ih.started r' hr'
    · refine (ih.reached r' o ho hn).trans (fun _ _ h => h) fun r'' o'' hr'' ho'' => ?_
      exact .start (List.mem_cons_of_mem _ hr'') ho''
  | case3 unreached r rest o hsome ih =>
    rw [unreachedFrom, hsome]
    have herase : ∀ handle : UInt32, (unreached.erase r.handle)[handle]? =
        if r.handle = handle then none else unreached[handle]? :=
      fun handle => Maps.getElem?_erase_eq _ _ _
    have hsub : ∀ (handle : UInt32) o', (unreached.erase r.handle)[handle]? = some o' →
        unreached[handle]? = some o' := by
      intro handle o' ho'
      rw [herase] at ho'
      split at ho'
      · cases ho'
      · exact ho'
    have hself : r.handle ∉ unreachedFrom (unreached.erase r.handle) (o.references ++ rest) := by
      rw [not_mem_iff]
      cases hleft : (unreachedFrom (unreached.erase r.handle) (o.references ++ rest))[r.handle]? with
      | none => rfl
      | some o' =>
        have h := ih.sub _ _ hleft
        rw [herase, if_pos rfl] at h
        cases h
    have hr : Reachable (fun r => unreached[r.handle]?) (· ∈ r :: rest) r :=
      .start List.mem_cons_self hsome
    constructor
    · exact fun handle o' ho' => hsub handle o' (ih.sub handle o' ho')
    · intro r' hr'
      rcases List.mem_cons.1 hr' with rfl | hr'
      · exact hself
      · exact ih.started r' (List.mem_append_right _ hr')
    · intro handle o' ho' hn r' hr'
      by_cases hh : r.handle = handle
      · subst hh
        rw [hsome] at ho'
        cases ho'
        exact ih.started r' (List.mem_append_left _ hr')
      · refine ih.followed handle o' ?_ hn r' hr'
        rw [herase, if_neg hh]
        exact ho'
    · intro r' o' ho' hn
      by_cases hh : r.handle = r'.handle
      · have : r = r' := by
          cases r
          cases r'
          exact congrArg Ref.mk hh
        subst this
        exact hr
      · have hin : (unreached.erase r.handle)[r'.handle]? = some o' := by
          rw [herase, if_neg hh]
          exact ho'
        refine (ih.reached r' o' hin hn).trans (fun r o h => hsub _ _ h) fun r'' o'' hr'' ho'' => ?_
        rcases List.mem_append.1 hr'' with hr'' | hr''
        · exact .follow hr hsome (Object.mem_references.1 hr'') ho''
        · exact .start (List.mem_cons_of_mem _ hr'') ho''

/-- What is left after a walk is what cannot be reached. -/
theorem getElem?_unreachedFrom (objects : ObjectMap) (work : List Ref) (r : Ref) (o : Object) :
    (unreachedFrom objects work)[r.handle]? = some o ↔
      objects[r.handle]? = some o ∧ ¬ Reachable (fun r => objects[r.handle]?) (· ∈ work) r := by
  have hw := unreachedFrom_walked objects work
  have hout : ∀ r, Reachable (fun r => objects[r.handle]?) (· ∈ work) r →
      r.handle ∉ unreachedFrom objects work := by
    intro r hr
    induction hr with
    | start hs _ => exact hw.started _ hs
    | follow _ ho href _ ih => exact hw.followed _ _ ho ih _ (Object.mem_references.2 href)
  constructor
  · intro hleft
    refine ⟨hw.sub _ _ hleft, fun hr => ?_⟩
    have hnone := not_mem_iff.1 (hout r hr)
    rw [hleft] at hnone
    cases hnone
  · rintro ⟨ho, hnot⟩
    cases hleft : (unreachedFrom objects work)[r.handle]? with
    | none => exact absurd (hw.reached r o ho (not_mem_iff.2 hleft)) hnot
    | some o' =>
      have h := hw.sub _ _ hleft
      rw [ho] at h
      exact h.symm

end Walk

section Interview

variable {σ : Type} {ask : Ref → Companion → StateM σ (Bool × Companion)}

theorem mem_questions {unreached : ObjectMap} {r : Ref} {c : Companion} :
    (r, c) ∈ questions unreached ↔ ∃ o, unreached[r.handle]? = some o ∧ o.companion? = some c := by
  unfold questions
  simp only [List.mem_filterMap, Prod.exists, Option.map_eq_some_iff, Prod.mk.injEq,
    Std.ExtTreeMap.mem_toList_iff_getElem?_eq_some]
  constructor
  · rintro ⟨handle, o, ho, c', hc, rfl, rfl⟩
    exact ⟨o, ho, hc⟩
  · rintro ⟨o, ho, hc⟩
    exact ⟨r.handle, o, ho, c, hc, rfl, rfl⟩

theorem map_fst_questions_sublist (unreached : ObjectMap) :
    ((questions unreached).map (·.1)).Sublist (unreached.keys.map Ref.mk) := by
  unfold questions
  rw [← Std.ExtTreeMap.map_fst_toList_eq_keys, List.map_map]
  induction unreached.toList with
  | nil => exact .slnil
  | cons entry entries ih =>
    obtain ⟨handle, o⟩ := entry
    rw [List.filterMap_cons]
    dsimp only
    cases o.companion? with
    | none => exact ih.cons _
    | some c => exact ih.cons_cons _

theorem nodup_questions (unreached : ObjectMap) : ((questions unreached).map (·.1)).Nodup := by
  have hkeys : unreached.keys.Nodup := Std.ExtTreeMap.nodup_keys
  refine (map_fst_questions_sublist unreached).nodup (List.pairwise_map.2 (hkeys.imp ?_))
  exact fun hne h => hne (congrArg Ref.handle h)

theorem interview_cons (r : Ref) (c : Companion) (asked : List (Ref × Companion)) (s : σ) :
    interview ask ((r, c) :: asked) s =
      let answer := ask r c s
      let rest := interview ask asked answer.2
      (⟨r, answer.1.1, answer.1.2⟩ :: rest.1, rest.2) := by
  unfold interview
  rw [List.mapM_cons]
  rfl

/-- There is an answer to every question, in the same order. -/
theorem map_ref_interview (asked : List (Ref × Companion)) (s : σ) :
    (interview ask asked s).1.map (·.ref) = asked.map (·.1) := by
  induction asked generalizing s with
  | nil => rfl
  | cons q asked ih =>
    rw [interview_cons]
    exact congrArg (q.1 :: ·) (ih _)

/-- An answer is what the host made of the question. -/
theorem mem_interview {asked : List (Ref × Companion)} {s : σ} {a : Answer}
    (ha : a ∈ (interview ask asked s).1) :
    ∃ c s', (a.ref, c) ∈ asked ∧ (ask a.ref c s').1 = (a.agrees, a.companion) := by
  induction asked generalizing s with
  | nil => cases ha
  | cons q asked ih =>
    rw [interview_cons] at ha
    rcases List.mem_cons.1 ha with rfl | ha
    · exact ⟨q.2, s, List.mem_cons_self, rfl⟩
    · obtain ⟨c, s', hc, hask⟩ := ih ha
      exact ⟨c, s', List.mem_cons_of_mem _ hc, hask⟩

/-- An object as the interview left it. -/
def leftBy (answers : List Answer) (r : Ref) (o : Object) : Object :=
  match answers.find? (·.ref = r) with
  | some a => { o with payload := .companion a.companion }
  | none => o

theorem leftBy_of_not_mem {answers : List Answer} {r : Ref} (h : r ∉ answers.map (·.ref))
    (o : Object) : leftBy answers r o = o := by
  have hnone : answers.find? (·.ref = r) = none := by
    rw [List.find?_eq_none]
    intro a ha hr
    exact h (List.mem_map.2 ⟨a, ha, of_decide_eq_true hr⟩)
  rw [leftBy, hnone]

@[simp] theorem weight_leftBy (answers : List Answer) (r : Ref) (o : Object) :
    (leftBy answers r o).weight = o.weight := by
  unfold leftBy
  split <;> rfl

@[simp] theorem size_afterwards (objects : ObjectMap) (answers : List Answer) :
    (afterwards objects answers).size = objects.size := by
  unfold afterwards
  induction answers generalizing objects with
  | nil => rfl
  | cons a answers ih => exact (ih _).trans Std.ExtTreeMap.size_modify

theorem getElem?_afterwards {answers : List Answer} (hnodup : (answers.map (·.ref)).Nodup)
    (objects : ObjectMap) (r : Ref) :
    (afterwards objects answers)[r.handle]? = objects[r.handle]?.map (leftBy answers r) := by
  induction answers generalizing objects with
  | nil =>
    show objects[r.handle]? = objects[r.handle]?.map fun o => o
    rw [Option.map_id']
  | cons a answers ih =>
    rw [List.map_cons, List.nodup_cons] at hnodup
    rw [show afterwards objects (a :: answers) = afterwards (a.apply objects) answers from rfl,
      ih hnodup.2]
    have happly : (a.apply objects)[r.handle]? = if a.ref.handle = r.handle then
        objects[r.handle]?.map fun o => { o with payload := .companion a.companion }
        else objects[r.handle]? := Maps.getElem?_modify_eq _ _ _ _
    rw [happly]
    by_cases hr : a.ref = r
    · subst hr
      rw [if_pos rfl, Option.map_map]
      congr 1
      funext o
      rw [Function.comp_apply, leftBy_of_not_mem hnodup.1]
      simp [leftBy]
    · have hh : a.ref.handle ≠ r.handle := fun h => hr (by
        cases r
        exact congrArg Ref.mk h)
      rw [if_neg hh]
      congr 1
      funext o
      simp [leftBy, hr]

end Interview

section Marks

variable {h : Heap} {roots : List Ref} {answers : List Answer}

theorem filter_apply (keep : UInt32 → Bool) (objects : ObjectMap) (a : Answer) :
    (a.apply objects).filter (fun handle _ => keep handle) = a.apply (objects.filter fun handle _ => keep handle) := by
  refine Std.ExtTreeMap.ext_getElem? fun handle => ?_
  unfold Answer.apply
  rw [Maps.getElem?_modify_eq, Std.ExtTreeMap.getElem?_filter', Std.ExtTreeMap.getElem?_filter',
    Maps.getElem?_modify_eq]
  by_cases hh : a.ref.handle = handle
  · rw [if_pos hh, if_pos hh]
    cases objects[handle]? <;> cases keep handle <;> simp [Option.filter]
  · rw [if_neg hh, if_neg hh]

theorem filter_afterwards (keep : UInt32 → Bool) (objects : ObjectMap) (answers : List Answer) :
    (afterwards objects answers).filter (fun handle _ => keep handle) =
      afterwards (objects.filter fun handle _ => keep handle) answers := by
  induction answers generalizing objects with
  | nil => rfl
  | cons a answers ih => exact (ih _).trans (congrArg (afterwards · answers) (filter_apply keep objects a))

/-- What is not reachable from an object whose companion refused either. -/
def doomed (unreached : ObjectMap) (answers : List Answer) : ObjectMap :=
  unreachedFrom (afterwards unreached answers) (refusals answers)

theorem unmarked_kept (s : Marking) (answers : List Answer) :
    (kept s answers).unmarked = doomed s.unmarked answers := by
  unfold kept doomed
  rw [unmarked_mark]
  exact congrArg (unreachedFrom · _) (filter_afterwards (fun handle => !s.marks.contains handle) s.objects answers)

theorem unreached_eq (h : Heap) (roots : List Ref) :
    h.unreached roots = unreachedFrom h.objects (roots ++ h.ownRoots) := by
  have hclear : h.marking.unmarked = h.objects := by
    refine Std.ExtTreeMap.ext_getElem? fun handle => ?_
    rw [Marking.getElem?_unmarked, show h.marking.marks = ∅ from h.unmarked, if_neg Std.ExtTreeSet.not_mem_empty]
    rfl
  rw [unreached, reach, unmarked_mark, hclear]

theorem mem_unmarked (s : Marking) (handle : UInt32) :
    handle ∈ s.unmarked ↔ handle ∉ s.marks ∧ handle ∈ s.objects := by
  rw [Std.ExtTreeMap.mem_iff_isSome_getElem?, s.getElem?_unmarked, Std.ExtTreeMap.mem_iff_isSome_getElem?]
  split <;> simp [*]

theorem isMarked_iff (s : Marking) (r : Ref) :
    s.isMarked r ↔ r.handle ∈ s.objects ∧ r.handle ∉ s.unmarked := by
  rw [Marking.isMarked, Std.ExtTreeSet.contains_iff_mem, mem_unmarked]
  exact ⟨fun hmark => ⟨s.live _ hmark, fun hout => hout.1 hmark⟩,
    fun ⟨hin, hout⟩ => Classical.not_not.1 fun hmark => hout ⟨hmark, hin⟩⟩

/-- An object that is there is marked or not. -/
theorem getElem?_marked (s : Marking) (handle : UInt32) :
    s.marked[handle]? = if handle ∈ s.unmarked then none else s.objects[handle]? := by
  have hmem := mem_unmarked s handle
  unfold Marking.marked
  rw [Std.ExtTreeMap.getElem?_filter']
  cases ho : s.objects[handle]? with
  | none => simp
  | some o =>
    have hin : handle ∈ s.objects := Std.ExtTreeMap.mem_iff_isSome_getElem?.2 (ho ▸ rfl)
    by_cases hmark : handle ∈ s.marks
    · simp [hmem, hmark]
    · have hout : s.marks.contains handle = false := by
        rwa [← Bool.not_eq_true, Std.ExtTreeSet.contains_iff_mem]
      simp [hmem, hmark, hin, hout]

theorem objects_kept (h : Heap) (roots : List Ref) (answers : List Answer) :
    (kept (h.reach roots) answers).objects = afterwards h.objects answers := by
  unfold kept
  rw [objects_mark]
  exact congrArg (afterwards · answers) (objects_mark h.marking _)

/-- What stays is as the interview left it. -/
theorem get?_sweep (hnodup : (answers.map (·.ref)).Nodup) (r : Ref) :
    (h.sweep (h.reach roots) answers).2.get? r =
      if r.handle ∈ doomed (h.unreached roots) answers then none else (h.get? r).map (leftBy answers r) := by
  show (kept (h.reach roots) answers).marked[r.handle]? = _
  rw [getElem?_marked, unmarked_kept, objects_kept, getElem?_afterwards hnodup]
  rfl

end Marks

end Heap

end ClassMachine
