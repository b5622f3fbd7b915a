import ClassMachine.Proofs.Heap.Sweep

/-!
What a collection frees. Whatever host stands behind the companions, objects survive exactly when
they can be reached from a root or from an object whose companion refused, a companion is asked
exactly when its object cannot be reached from a root, and the counters and the accounting say what
became of the rest.
-/
namespace ClassMachine.Heap

/-- Where a collection starts: from what it is given, what the heap keeps alive on its own account,
and what any companion hides. -/
inductive Root (h : Heap) (roots : List Ref) : Ref → Prop
  | given {r : Ref} : r ∈ roots → Root h roots r
  | pinned {r : Ref} : r ∈ h.pinned → Root h roots r
  | interned {text : String} {r : Ref} : h.interned? text = some r → Root h roots r
  | mirror {id : ClassId} {r : Ref} : h.mirror? id = some r → Root h roots r
  | hidden {r r' : Ref} {o : Object} {c : Companion} :
      h.get? r' = some o → o.companion? = some c → r ∈ c.hiddenRefs → Root h roots r

/-- Live objects that need nobody's consent to stay. -/
def Reached (h : Heap) (roots : List Ref) : Ref → Prop := Reachable h.get? (Root h roots)

/-- Live objects as they are after the interview. -/
def asLeft (h : Heap) (answers : List Answer) (r : Ref) : Option Object :=
  (h.get? r).map (leftBy answers r)

/-- Objects reachable from those that were reached and from those whose companions refused. -/
def Survives (h : Heap) (roots : List Ref) (answers : List Answer) : Ref → Prop :=
  Reachable (h.asLeft answers) fun r => h.Reached roots r ∨ r ∈ refusals answers

/-- Exactly the companions of objects that were not reached, each once. -/
structure Questioned (h : Heap) (roots : List Ref) (asked : List (Ref × Companion)) : Prop where
  nodup : (asked.map (·.1)).Nodup
  mem : ∀ r c, (r, c) ∈ asked ↔
    ∃ o, h.get? r = some o ∧ o.companion? = some c ∧ ¬ h.Reached roots r

/-- Objects of one heap that are not in another. -/
def removed (h h' : Heap) : List (Ref × Object) := h.toList.filter fun e => !h'.contains e.1

/-- Total weight of a list of objects. -/
def weightOf (entries : List (Ref × Object)) : Nat := total (fun e => e.2.weight) entries

/-- What is in use is what the live objects weigh. -/
def Accounted (h : Heap) : Prop := h.used = weightOf h.toList

instance (h : Heap) : Decidable h.Accounted := inferInstanceAs (Decidable (_ = _))

/-- A heap after a collection in which companions gave these answers. -/
structure FreesGarbage (h : Heap) (roots : List Ref) (answers : List Answer)
    (cycle : CollectionStats) (h' : Heap) : Prop where
  get? : ∀ r o', h'.get? r = some o' ↔
    ∃ o, h.get? r = some o ∧ h.Survives roots answers r ∧ o' = leftBy answers r o
  refused : (refusals answers).Nodup
  counted : cycle = ⟨1, (removed h h').length, (refusals answers).length, weightOf (removed h h')⟩
  used : h'.used = h.used - cycle.reclaimed
  accounted : h.Accounted → h'.used + cycle.reclaimed = h.used ∧ h'.Accounted
  /-- What the walks mark in the end is what stays. -/
  marked : ∀ r, (kept (h.reach roots) answers).isMarked r ↔ h.Survives roots answers r
  /-- Only the marks of what stays are taken off. -/
  cleared : h'.marks = (kept (h.reach roots) answers).marks.filter fun handle => !h'.contains ⟨handle⟩
  clear : ∀ r, h'.isMarked r = false
  others : h' = { h with objects := h'.objects, used := h'.used, stats := h.stats.add cycle }

section Entries

theorem toList_eq (h : Heap) : h.toList = h.objects.toList.map fun e => (⟨e.1⟩, e.2) := rfl

theorem mem_toList {h : Heap} {r : Ref} {o : Object} : (r, o) ∈ h.toList ↔ h.get? r = some o := by
  rw [toList_eq, List.mem_map]
  simp only [Prod.exists, Std.ExtTreeMap.mem_toList_iff_getElem?_eq_some, Prod.mk.injEq]
  constructor
  · rintro ⟨handle, o', ho', rfl, rfl⟩
    exact ho'
  · intro ho
    exact ⟨r.handle, o, ho, rfl, rfl⟩

/-- No handle is listed twice. -/
theorem nodup_toList (h : Heap) : (h.toList.map (·.1)).Nodup := by
  have hkeys : h.objects.keys.Nodup := Std.ExtTreeMap.nodup_keys
  rw [toList_eq, List.map_map]
  rw [← Std.ExtTreeMap.map_fst_toList_eq_keys] at hkeys
  refine List.pairwise_map.2 ((List.pairwise_map.1 hkeys).imp ?_)
  exact fun hne h => hne (congrArg Ref.handle h)

theorem mem_removed {h h' : Heap} {r : Ref} {o : Object} :
    (r, o) ∈ removed h h' ↔ h.get? r = some o ∧ h'.get? r = none := by
  unfold removed Heap.contains
  rw [List.mem_filter, mem_toList]
  refine and_congr_right fun _ => ?_
  rw [show h'.get? r = none ↔ _ from not_mem_iff.symm, Bool.not_eq_true', ← Bool.not_eq_true]
  rw [Std.ExtTreeMap.contains_iff_mem]

theorem total_perm {α : Type} (size : α → Nat) {xs ys : List α} (h : xs.Perm ys) :
    total size xs = total size ys := by
  induction h with
  | nil => rfl
  | cons x _ ih => rw [total_cons, total_cons, ih]
  | swap x y xs => rw [total_cons, total_cons, total_cons, total_cons, Nat.add_left_comm]
  | trans _ _ ih ih' => exact ih.trans ih'

/-- Objects are told apart by their handles: two lists in which each handle has the same weight are
of one length and one weight. -/
theorem weightOf_congr {xs ys : List (Ref × Object)} (hx : (xs.map (·.1)).Nodup)
    (hy : (ys.map (·.1)).Nodup)
    (hmem : ∀ r w, (∃ o, (r, o) ∈ xs ∧ o.weight = w) ↔ ∃ o, (r, o) ∈ ys ∧ o.weight = w) :
    xs.length = ys.length ∧ weightOf xs = weightOf ys := by
  let weigh : Ref × Object → Ref × Nat := fun e => (e.1, e.2.weight)
  have hnodup : ∀ {es : List (Ref × Object)}, (es.map (·.1)).Nodup → (es.map weigh).Nodup := by
    intro es hes
    refine List.pairwise_map.2 ((List.pairwise_map.1 hes).imp ?_)
    exact fun hne h => hne (Prod.mk.inj h).1
  have hin : ∀ {es : List (Ref × Object)} {r : Ref} {w : Nat},
      (r, w) ∈ es.map weigh ↔ ∃ o, (r, o) ∈ es ∧ o.weight = w := by
    intro es r w
    simp only [List.mem_map, Prod.exists, weigh, Prod.mk.injEq]
    constructor
    · rintro ⟨_, o, ho, rfl, hw⟩
      exact ⟨o, ho, hw⟩
    · rintro ⟨o, ho, hw⟩
      exact ⟨r, o, ho, rfl, hw⟩
  have hperm : (xs.map weigh).Perm (ys.map weigh) := by
    refine (List.perm_ext_iff_of_nodup (hnodup hx) (hnodup hy)).2 fun e => ?_
    rw [hin, hin, hmem]
  have hsum : ∀ es : List (Ref × Object), weightOf es = total (·.2) (es.map weigh) := by
    intro es
    induction es with
    | nil => rfl
    | cons e es ih => exact congrArg (e.2.weight + ·) ih
  refine ⟨?_, ?_⟩
  · simpa using hperm.length_eq
  · rw [hsum, hsum]
    exact total_perm _ hperm

end Entries

section Collection

variable {h : Heap} {roots : List Ref}

theorem root_iff {r : Ref} : Root h roots r ↔ r ∈ roots ++ h.ownRoots := by
  unfold Heap.ownRoots
  simp only [List.mem_append, List.mem_flatMap, Maps.mem_values]
  constructor
  · intro hr
    cases hr with
    | given hr => exact .inl hr
    | pinned hr => exact .inr (.inl (.inl (.inl hr)))
    | interned hr => exact .inr (.inl (.inl (.inr ⟨_, hr⟩)))
    | mirror hr => exact .inr (.inl (.inr ⟨_, hr⟩))
    | @hidden _ r' o c ho hc hr =>
      refine .inr (.inr ⟨o, ⟨r'.handle, ho⟩, ?_⟩)
      rw [Object.hiddenRefs, hc]
      exact hr
  · rintro (hr | ((hr | ⟨text, hr⟩) | ⟨id, hr⟩) | ⟨o, ⟨handle, ho⟩, hr⟩)
    · exact .given hr
    · exact .pinned hr
    · exact .interned hr
    · exact .mirror hr
    · cases hc : o.companion? with
      | none =>
        rw [Object.hiddenRefs, hc] at hr
        cases hr
      | some c =>
        rw [Object.hiddenRefs, hc] at hr
        exact .hidden (show h.get? ⟨handle⟩ = some o from ho) hc hr

/-- What the first walk leaves is what was not reached. -/
theorem getElem?_unreached (h : Heap) (roots : List Ref) (r : Ref) (o : Object) :
    (h.unreached roots)[r.handle]? = some o ↔
      h.get? r = some o ∧ ¬ h.Reached roots r := by
  have hroot : Root h roots = (· ∈ roots ++ h.ownRoots) := by
    funext r
    exact propext root_iff
  rw [unreached_eq, getElem?_unreachedFrom, Reached, hroot]
  rfl

/-- The first walk marks what is reached. -/
theorem isMarked_reach (h : Heap) (roots : List Ref) (r : Ref) :
    (h.reach roots).isMarked r ↔ h.Reached roots r := by
  have hunreached := getElem?_unreached h roots r
  rw [isMarked_iff, show (h.reach roots).objects = h.objects from objects_mark _ _]
  rw [show (h.reach roots).unmarked = h.unreached roots from rfl, not_mem_iff,
    Option.eq_none_iff_forall_ne_some]
  constructor
  · rintro ⟨hmem, hout⟩
    obtain ⟨o, ho⟩ := Option.isSome_iff_exists.1 (Std.ExtTreeMap.mem_iff_isSome_getElem?.1 hmem)
    exact Classical.not_not.1 fun hr => hout o ((hunreached o).2 ⟨ho, hr⟩)
  · intro hr
    obtain ⟨o, ho⟩ := hr.live
    refine ⟨Std.ExtTreeMap.mem_iff_isSome_getElem?.2 (Option.isSome_of_eq_some ho), fun o' ho' => ?_⟩
    exact ((hunreached o').1 ho').2 hr

theorem questioned_questions (h : Heap) (roots : List Ref) :
    Questioned h roots (questions (h.unreached roots)) := by
  refine ⟨nodup_questions _, fun r c => ?_⟩
  rw [mem_questions]
  constructor
  · rintro ⟨o, ho, hc⟩
    obtain ⟨hget, hnot⟩ := (getElem?_unreached h roots r o).1 ho
    exact ⟨o, hget, hc, hnot⟩
  · rintro ⟨o, hget, hc, hnot⟩
    exact ⟨o, (getElem?_unreached h roots r o).2 ⟨hget, hnot⟩, hc⟩

variable {answers : List Answer}

theorem mem_refusals {r : Ref} (hr : r ∈ refusals answers) : r ∈ answers.map (·.ref) := by
  obtain ⟨a, ha, rfl⟩ := List.mem_map.1 hr
  exact List.mem_map.2 ⟨a, (List.mem_filter.1 ha).1, rfl⟩

/-- Answers about distinct objects none of which was reached. -/
structure Interviewed (h : Heap) (roots : List Ref) (answers : List Answer) : Prop where
  nodup : (answers.map (·.ref)).Nodup
  unreached : ∀ r ∈ answers.map (·.ref), ¬ h.Reached roots r

theorem Questioned.interviewed {σ : Type} {ask : Ref → Companion → StateM σ (Bool × Companion)}
    {asked : List (Ref × Companion)} (hq : Questioned h roots asked) (s : σ) :
    Interviewed h roots (interview ask asked s).1 := by
  constructor
  · rw [map_ref_interview]
    exact hq.nodup
  · intro r hr
    rw [map_ref_interview] at hr
    obtain ⟨⟨r', c⟩, hmem, rfl⟩ := List.mem_map.1 hr
    obtain ⟨o, _, _, hnot⟩ := (hq.mem r' c).1 hmem
    exact hnot

variable (ha : Interviewed h roots answers)
include ha

/-- Unreached objects as the interview left them. -/
theorem getElem?_afterwards_iff (r : Ref) (o' : Object) :
    (afterwards (h.unreached roots) answers)[r.handle]? = some o' ↔
      h.asLeft answers r = some o' ∧ ¬ h.Reached roots r := by
  rw [getElem?_afterwards ha.nodup, asLeft, Option.map_eq_some_iff, Option.map_eq_some_iff]
  constructor
  · rintro ⟨o, ho, rfl⟩
    obtain ⟨hget, hnot⟩ := (getElem?_unreached h roots r o).1 ho
    exact ⟨⟨o, hget, rfl⟩, hnot⟩
  · rintro ⟨⟨o, hget, rfl⟩, hnot⟩
    exact ⟨o, (getElem?_unreached h roots r o).2 ⟨hget, hnot⟩, rfl⟩

theorem asLeft_of_reached {r : Ref} (hr : h.Reached roots r) : h.asLeft answers r = h.get? r := by
  unfold asLeft
  cases h.get? r with
  | none => rfl
  | some o => rw [Option.map_some, leftBy_of_not_mem fun hmem => ha.unreached r hmem hr]

/-- Survivors were reached by the first walk or by the second one. -/
theorem survives_iff {r : Ref} :
    h.Survives roots answers r ↔ h.Reached roots r ∨
      Reachable (fun r =>
        (afterwards (h.unreached roots) answers)[r.handle]?)
        (· ∈ refusals answers) r := by
  constructor
  · intro hs
    induction hs with
    | @start r o hstart ho =>
      rcases hstart with hr | hr
      · exact .inl hr
      · exact .inr (.start hr ((getElem?_afterwards_iff ha r o).2 ⟨ho, ha.unreached r (mem_refusals hr)⟩))
    | @follow r r' o o' _ ho href ho' ih =>
      by_cases hr' : h.Reached roots r'
      · exact .inl hr'
      · have hasked := (getElem?_afterwards_iff ha r' o').2 ⟨ho', hr'⟩
        rcases ih with hr | hr
        · -- a reached object was not asked about, so it still refers to what it did
          obtain ⟨o₁, ho₁, _⟩ := Option.map_eq_some_iff.1 ho'
          rw [asLeft_of_reached ha hr] at ho
          exact .inl (.follow hr ho href ho₁)
        · obtain ⟨o₁, ho₁⟩ := hr.live
          have hsame := ((getElem?_afterwards_iff ha r o₁).1 ho₁).1
          rw [ho] at hsame
          cases hsame
          exact .inr (.follow hr ho₁ href hasked)
  · rintro (hr | hr)
    · obtain ⟨o, ho⟩ := hr.live
      exact .start (o := leftBy answers r o) (.inl hr) (by rw [asLeft, ho, Option.map_some])
    · refine hr.trans (fun r o ho => ((getElem?_afterwards_iff ha r o).1 ho).1) fun r o hr ho => ?_
      exact .start (.inr hr) ho

/-- What the second walk leaves is what does not survive. -/
theorem getElem?_doomed (r : Ref) (o' : Object) :
    (doomed (h.unreached roots) answers)[r.handle]? = some o' ↔
      h.asLeft answers r = some o' ∧ ¬ h.Survives roots answers r := by
  rw [doomed, getElem?_unreachedFrom, getElem?_afterwards_iff ha, survives_iff ha]
  rw [not_or, and_assoc]

/-- Survivors are as the interview left them, and nothing else is there. -/
theorem get?_sweep_iff (r : Ref) (o' : Object) :
    (h.sweep (h.reach roots) answers).2.get? r = some o' ↔
      ∃ o, h.get? r = some o ∧ h.Survives roots answers r ∧ o' = leftBy answers r o := by
  have hout : r.handle ∉ doomed (h.unreached roots) answers ↔
      ∀ o, h.asLeft answers r = some o → h.Survives roots answers r := by
    rw [not_mem_iff, Option.eq_none_iff_forall_ne_some]
    exact forall_congr' fun o => by rw [Ne, getElem?_doomed ha, not_and, Classical.not_not]
  rw [get?_sweep ha.nodup]
  cases ho : h.get? r with
  | none => simp
  | some o =>
    have hleft : h.asLeft answers r = some (leftBy answers r o) := by rw [asLeft, ho, Option.map_some]
    by_cases hs : h.Survives roots answers r
    · rw [if_neg (hout.2 fun _ _ => hs), Option.map_some]
      simp [hs, eq_comm]
    · rw [if_pos (Classical.not_not.1 fun hmem => hs (hout.1 hmem _ hleft))]
      simp [hs]

/-- What is taken out of the heap is what the second walk left, of the same number and weight. -/
theorem doomed_eq_removed {h' : Heap}
    (hh' : h' = (h.sweep (h.reach roots) answers).2) :
    (doomed (h.unreached roots) answers).size = (removed h h').length ∧
      total Object.weight (doomed (h.unreached roots) answers).values = weightOf (removed h h') := by
  let gone : Heap := { h with objects := doomed (h.unreached roots) answers }
  have hnone : ∀ r, h'.get? r = none ↔ ¬ ∃ o, h.get? r = some o ∧ h.Survives roots answers r := by
    intro r
    rw [hh', Option.eq_none_iff_forall_ne_some]
    constructor
    · rintro hnone ⟨o, ho, hs⟩
      exact hnone (leftBy answers r o) ((get?_sweep_iff ha r _).2 ⟨o, ho, hs, rfl⟩)
    · rintro hno o' ho'
      obtain ⟨o, ho, hs, _⟩ := (get?_sweep_iff ha r o').1 ho'
      exact hno ⟨o, ho, hs⟩
  have hcongr : gone.toList.length = (removed h h').length ∧
      weightOf gone.toList = weightOf (removed h h') := by
    refine weightOf_congr gone.nodup_toList ?_ fun r w => ?_
    · exact (List.filter_sublist.map _).nodup h.nodup_toList
    · simp only [mem_toList, mem_removed, hnone]
      constructor
      · rintro ⟨o', ho', rfl⟩
        obtain ⟨hleft, hs⟩ := (getElem?_doomed ha r o').1 ho'
        obtain ⟨o, ho, rfl⟩ := Option.map_eq_some_iff.1 hleft
        exact ⟨o, ⟨ho, fun ⟨_, _, hs'⟩ => hs hs'⟩, (weight_leftBy answers r o).symm⟩
      · rintro ⟨o, ⟨ho, hno⟩, rfl⟩
        refine ⟨leftBy answers r o, (getElem?_doomed ha r _).2 ⟨?_, fun hs => hno ⟨o, ho, hs⟩⟩, ?_⟩
        · rw [asLeft, ho, Option.map_some]
        · exact weight_leftBy answers r o
  have hweight : total Object.weight gone.objects.values = weightOf gone.toList := by
    rw [Maps.values_eq_map_toList, toList_eq]
    unfold weightOf
    induction gone.objects.toList with
    | nil => rfl
    | cons e es ih => exact congrArg (e.2.weight + ·) ih
  refine ⟨?_, hweight.trans hcongr.2⟩
  rw [← hcongr.1, toList_eq, List.length_map, Std.ExtTreeMap.length_toList]

/-- What stays weighs what it did. -/
theorem weightOf_kept {h' : Heap} (hh' : h' = (h.sweep (h.reach roots) answers).2) :
    weightOf h'.toList + weightOf (removed h h') = weightOf h.toList := by
  have hkept : weightOf h'.toList = weightOf (h.toList.filter fun e => h'.contains e.1) := by
    refine (weightOf_congr h'.nodup_toList ?_ fun r w => ?_).2
    · exact (List.filter_sublist.map _).nodup h.nodup_toList
    · simp only [List.mem_filter, mem_toList]
      constructor
      · rintro ⟨o', ho', rfl⟩
        have hin : h'.contains r = true := by
          rw [Heap.contains, Std.ExtTreeMap.contains_iff_mem, Std.ExtTreeMap.mem_iff_isSome_getElem?]
          exact Option.isSome_of_eq_some ho'
        rw [hh'] at ho'
        obtain ⟨o, ho, _, rfl⟩ := (get?_sweep_iff ha r o').1 ho'
        exact ⟨o, ⟨ho, hin⟩, (weight_leftBy answers r o).symm⟩
      · rintro ⟨o, ⟨ho, hin⟩, rfl⟩
        rw [Heap.contains, Std.ExtTreeMap.contains_iff_mem,
          Std.ExtTreeMap.mem_iff_isSome_getElem?] at hin
        obtain ⟨o', ho'⟩ := Option.isSome_iff_exists.1 hin
        refine ⟨o', ho', ?_⟩
        rw [show h'.objects[r.handle]? = h'.get? r from rfl, hh'] at ho'
        obtain ⟨o₁, ho₁, _, rfl⟩ := (get?_sweep_iff ha r o').1 ho'
        rw [ho] at ho₁
        cases ho₁
        exact weight_leftBy answers r o
  have hsplit := total_perm (fun e => e.2.weight)
    (List.filter_append_perm (fun e => h'.contains e.1) h.toList)
  rw [total_append] at hsplit
  rw [hkept]
  exact hsplit

/-- The marks in the end are on what survives. -/
theorem isMarked_kept (r : Ref) :
    (kept (h.reach roots) answers).isMarked r ↔ h.Survives roots answers r := by
  rw [isMarked_iff, unmarked_kept, objects_kept, not_mem_iff, Option.eq_none_iff_forall_ne_some]
  constructor
  · rintro ⟨hmem, hout⟩
    obtain ⟨o, ho⟩ := Option.isSome_iff_exists.1 (Std.ExtTreeMap.mem_iff_isSome_getElem?.1 hmem)
    rw [getElem?_afterwards ha.nodup] at ho
    exact Classical.not_not.1 fun hs => hout o ((getElem?_doomed ha r o).2 ⟨ho, hs⟩)
  · intro hs
    obtain ⟨o, ho⟩ := hs.live
    refine ⟨Std.ExtTreeMap.mem_iff_isSome_getElem?.2 ?_, fun o' ho' => ((getElem?_doomed ha r o').1 ho').2 hs⟩
    rw [getElem?_afterwards ha.nodup]
    exact Option.isSome_of_eq_some ho

theorem sweep_freesGarbage : FreesGarbage h roots answers
    (h.sweep (h.reach roots) answers).1 (h.sweep (h.reach roots) answers).2 := by
  have hcount := doomed_eq_removed ha rfl
  have hcycle : (h.sweep (h.reach roots) answers).1 =
      ⟨1, (removed h (h.sweep (h.reach roots) answers).2).length, (refusals answers).length,
        weightOf (removed h (h.sweep (h.reach roots) answers).2)⟩ := by
    rw [← hcount.1, ← hcount.2, unreached, ← unmarked_kept]
    rfl
  have hused : (h.sweep (h.reach roots) answers).2.used =
      h.used - (h.sweep (h.reach roots) answers).1.reclaimed := rfl
  have haccounted (hacc : h.Accounted) : (h.sweep (h.reach roots) answers).2.used +
      (h.sweep (h.reach roots) answers).1.reclaimed = h.used ∧
      (h.sweep (h.reach roots) answers).2.Accounted := by
    have hkept := weightOf_kept ha rfl
    unfold Accounted at hacc ⊢
    rw [hused, hcycle]
    dsimp only
    omega
  have hclear : (kept (h.reach roots) answers).cleared = h.marks :=
    (Marking.cleared_eq_empty _).trans h.unmarked.symm
  exact {
    get? := get?_sweep_iff ha
    refused := (List.filter_sublist.map _).nodup ha.nodup
    counted := hcycle
    used := hused
    accounted := haccounted
    marked := isMarked_kept ha
    cleared := rfl
    clear := isMarked_eq_false _
    others := Heap.ext rfl hclear rfl rfl rfl rfl rfl rfl rfl rfl rfl }

end Collection

/-- The companions that are asked are those of the objects that were not reached, each once, and the
rest follows from what the host answers. -/
theorem collectAsking_sweeps {σ : Type} (ask : Ref → Companion → StateM σ (Bool × Companion))
    (h : Heap) (roots : List Ref) (s : σ) :
    ∃ asked answers s' cycle h', Questioned h roots asked ∧ interview ask asked s = (answers, s') ∧
      h.collectAsking ask roots s = ((cycle, h'), s') ∧ FreesGarbage h roots answers cycle h' := by
  let asked := questions (h.unreached roots)
  have hq : Questioned h roots asked := questioned_questions h roots
  exact ⟨asked, (interview ask asked s).1, (interview ask asked s).2, _, _, hq, rfl, rfl,
    sweep_freesGarbage (hq.interviewed s)⟩

/-- A collection in which nobody else is asked. -/
theorem collect_frees (h : Heap) (roots : List Ref) :
    ∃ asked answers cycle, Questioned h roots asked ∧
      answers = (interview (fun _ c => return c.onDelete) asked ()).1 ∧
      FreesGarbage h roots answers cycle (h.collect roots).2 := by
  obtain ⟨asked, answers, s, cycle, h', hasked, hanswers, hrun, hfree⟩ :=
    collectAsking_sweeps (fun _ c => return c.onDelete) h roots ()
  refine ⟨asked, answers, cycle, hasked, by rw [hanswers], ?_⟩
  unfold collect
  rw [hrun]
  exact hfree

/-- A collection frees exactly the garbage. It starts with no mark set, and its first walk marks what is
reached. -/
theorem collectAsking_freesGarbage {σ : Type} (ask : Ref → Companion → StateM σ (Bool × Companion))
    (h : Heap) (roots : List Ref) (s : σ) :
    (∀ r, h.isMarked r = false) ∧ (∀ r, (h.reach roots).isMarked r ↔ h.Reached roots r) ∧
    ∃ asked answers s' cycle h', Questioned h roots asked ∧ interview ask asked s = (answers, s') ∧
      h.collectAsking ask roots s = ((cycle, h'), s') ∧ FreesGarbage h roots answers cycle h' :=
  ⟨h.isMarked_eq_false, isMarked_reach h roots, collectAsking_sweeps ask h roots s⟩

/-- A pair of objects that refer to each other, and two that carry companions, one of which refuses
and refers to the pair. -/
def specimen : Heap :=
  let h : Heap := { capacity := 1000 }
  let h := (h.insert (.ofPayload 1 [.ref ⟨2⟩] .none)).2
  let h := (h.insert (.ofPayload 1 [.ref ⟨1⟩] .none)).2
  let h := (h.insert (.ofPayload 2 [] (.companion (.counter 0)))).2
  (h.insert (.ofPayload 2 [.ref ⟨1⟩] (.companion (.holder [] 1 0)))).2

/-- The accounting of a heap made by insertions is right, and stays so. -/
theorem collectAsking_specimen : specimen.Accounted ∧
    ∃ cycle h' log, specimen.collectAsking (fun r c => do modify (r :: ·); return c.onDelete) [] [] =
      ((cycle, h'), log) ∧ h'.used + cycle.reclaimed = specimen.used ∧ h'.Accounted := by
  have hacc : specimen.Accounted := by decide
  refine ⟨hacc, ?_⟩
  obtain ⟨-, -, _, _, s', cycle, h', _, _, hrun, hfree⟩ := collectAsking_freesGarbage
    (fun r c => do modify (r :: ·); return c.onDelete) specimen [] []
  exact ⟨cycle, h', s', hrun, hfree.accounted hacc⟩

end ClassMachine.Heap

/-!
What becomes of an object whose companion agreed to its deletion. All companions are asked before it
is known which of them refuse, and what a refusal keeps includes objects whose companions have agreed.
Such an object stays, with a companion that was told otherwise, exactly if references lead to it from
an object whose companion refused. Every other one goes in the same collection, so that where no
refusal keeps an agreed object a companion agrees once in the life of its object and no live object
has one that did.
-/
namespace ClassMachine.Heap

/-- Objects whose companions agreed, in the order in which they were asked. -/
def consents (answers : List Answer) : List Ref := (answers.filter (·.agrees)).map (·.ref)

/-- Objects that references lead to from those whose companions refused. -/
def Resurrected (h : Heap) (answers : List Answer) : Ref → Prop :=
  Reachable (h.asLeft answers) (· ∈ refusals answers)

theorem mem_consents {answers : List Answer} {r : Ref} (hr : r ∈ consents answers) :
    r ∈ answers.map (·.ref) := by
  obtain ⟨a, ha, rfl⟩ := List.mem_map.1 hr
  exact List.mem_map.2 ⟨a, (List.mem_filter.1 ha).1, rfl⟩

theorem get?_eq_none_iff {h : Heap} {r : Ref} : h.get? r = none ↔ h.contains r = false := by
  rw [Heap.contains, ← Bool.not_eq_true, Std.ExtTreeMap.contains_iff_mem]
  exact not_mem_iff.symm

section Interviewed

variable {h : Heap} {roots : List Ref} {answers : List Answer}

/-- An object that was asked about was not reached, so that it survives by a refusal only. -/
theorem Interviewed.survives_iff_resurrected (ha : Interviewed h roots answers) {r : Ref}
    (hr : r ∈ answers.map (·.ref)) : h.Survives roots answers r ↔ h.Resurrected answers r := by
  constructor
  · intro hs
    rcases (survives_iff ha).1 hs with hreached | hkept
    · exact absurd hreached (ha.unreached r hr)
    · exact hkept.trans (fun r o ho => ((getElem?_afterwards_iff ha r o).1 ho).1)
        fun r o hr ho => .start hr ho
  · exact fun hres => hres.trans (fun _ _ ho => ho) fun r o hr ho => .start (.inr hr) ho

end Interviewed

/-- A heap after a collection in which companions gave these answers, as far as those that agreed are
concerned. -/
structure HonorsConsent (h : Heap) (answers : List Answer) (h' : Heap) : Prop where
  /-- A companion is asked once. -/
  once : (consents answers).Nodup
  /-- The companion of a live object is asked. -/
  live : ∀ r ∈ consents answers, ∃ o c, h.get? r = some o ∧ o.companion? = some c
  freed : ∀ r ∈ consents answers, h'.contains r = false ↔ ¬ h.Resurrected answers r
  /-- What was not there before a collection is not there after it. -/
  gone : ∀ r, h.contains r = false → h'.contains r = false

section Collection

variable {σ : Type} (ask : Ref → Companion → StateM σ (Bool × Companion))

/-- What the companions say in a collection of this heap. -/
def answersOf (h : Heap) (roots : List Ref) (s : σ) : List Answer :=
  (interview ask (questions (h.unreached roots)) s).1

theorem collectAsking_honorsConsent (h : Heap) (roots : List Ref) (s : σ) :
    HonorsConsent h (answersOf ask h roots s) (h.collectAsking ask roots s).1.2 := by
  have hasked := questioned_questions h roots
  have ha : Interviewed h roots (answersOf ask h roots s) := hasked.interviewed s
  have hget : ∀ r o', (h.collectAsking ask roots s).1.2.get? r = some o' ↔
      ∃ o, h.get? r = some o ∧ h.Survives roots (answersOf ask h roots s) r ∧
        o' = leftBy (answersOf ask h roots s) r o := fun r o' => get?_sweep_iff ha r o'
  have hlive : ∀ r ∈ consents (answersOf ask h roots s),
      ∃ o c, h.get? r = some o ∧ o.companion? = some c := by
    intro r hr
    have hmem := mem_consents hr
    rw [answersOf, map_ref_interview] at hmem
    obtain ⟨⟨r', c⟩, hc, rfl⟩ := List.mem_map.1 hmem
    obtain ⟨o, ho, hcomp, -⟩ := (hasked.mem r' c).1 hc
    exact ⟨o, c, ho, hcomp⟩
  refine ⟨(List.filter_sublist.map _).nodup ha.nodup, hlive, fun r hr => ?_, fun r hr => ?_⟩
  · rw [← ha.survives_iff_resurrected (mem_consents hr), ← get?_eq_none_iff,
      Option.eq_none_iff_forall_ne_some]
    obtain ⟨o, -, ho, -⟩ := hlive r hr
    exact ⟨fun hnone hs => hnone _ ((hget r _).2 ⟨o, ho, hs, rfl⟩),
      fun hno o' ho' => by
        obtain ⟨_, _, hs, _⟩ := (hget r o').1 ho'
        exact hno hs⟩
  · rw [← get?_eq_none_iff] at hr ⊢
    refine Option.eq_none_iff_forall_ne_some.2 fun o' ho' => ?_
    obtain ⟨o, ho, -⟩ := (hget r o').1 ho'
    rw [hr] at ho
    cases ho

/-- What may happen to a heap, with the host behind the companions, the objects whose companions have
agreed since they were added, and no collection in which a refusal keeps an agreed object. Making room
is a collection that changes the capacity. -/
inductive Lives : Heap → σ → List Ref → Prop where
  | new (capacity : Nat) (overflow : OverflowPolicy) (s : σ) : Lives { capacity, overflow } s []
  | insert {h : Heap} {s : σ} {agreed : List Ref} (hl : Lives h s agreed) (o : Object) :
    Lives (h.insert o).2 s (agreed.filter (· ≠ (h.insert o).1))
  | insertAt {h h' : Heap} {s : σ} {agreed : List Ref} (hl : Lives h s agreed) {r : Ref} {o : Object}
      (hi : h.insertAt? r o = some h') : Lives h' s (agreed.filter (· ≠ r))
  | update {h : Heap} {s : σ} {agreed : List Ref} (hl : Lives h s agreed) (r : Ref)
      (f : Object → Object) : Lives (h.update r f) s agreed
  /-- Pins, interned strings, mirrors and the capacity are not objects. -/
  | keep {h h' : Heap} {s : σ} {agreed : List Ref} (hl : Lives h s agreed)
      (ho : h'.objects = h.objects) : Lives h' s agreed
  | collect {h : Heap} {s : σ} {agreed : List Ref} (hl : Lives h s agreed) (roots : List Ref)
      (hkept : ∀ r ∈ consents (answersOf ask h roots s), ¬ h.Resurrected (answersOf ask h roots s) r) :
    Lives (h.collectAsking ask roots s).1.2 (h.collectAsking ask roots s).2
      (agreed ++ consents (answersOf ask h roots s))

theorem get?_insert_of_ne (h : Heap) (o : Object) {r : Ref} (hr : r ≠ (h.insert o).1) :
    (h.insert o).2.get? r = h.get? r := by
  refine (Maps.getElem?_insert_eq _ _ _ _).trans (if_neg fun heq => hr ?_)
  cases r
  exact congrArg Ref.mk heq.symm

theorem get?_insertAt_of_ne {h h' : Heap} {r r' : Ref} {o : Object}
    (hi : h.insertAt? r o = some h') (hr : r' ≠ r) : h'.get? r' = h.get? r' := by
  unfold Heap.insertAt? at hi
  split at hi
  · cases hi
  · cases hi
    refine (Maps.getElem?_insert_eq _ _ _ _).trans (if_neg fun heq => hr ?_)
    cases r
    cases r'
    exact congrArg Ref.mk heq.symm

theorem get?_update_eq_none {h : Heap} {r r' : Ref} {f : Object → Object} (hr : h.get? r' = none) :
    (h.update r f).get? r' = none := by
  refine (Maps.getElem?_modify_eq _ _ _ _).trans ?_
  rw [show h.objects[r'.handle]? = none from hr]
  split <;> rfl

/-- Each agreed once, and none of them is live. -/
theorem Lives.agreed_gone {h : Heap} {s : σ} {agreed : List Ref} (hl : Lives ask h s agreed) :
    agreed.Nodup ∧ ∀ r ∈ agreed, h.get? r = none := by
  induction hl with
  | new capacity overflow s => exact ⟨.nil, fun r hr => absurd hr List.not_mem_nil⟩
  | insert _ o ih =>
    refine ⟨List.filter_sublist.nodup ih.1, fun r hr => ?_⟩
    obtain ⟨hmem, hne⟩ := List.mem_filter.1 hr
    rw [get?_insert_of_ne _ _ (of_decide_eq_true hne)]
    exact ih.2 r hmem
  | insertAt _ hi ih =>
    refine ⟨List.filter_sublist.nodup ih.1, fun r hr => ?_⟩
    obtain ⟨hmem, hne⟩ := List.mem_filter.1 hr
    rw [get?_insertAt_of_ne hi (of_decide_eq_true hne)]
    exact ih.2 r hmem
  | update _ r f ih => exact ⟨ih.1, fun r' hr' => get?_update_eq_none (ih.2 r' hr')⟩
  | keep _ ho ih =>
    refine ⟨ih.1, fun r hr => ?_⟩
    rw [Heap.get?, ho]
    exact ih.2 r hr
  | @collect h s agreed _ roots hkept ih =>
    have hc := collectAsking_honorsConsent ask h roots s
    refine ⟨?_, fun r hr => get?_eq_none_iff.2 ?_⟩
    · -- an object that agreed earlier is gone and is not asked again
      refine List.nodup_append.2 ⟨ih.1, hc.once, fun r hr r' hr' heq => ?_⟩
      obtain ⟨o, c, ho, -⟩ := hc.live r' hr'
      rw [← heq, ih.2 r hr] at ho
      cases ho
    · rcases List.mem_append.1 hr with hold | hnew
      · exact hc.gone r (get?_eq_none_iff.1 (ih.2 r hold))
      · exact (hc.freed r hnew).2 (hkept r hnew)

end Collection

/-- An object whose companion agreed goes in the same collection, unless references lead to it from an
object whose companion refused. Where none does, a companion agrees once in the life of its object,
and no live object has a companion that agreed. -/
theorem consented_removed {σ : Type} (ask : Ref → Companion → StateM σ (Bool × Companion)) :
    (∀ (h : Heap) (roots : List Ref) (s : σ), HonorsConsent h (answersOf ask h roots s)
      (h.collectAsking ask roots s).1.2) ∧
    ∀ {h : Heap} {s : σ} {agreed : List Ref}, Lives ask h s agreed →
      agreed.Nodup ∧ ∀ r ∈ agreed, h.get? r = none :=
  ⟨collectAsking_honorsConsent ask, fun hl => hl.agreed_gone⟩

/-- A host that lets companions answer for themselves and keeps a list of whom it asked. -/
def listing (r : Ref) (c : Companion) : StateM (List Ref) (Bool × Companion) := do
  modify (r :: ·)
  return c.onDelete

theorem answersOf_specimen :
    answersOf listing specimen [] [] = (interview listing (questions specimen.objects) []).1 := by
  rw [answersOf, unreached_eq, show [] ++ specimen.ownRoots = [] by decide, unreachedFrom]

theorem consented_removed_specimen :
    let collected := specimen.collectAsking listing [] []
    Lives listing collected.1.2 collected.2 [⟨3⟩] ∧ collected.1.2.get? ⟨3⟩ = none := by
  have hmade : Lives listing specimen [] [] := ((((Lives.new 1000 .throw []).insert _).insert _).insert
    _).insert _
  have hconsents : consents (answersOf listing specimen [] []) = [⟨3⟩] := by
    rw [answersOf_specimen]
    decide
  have hunnamed : ∀ e ∈ specimen.toList,
      ⟨3⟩ ∉ (leftBy (answersOf listing specimen [] []) e.1 e.2).references := by
    rw [answersOf_specimen]
    decide
  have hkept : ¬ specimen.Resurrected (answersOf listing specimen [] []) ⟨3⟩ := by
    intro hr
    cases hr with
    | start hrefused _ =>
      rw [answersOf_specimen] at hrefused
      revert hrefused
      decide
    | follow _ ho href _ =>
      obtain ⟨o, hget, rfl⟩ := Option.map_eq_some_iff.1 ho
      exact hunnamed _ (mem_toList.2 hget) (Object.mem_references.2 href)
  have hcollected := hmade.collect [] (hconsents ▸ List.forall_mem_singleton.2 hkept)
  rw [hconsents] at hcollected
  exact ⟨hcollected, ((consented_removed listing).2 hcollected).2 _ (List.mem_singleton.2 rfl)⟩

/-- An object whose companion agrees, and one that refers to it, whose companion refuses once. -/
def entangled : Heap :=
  let h : Heap := { capacity := 1000 }
  let h := (h.insert (.ofPayload 1 [] (.companion (.holder [] 0 0)))).2
  (h.insert (.ofPayload 1 [.ref ⟨1⟩] (.companion (.holder [] 1 0)))).2

/-- The refusal keeps the object whose companion agreed. -/
theorem consented_kept_entangled :
    consents (answersOf listing entangled [] []) = [⟨1⟩] ∧
      (entangled.collectAsking listing [] []).1.2.contains ⟨1⟩ = true := by
  have hanswers : answersOf listing entangled [] [] =
      (interview listing (questions entangled.objects) []).1 := by
    rw [answersOf, unreached_eq, show [] ++ entangled.ownRoots = [] by decide, unreachedFrom]
  have hconsents : consents (answersOf listing entangled [] []) = [⟨1⟩] := by
    rw [hanswers]
    decide
  have hkept : entangled.Resurrected (answersOf listing entangled [] []) ⟨1⟩ := by
    rw [hanswers]
    have hkeeper : entangled.asLeft (interview listing (questions entangled.objects) []).1 ⟨2⟩ =
        some (.ofPayload 1 [.ref ⟨1⟩] (.companion (.holder [] 0 1))) := by decide
    have hagreed : entangled.asLeft (interview listing (questions entangled.objects) []).1 ⟨1⟩ =
        some (.ofPayload 1 [] (.companion (.holder [] 0 1))) := by decide
    exact .follow (.start (by decide) hkeeper) hkeeper (Object.mem_references.1 (by decide)) hagreed
  have hfreed := (collectAsking_honorsConsent listing entangled [] []).freed ⟨1⟩
    (hconsents ▸ List.mem_singleton.2 rfl)
  exact ⟨hconsents, eq_true_of_ne_false fun hgone => hfreed.1 hgone hkept⟩

end ClassMachine.Heap
