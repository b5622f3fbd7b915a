import ClassMachine.Proofs.Heap.Monitors
import Mathlib.Algebra.Order.Ring.Int
import Mathlib.Data.List.Nodup
import Mathlib.Data.List.Perm.Subperm

/-!
Accounting and handles of a heap through everything that is done to it. What is in use is what the
live objects weigh, nothing is found under null, and what is added gets a handle that named nothing.
Making room collects at most once, and a request that fails changes nothing else. An allocation makes
room first, so that its handle may be that of an object which it has just freed.

Handles start over after the largest one, and a heap can be given objects under handles of any size, so
a handle is not new because it is the next one. It is because the search for it comes by more handles
than there are objects before it comes by one twice.
-/
namespace ClassMachine.Heap

section Handles

/-- Number of handles that may name an object. -/
def handleCount : Nat := UInt32.size - 1

theorem toNat_successor {handle : UInt32} (h : handle ≠ 0) :
    (successor handle).toNat = handle.toNat % handleCount + 1 := by
  have hlt := handle.toNat_lt
  have hpos : handle.toNat ≠ 0 := fun h0 => h (UInt32.toNat_inj.1 h0)
  have hadd : (handle + 1).toNat = (handle.toNat + 1) % 2 ^ 32 := by
    rw [UInt32.toNat_add]
    rfl
  have hcount : handleCount = 2 ^ 32 - 1 := rfl
  unfold successor
  split
  · next hz =>
    rw [hz] at hadd
    have hzero : (0 : UInt32).toNat = 0 := rfl
    have hone : (1 : UInt32).toNat = 1 := rfl
    have hmax : handle.toNat = handleCount := by omega
    rw [hone, hmax, Nat.mod_self]
  · next hnz =>
    have hlast : handle.toNat + 1 ≠ 2 ^ 32 := fun he => hnz (UInt32.toNat_inj.1 (by
      rw [hadd, he]
      rfl))
    rw [hadd, Nat.mod_eq_of_lt (by omega), Nat.mod_eq_of_lt (by omega)]

/-- Handles the search comes by, from one on. -/
def candidate (handle : UInt32) : Nat → UInt32
  | 0 => handle
  | n + 1 => candidate (successor handle) n

theorem toNat_candidate {handle : UInt32} (h : handle ≠ 0) (n : Nat) :
    (candidate handle n).toNat = (handle.toNat - 1 + n) % handleCount + 1 := by
  have hlt := handle.toNat_lt
  have hpos : handle.toNat ≠ 0 := fun h0 => h (UInt32.toNat_inj.1 h0)
  have hcount : handleCount = 2 ^ 32 - 1 := rfl
  induction n generalizing handle with
  | zero =>
    rw [candidate, Nat.add_zero, Nat.mod_eq_of_lt (by omega)]
    omega
  | succ n ih =>
    have hsucc := toNat_successor h
    rw [candidate, ih (successor_ne_zero handle) (successor handle).toNat_lt (by omega), hsucc,
      Nat.add_sub_cancel, Nat.mod_add_mod]
    congr 2
    omega

/-- No handle comes twice before all of them have come. -/
theorem nodup_candidates {handle : UInt32} (h : handle ≠ 0) {n : Nat} (hn : n ≤ handleCount) :
    ((List.range n).map (candidate handle)).Nodup := by
  refine List.nodup_range.map_on fun i hi j hj heq => ?_
  have hi := List.mem_range.1 hi
  have hj := List.mem_range.1 hj
  have htoNat := congrArg UInt32.toNat heq
  have hcount : handleCount = 4294967295 := rfl
  rw [toNat_candidate h, toNat_candidate h, hcount] at htoNat
  omega

/-- What the search answers names nothing, or everything it came by does. -/
theorem seekHandle_spec (objects : ObjectMap) (fuel : Nat) (handle : UInt32) :
    seekHandle objects fuel handle ∉ objects ∨
      ∀ n ≤ fuel, candidate handle n ∈ objects := by
  induction fuel generalizing handle with
  | zero =>
    by_cases hmem : handle ∈ objects
    · refine .inr fun n hn => ?_
      obtain rfl := Nat.le_zero.1 hn
      exact hmem
    · exact .inl hmem
  | succ fuel ih =>
    unfold seekHandle
    split
    · next hin =>
      rcases ih (successor handle) with hfree | hall
      · exact .inl hfree
      · refine .inr fun n hn => ?_
        cases n with
        | zero => exact Std.ExtTreeMap.contains_iff_mem.1 hin
        | succ n => exact hall n (Nat.le_of_succ_le_succ hn)
    · next hout => exact .inl fun hmem => hout (Std.ExtTreeMap.contains_iff_mem.2 hmem)

/-- While there are handles left, the search finds one of them. -/
theorem seekHandle_not_mem {objects : ObjectMap} {handle : UInt32} (h : handle ≠ 0)
    (hsize : objects.size < handleCount) : seekHandle objects objects.size handle ∉ objects := by
  rcases seekHandle_spec objects objects.size handle with hfree | hall
  · exact hfree
  · have hsub : (List.range (objects.size + 1)).map (candidate handle) ⊆ objects.keys := by
      intro key hkey
      obtain ⟨n, hn, rfl⟩ := List.mem_map.1 hkey
      exact Std.ExtTreeMap.mem_keys.2 (hall n (Nat.le_of_lt_succ (List.mem_range.1 hn)))
    have hlength := (List.subperm_of_subset (nodup_candidates h hsize) hsub).length_le
    rw [List.length_map, List.length_range, Std.ExtTreeMap.length_keys] at hlength
    omega

end Handles

/-- What holds between operations. -/
structure Sound (h : Heap) : Prop where
  accounted : h.Accounted
  addressed : h.Addressed

/-- An object is added under a handle that named nothing, and nothing else becomes different. -/
structure Adds (h : Heap) (o : Object) (r : Ref) (h' : Heap) : Prop where
  nonNull : r.isNull = false
  fresh : h.get? r = none
  added : h'.get? r = some o
  others : ∀ r', r' ≠ r → h'.get? r' = h.get? r'
  used : h'.used = h.used + o.weight

section Changes

variable {h h' : Heap}

theorem Accounted.of_objects_eq (ha : h.Accounted) (ho : h'.objects = h.objects)
    (hu : h'.used = h.used) : h'.Accounted := by
  unfold Accounted at ha ⊢
  rw [hu, ha, toList_eq, toList_eq, ho]

theorem Addressed.of_objects_eq (ha : h.Addressed) (ho : h'.objects = h.objects)
    (hn : h'.nextHandle = h.nextHandle) : h'.Addressed := by
  refine ⟨hn ▸ ha.next, ?_⟩
  rw [Heap.get?, ho]
  exact ha.null

/-- Objects are not touched by what is done to the rest of a heap. -/
theorem Sound.of_objects_eq (hs : h.Sound) (ho : h'.objects = h.objects)
    (hn : h'.nextHandle = h.nextHandle) (hu : h'.used = h.used) : h'.Sound :=
  ⟨hs.accounted.of_objects_eq ho hu, hs.addressed.of_objects_eq ho hn⟩

theorem adds_of_insert {o : Object} {r : Ref} (hnull : r.isNull = false) (hfresh : h.get? r = none)
    (ho : h'.objects = h.objects.insert r.handle o) (hu : h'.used = h.used + o.weight) :
    Adds h o r h' := by
  have hget : ∀ r', h'.get? r' = if r.handle = r'.handle then some o else h.get? r' := by
    intro r'
    rw [Heap.get?, ho]
    exact Maps.getElem?_insert_eq _ _ _ _
  refine ⟨hnull, hfresh, by rw [hget, if_pos rfl], fun r' hr' => ?_, hu⟩
  rw [hget, if_neg fun heq => hr' ?_]
  cases r
  cases r'
  exact congrArg Ref.mk heq.symm

theorem Adds.accounted {o : Object} {r : Ref} (hi : Adds h o r h') (ha : h.Accounted) :
    h'.Accounted := by
  unfold Accounted at ha ⊢
  have hlive : r ∉ h.toList.map (·.1) := by
    intro hr
    obtain ⟨⟨r', o'⟩, hmem, rfl⟩ := List.mem_map.1 hr
    have hfresh := hi.fresh
    rw [mem_toList.1 hmem] at hfresh
    cases hfresh
  have hnodup : (((r, o) :: h.toList).map (·.1)).Nodup :=
    List.nodup_cons.2 ⟨hlive, h.nodup_toList⟩
  have hweight : weightOf h'.toList = weightOf ((r, o) :: h.toList) := by
    refine (weightOf_congr h'.nodup_toList hnodup fun r' w => ?_).2
    simp only [List.mem_cons, mem_toList, Prod.mk.injEq]
    by_cases hr : r' = r
    · subst hr
      rw [hi.added, hi.fresh]
      simp
    · rw [hi.others r' hr]
      simp [hr]
  rw [hi.used, hweight, ha, Nat.add_comm]
  rfl

theorem Adds.null {o : Object} {r : Ref} (hi : Adds h o r h') (ha : h.Addressed) :
    h'.get? .null = none := by
  rw [hi.others .null fun heq => ?_]
  · exact ha.null
  · have hnull := hi.nonNull
    rw [← heq] at hnull
    cases hnull

theorem insert_adds (hs : h.Addressed) (hsize : h.size < handleCount) (o : Object) :
    Adds h o (h.insert o).1 (h.insert o).2 := by
  refine adds_of_insert ?_ ?_ rfl rfl
  · exact beq_eq_false_iff_ne.2 (seekHandle_ne_zero h.objects h.size hs.next)
  · exact not_mem_iff.1 (seekHandle_not_mem hs.next hsize)

theorem insert_sound (hs : h.Sound) (hsize : h.size < handleCount) (o : Object) :
    (h.insert o).2.Sound :=
  have hadds := insert_adds hs.addressed hsize o
  ⟨hadds.accounted hs.accounted, successor_ne_zero _, hadds.null hs.addressed⟩

theorem insertAt_adds {r : Ref} {o : Object} (hi : h.insertAt? r o = some h') : Adds h o r h' := by
  unfold Heap.insertAt? at hi
  split at hi
  · cases hi
  · next hcond =>
    cases hi
    rw [Bool.or_eq_true, not_or, Bool.not_eq_true, Bool.not_eq_true] at hcond
    refine adds_of_insert hcond.1 (not_mem_iff.1 ?_) rfl rfl
    rw [← Std.ExtTreeMap.contains_iff_mem, ← Heap.contains, hcond.2]
    exact Bool.false_ne_true

theorem insertAt_sound (hs : h.Sound) {r : Ref} {o : Object} (hi : h.insertAt? r o = some h') :
    h'.Sound := by
  have hadds := insertAt_adds hi
  refine ⟨hadds.accounted hs.accounted, ?_, hadds.null hs.addressed⟩
  unfold Heap.insertAt? at hi
  split at hi
  · cases hi
  · cases hi
    dsimp only
    split
    · exact successor_ne_zero _
    · exact hs.addressed.next

/-- Heaps in which each handle has the same weight weigh the same altogether. -/
theorem weightOf_toList_congr (hw : ∀ r, (h'.get? r).map Object.weight = (h.get? r).map Object.weight) :
    weightOf h'.toList = weightOf h.toList := by
  refine (weightOf_congr h'.nodup_toList h.nodup_toList fun r w => ?_).2
  simp only [mem_toList, ← Option.map_eq_some_iff (f := Object.weight), hw]

theorem Sound.of_weights (hs : h.Sound)
    (hw : ∀ r, (h'.get? r).map Object.weight = (h.get? r).map Object.weight)
    (hn : h'.nextHandle = h.nextHandle) (hu : h'.used = h.used) : h'.Sound := by
  refine ⟨?_, hn ▸ hs.addressed.next, ?_⟩
  · unfold Accounted
    rw [hu, weightOf_toList_congr hw]
    exact hs.accounted
  · have hnull := hw .null
    rw [hs.addressed.null] at hnull
    exact Option.map_eq_none_iff.1 hnull

/-- A change that leaves the weight of an object alone. -/
theorem update_sound (hs : h.Sound) (r : Ref) {f : Object → Object}
    (hf : ∀ o, (f o).weight = o.weight) : (h.update r f).Sound := by
  refine hs.of_weights (fun r' => ?_) rfl rfl
  rw [get?_update]
  split
  · rw [Option.map_map]
    exact congrFun (congrArg Option.map (funext hf)) _
  · rfl

end Changes

section Collections

variable (h : Heap) (roots : List Ref)

theorem collectAsking_sound {σ : Type} (ask : Ref → Companion → StateM σ (Bool × Companion)) (s : σ)
    (hs : h.Sound) : (h.collectAsking ask roots s).1.2.Sound ∧
      (h.collectAsking ask roots s).1.1.reclaimed ≤ h.used := by
  obtain ⟨asked, answers, s', cycle, h', -, -, hrun, hfree⟩ := collectAsking_sweeps ask h roots s
  rw [hrun]
  obtain ⟨hused, hacc⟩ := hfree.accounted hs.accounted
  have hnext : h'.nextHandle = h.nextHandle := congrArg (·.nextHandle) hfree.others
  refine ⟨⟨hacc, hnext ▸ hs.addressed.next, ?_⟩, hused ▸ Nat.le_add_left _ _⟩
  refine Option.eq_none_iff_forall_ne_some.2 fun o' ho' => ?_
  obtain ⟨o, ho, -⟩ := (hfree.get? .null o').1 ho'
  rw [hs.addressed.null] at ho
  cases ho

theorem collect_sound (hs : h.Sound) : (h.collect roots).2.Sound :=
  (collectAsking_sound h roots (fun _ c => return c.onDelete) () hs).1

theorem size_collect_le : (h.collect roots).2.size ≤ h.size := by
  let answers := (interview (fun _ c => (return c.onDelete : StateM Unit _)) (questions (h.unreached roots)) ()).1
  show (kept (h.reach roots) answers).marked.size ≤ h.objects.size
  rw [← size_afterwards h.objects answers, ← objects_kept h roots]
  exact Std.ExtTreeMap.size_filter_le_size

/-- An object that is reached is as it was. -/
theorem get?_collect_of_reached {r : Ref} (hr : h.Reached roots r) :
    (h.collect roots).2.get? r = h.get? r := by
  have ha : Interviewed h roots (interview (fun _ c => (return c.onDelete : StateM Unit _))
      (questions (h.unreached roots)) ()).1 := (questioned_questions h roots).interviewed ()
  obtain ⟨o, ho⟩ := hr.live
  have hleft := asLeft_of_reached ha hr
  have hsame := get?_sweep_iff ha r o
  rw [ho]
  refine hsame.2 ⟨o, ho, .start (.inl hr) (hleft.trans ho), ?_⟩
  rw [asLeft, ho] at hleft
  exact (Option.some.inj hleft).symm

/-- What making room comes to: nothing, a collection, a collection and a larger capacity, or a collection
and an error. -/
inductive MakesRoom (units : Nat) : Except AllocError Unit × Heap → Prop where
  | fits (hf : h.fits units = true) : MakesRoom units (.ok (), h)
  | collects (hf : h.fits units = false) (hc : (h.collect roots).2.fits units = true) :
    MakesRoom units (.ok (), (h.collect roots).2)
  | grows (hf : h.fits units = false) (capacity : Nat) (hp : h.overflow = .expand)
      (hu : units ≤ growthLimit) (hc : (h.collect roots).2.used + units ≤ capacity) :
    MakesRoom units (.ok (), { (h.collect roots).2 with capacity })
  | fails (hf : h.fits units = false) (e : AllocError) (hp : h.overflow = .expand → growthLimit < units) :
    MakesRoom units (.error e, (h.collect roots).2)

theorem overflowed_expand {units : Nat} (hp : h.overflow = .expand) (hu : units ≤ growthLimit) :
    h.overflowed units =
      .ok { h with capacity := max (min (h.capacity * 2) Object.maxUnits) (h.used + units) } := by
  cases h
  cases hp
  exact if_pos hu

theorem overflowed_error {units : Nat} (hp : h.overflow = .expand → growthLimit < units) :
    ∃ e, h.overflowed units = .error e := by
  unfold overflowed
  cases hpolicy : h.overflow with
  | expand => exact ⟨_, if_neg (Nat.not_le_of_lt (hp hpolicy))⟩
  | throw => exact ⟨_, rfl⟩
  | abort => exact ⟨_, rfl⟩

theorem reserve_makesRoom (units : Nat) : MakesRoom h roots units (h.reserve roots units) := by
  unfold reserve
  split
  · next hf => exact .fits hf
  · next hf =>
    have hf := eq_false_of_ne_true hf
    dsimp only
    split
    · next hc => exact .collects hf hc
    · by_cases hgrows : h.overflow = .expand ∧ units ≤ growthLimit
      · rw [overflowed_expand (h.collect roots).2 hgrows.1 hgrows.2]
        exact .grows hf _ hgrows.1 hgrows.2 (Nat.le_max_right _ _)
      · have hp : h.overflow = .expand → growthLimit < units := fun hp =>
          Nat.lt_of_not_le fun hu => hgrows ⟨hp, hu⟩
        obtain ⟨e, he⟩ := overflowed_error (h.collect roots).2 hp
        rw [he]
        exact .fails hf e hp

variable {h roots} {units : Nat} {result : Except AllocError Unit × Heap}

theorem le_capacity_of_fits (hsum : h.used + units ≤ Object.maxUnits) (hf : h.fits units = true) :
    h.used + units ≤ h.capacity := by
  have hle := of_decide_eq_true hf
  rwa [Nat.min_eq_left hsum] at hle

theorem MakesRoom.sound (hm : MakesRoom h roots units result) (hs : h.Sound) : result.2.Sound := by
  have hcollect := collect_sound h roots hs
  cases hm with
  | fits => exact hs
  | collects => exact hcollect
  | grows => exact hcollect.of_objects_eq rfl rfl rfl
  | fails => exact hcollect

theorem MakesRoom.size_le (hm : MakesRoom h roots units result) : result.2.size ≤ h.size := by
  have hcollect := size_collect_le h roots
  cases hm with
  | fits => exact Nat.le_refl _
  | collects => exact hcollect
  | grows => exact hcollect
  | fails => exact hcollect

theorem MakesRoom.le_capacity (hm : MakesRoom h roots units result)
    (hsum : h.used + units ≤ Object.maxUnits) (hok : result.1 = .ok ()) :
    result.2.used + units ≤ result.2.capacity := by
  have hused : (h.collect roots).2.used ≤ h.used := Nat.sub_le _ _
  cases hm with
  | fits hf => exact le_capacity_of_fits hsum hf
  | collects _ hc => exact le_capacity_of_fits (Nat.le_trans (Nat.add_le_add_right hused _) hsum) hc
  | grows _ _ _ _ hc => exact hc
  | fails => cases hok

theorem MakesRoom.get?_of_reached (hm : MakesRoom h roots units result) {r : Ref}
    (hr : h.Reached roots r) : result.2.get? r = h.get? r := by
  have hcollect := get?_collect_of_reached h roots hr
  cases hm with
  | fits => rfl
  | collects => exact hcollect
  | grows => exact hcollect
  | fails => exact hcollect

end Collections

/-- A request for so many units, what it answers and the heap it leaves. -/
structure Requests {α : Type} (h : Heap) (roots : List Ref) (units : Nat)
    (result : Except AllocError α × Heap) : Prop where
  /-- A request that fails is a collection. -/
  failed : ∀ e, result.1 = .error e →
    result.2 = (h.collect roots).2 ∧ result.2.capacity = h.capacity
  granted : h.overflow = .expand → units ≤ 2 ^ 28 → ∃ a, result.1 = .ok a
  bounded : 2 ^ 28 < units → result.2.capacity = h.capacity

/-- What an allocation answers and the heap it leaves. -/
structure Allocates (h : Heap) (roots : List Ref) (o : Object) (result : Except AllocError Ref × Heap) :
    Prop extends Requests h roots o.weight result where
  /-- The object is added once there is room for it. -/
  added : ∀ r, result.1 = .ok r → ∃ h₁, MakesRoom h roots o.weight (.ok (), h₁) ∧
    Adds h₁ o r result.2 ∧ result.2.used ≤ result.2.capacity
  /-- Where there is room, nothing is collected. -/
  uncollected : ∀ r, h.fits o.weight = true → result.1 = .ok r → Adds h o r result.2
  reached : ∀ r, result.1 = .ok r → ∀ r', h.Reached roots r' →
    r' ≠ r ∧ result.2.get? r' = h.get? r'

section Requests

variable {h : Heap} {roots : List Ref}

theorem reserve_requests (units : Nat) : Requests h roots units (h.reserve roots units) := by
  have hmakes := reserve_makesRoom h roots units
  generalize h.reserve roots units = result at hmakes
  cases hmakes with
  | fits hf => exact ⟨nofun, fun _ _ => ⟨(), rfl⟩, fun _ => rfl⟩
  | collects hf hc => exact ⟨nofun, fun _ _ => ⟨(), rfl⟩, fun _ => rfl⟩
  | grows hf capacity hp hu hc =>
    exact ⟨nofun, fun _ _ => ⟨(), rfl⟩, fun hl => absurd hu (Nat.not_le_of_lt hl)⟩
  | fails hf e hp =>
    exact ⟨fun _ _ => ⟨rfl, rfl⟩, fun hpolicy hu => absurd hu (Nat.not_le_of_lt (hp hpolicy)),
      fun _ => rfl⟩

theorem allocate_ok {o : Object} (hr : (h.reserve roots o.weight).1 = .ok ()) :
    h.allocate roots o = (.ok ((h.reserve roots o.weight).2.insert o).1,
      ((h.reserve roots o.weight).2.insert o).2) := by
  unfold allocate
  split
  · next h₁ heq => rw [heq]
  · next e h₁ heq => rw [heq] at hr; cases hr

theorem allocate_error {o : Object} {e : AllocError} (hr : (h.reserve roots o.weight).1 = .error e) :
    h.allocate roots o = (.error e, (h.reserve roots o.weight).2) := by
  unfold allocate
  split
  · next h₁ heq => rw [heq] at hr; cases hr
  · next e' h₁ heq =>
    rw [heq] at hr ⊢
    cases hr
    rfl

theorem allocate_sound (hs : h.Sound) (hsize : h.size < handleCount) (o : Object) :
    (h.allocate roots o).2.Sound := by
  have hmakes := reserve_makesRoom h roots o.weight
  cases hr : (h.reserve roots o.weight).1 with
  | ok =>
    rw [allocate_ok hr]
    exact insert_sound (hmakes.sound hs) (Nat.lt_of_le_of_lt hmakes.size_le hsize) o
  | error e =>
    rw [allocate_error hr]
    exact hmakes.sound hs

theorem allocate_allocates (hs : h.Sound) (hsize : h.size < handleCount) {o : Object}
    (hsum : h.used + o.weight ≤ Object.maxUnits) : Allocates h roots o (h.allocate roots o) := by
  have hmakes := reserve_makesRoom h roots o.weight
  have hrequests : Requests h roots o.weight _ := reserve_requests o.weight
  cases hr : (h.reserve roots o.weight).1 with
  | ok =>
    have hadds : Adds (h.reserve roots o.weight).2 o _ _ := insert_adds (hmakes.sound hs).addressed
      (Nat.lt_of_le_of_lt hmakes.size_le hsize) o
    have hroom := hmakes.le_capacity hsum hr
    rw [allocate_ok hr]
    refine ⟨⟨nofun, fun _ _ => ⟨_, rfl⟩, hrequests.bounded⟩, fun r heq => ?_,
      fun r hf heq => ?_, fun r heq r' hreached => ?_⟩
    · obtain rfl := Except.ok.inj heq
      refine ⟨_, ?_, hadds, ?_⟩
      · rw [← hr]
        exact hmakes
      · rw [hadds.used]
        exact hroom
    · obtain rfl := Except.ok.inj heq
      have hsame : (h.reserve roots o.weight).2 = h := by
        unfold reserve
        rw [if_pos hf]
      dsimp only
      rwa [hsame] at hadds ⊢
    · obtain rfl := Except.ok.inj heq
      have hkept := hmakes.get?_of_reached hreached
      have hne : r' ≠ ((h.reserve roots o.weight).2.insert o).1 := by
        rintro rfl
        obtain ⟨o', ho'⟩ := hreached.live
        rw [hadds.fresh, ho'] at hkept
        cases hkept
      exact ⟨hne, (hadds.others r' hne).trans hkept⟩
  | error e =>
    rw [allocate_error hr]
    refine ⟨⟨fun e' _ => hrequests.failed e hr, fun hp hu => ?_, hrequests.bounded⟩,
      nofun, nofun, nofun⟩
    obtain ⟨_, ha⟩ := hrequests.granted hp hu
    rw [hr] at ha
    cases ha

end Requests

/-- One operation, while there are handles left and no sum is past all counting. -/
inductive Operates : Heap → Heap → Prop where
  | insert {h : Heap} (o : Object) (hsize : h.size < handleCount)
      (hsum : h.used + o.weight ≤ Object.maxUnits) : Operates h (h.insert o).2
  | insertAt {h h' : Heap} {r : Ref} {o : Object} (hsum : h.used + o.weight ≤ Object.maxUnits)
      (hi : h.insertAt? r o = some h') : Operates h h'
  | allocate {h : Heap} (roots : List Ref) (o : Object) (hsize : h.size < handleCount)
      (hsum : h.used + o.weight ≤ Object.maxUnits) : Operates h (h.allocate roots o).2
  | reserve {h : Heap} (roots : List Ref) (units : Nat) (hsum : h.used + units ≤ Object.maxUnits) :
    Operates h (h.reserve roots units).2
  | collect {h : Heap} {σ : Type} (ask : Ref → Companion → StateM σ (Bool × Companion)) (s : σ)
      (roots : List Ref) : Operates h (h.collectAsking ask roots s).1.2
  | pin {h : Heap} (r : Ref) : Operates h (h.pin r)
  | unpin {h : Heap} (r : Ref) : Operates h (h.unpin r)
  | intern {h : Heap} (text : String) (r : Ref) : Operates h (h.intern text r)
  | registerMirror {h : Heap} (id : ClassId) (r : Ref) : Operates h (h.registerMirror id r)
  /-- Fields, payload and monitor may change, but not the weight. -/
  | update {h : Heap} (r : Ref) (f : Object → Object) (hf : ∀ o, (f o).weight = o.weight) :
    Operates h (h.update r f)

theorem Operates.sound {h h' : Heap} (ho : Operates h h') (hs : h.Sound) : h'.Sound := by
  cases ho with
  | insert o hsize => exact insert_sound hs hsize o
  | insertAt _ hi => exact insertAt_sound hs hi
  | allocate roots o hsize => exact allocate_sound hs hsize o
  | reserve roots units => exact (reserve_makesRoom h roots units).sound hs
  | collect ask s roots => exact (collectAsking_sound h roots ask s hs).1
  | pin r =>
    unfold Heap.pin
    split
    · exact hs
    · exact hs.of_objects_eq rfl rfl rfl
  | unpin r => exact hs.of_objects_eq rfl rfl rfl
  | intern text r => exact hs.of_objects_eq rfl rfl rfl
  | registerMirror id r => exact hs.of_objects_eq rfl rfl rfl
  | update r f hf => exact update_sound hs r hf

/-- Heaps that come from a new one. -/
inductive Made : Heap → Prop where
  | new (capacity : Nat) (overflow : OverflowPolicy) : Made { capacity, overflow }
  | operate {h h' : Heap} (hm : Made h) (ho : Operates h h') : Made h'

theorem Made.sound {h : Heap} (hm : Made h) : h.Sound := by
  induction hm with
  | new capacity overflow => exact ⟨rfl, show (1 : UInt32) ≠ 0 by decide, rfl⟩
  | operate _ ho ih => exact ho.sound ih

/-- What can be relied on in a heap. -/
structure Bookkept (h : Heap) : Prop where
  used : h.used = weightOf h.toList
  /-- What a collection takes off is in use. -/
  reclaimed : ∀ {σ : Type} (ask : Ref → Companion → StateM σ (Bool × Companion)) (roots : List Ref)
    (s : σ), (h.collectAsking ask roots s).1.1.reclaimed ≤ h.used
  null : h.get? .null = none
  insert : ∀ o, h.size < handleCount → Adds h o (h.insert o).1 (h.insert o).2
  allocate : ∀ roots o, h.size < handleCount → h.used + o.weight ≤ Object.maxUnits →
    Allocates h roots o (h.allocate roots o)
  reserve : ∀ roots units, Requests h roots units (h.reserve roots units)
  room : ∀ roots units, h.used + units ≤ Object.maxUnits → (h.reserve roots units).1 = .ok () →
    (h.reserve roots units).2.used + units ≤ (h.reserve roots units).2.capacity

theorem Made.bookkept {h : Heap} (hm : Made h) : Bookkept h where
  used := hm.sound.accounted
  reclaimed ask roots s := (collectAsking_sound h roots ask s hm.sound).2
  null := hm.sound.addressed.null
  insert o hsize := insert_adds hm.sound.addressed hsize o
  allocate _ _ hsize hsum := allocate_allocates hm.sound hsize hsum
  reserve _ units := reserve_requests units
  room roots units hsum hr := (reserve_makesRoom h roots units).le_capacity hsum hr

/-- An object with one number. -/
def counted : Object := .instanceOf 1 [.int]

/-- A full heap, with the largest handle in use and the first one next. -/
def wrapped : Heap :=
  let h : Heap := { capacity := 24, overflow := .expand }
  ((h.insert counted).2.insertAt? ⟨0xFFFFFFFF⟩ counted).getD default

theorem made_wrapped : Made wrapped := by
  have hsum : (24 : Nat) ≤ Object.maxUnits := by decide
  have hfirst : Made ({ capacity := 24, overflow := .expand : Heap }.insert counted).2 :=
    (Made.new 24 .expand).operate (.insert counted (by decide) (Nat.le_trans (by decide) hsum))
  exact hfirst.operate (.insertAt (r := ⟨0xFFFFFFFF⟩) (o := counted) hsum rfl)

/-- The first handle is next and in use, so the second one is given out. -/
theorem bookkept_wrapped : wrapped.nextHandle = 1 ∧ (wrapped.insert counted).1 = ⟨2⟩ ∧
    Bookkept wrapped ∧ Adds wrapped counted ⟨2⟩ (wrapped.insert counted).2 :=
  have hkept := made_wrapped.bookkept
  ⟨rfl, by decide, hkept, hkept.insert counted (by decide)⟩

theorem collect_wrapped :
    (wrapped.collect []).2.objects = ∅ ∧ (wrapped.collect []).2.used = 0 := by
  have hunreached : wrapped.unreached [] = wrapped.objects := by
    rw [unreached_eq, show [] ++ wrapped.ownRoots = [] by decide, unreachedFrom]
  have hanswers : (interview (fun _ c => (return c.onDelete : StateM Unit _))
      (questions wrapped.objects) ()).1 = [] := by decide
  have hdoomed : doomed wrapped.objects [] = wrapped.objects := by
    rw [doomed, show refusals [] = [] from rfl, unreachedFrom]
    rfl
  have hcollect : (wrapped.collect []).2 = (wrapped.sweep (wrapped.reach []) []).2 := by
    rw [← hanswers, ← hunreached]
    rfl
  rw [hcollect]
  constructor
  · refine Std.ExtTreeMap.ext_getElem? fun handle => ?_
    have hget := @get?_sweep wrapped [] [] .nil ⟨handle⟩
    rw [hunreached, hdoomed] at hget
    refine (hget.trans ?_).trans Std.ExtTreeMap.getElem?_empty.symm
    split
    · rfl
    · next hout => rw [show wrapped.get? ⟨handle⟩ = none from not_mem_iff.1 hout, Option.map_none]
  · rw [sweep]
    dsimp only
    rw [unmarked_kept, ← unreached, hunreached, hdoomed]
    decide

/-- An allocation frees both objects and gives out the handle of one of them. -/
theorem allocate_reuses_wrapped : Made wrapped ∧ wrapped.get? ⟨1⟩ = some counted ∧
    wrapped.get? ⟨0xFFFFFFFF⟩ = some counted ∧ (wrapped.allocate [] counted).1 = .ok ⟨1⟩ ∧
    (wrapped.allocate [] counted).2.get? ⟨0xFFFFFFFF⟩ = none := by
  obtain ⟨hobjects, hused⟩ := collect_wrapped
  have hfull : wrapped.fits counted.weight = false := by decide
  have hroom : (wrapped.collect []).2.fits counted.weight = true := by
    rw [Heap.fits, hused]
    decide
  have hreserve : wrapped.reserve [] counted.weight = (.ok (), (wrapped.collect []).2) := by
    rw [reserve, if_neg (hfull ▸ Bool.false_ne_true)]
    dsimp only
    rw [if_pos hroom]
  have hallocate : wrapped.allocate [] counted = _ := allocate_ok (by rw [hreserve])
  have hhandle : ((wrapped.collect []).2.insert counted).1 = ⟨1⟩ := by
    rw [Heap.insert, Heap.size, hobjects]
    rfl
  have hget : ((wrapped.collect []).2.insert counted).2.get? ⟨0xFFFFFFFF⟩ = none := by
    rw [Heap.insert, Heap.size, hobjects]
    decide
  rw [hallocate, hreserve]
  exact ⟨made_wrapped, by decide, by decide, congrArg Except.ok hhandle, hget⟩

end ClassMachine.Heap
