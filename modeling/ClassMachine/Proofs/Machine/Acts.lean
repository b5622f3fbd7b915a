import ClassMachine.Machine.Run
import ClassMachine.Proofs.Sync.Deeds

/-!
What becomes of the threads of a machine, one act at a time. Besides what threads do to each other, they
are given objects, they are started, and threads are borrowed for calls and retired after them. What an
act keeps is kept by all that machines do, at whatever moment.
-/
namespace ClassMachine.Machine

variable {m m' m'' : Machine} {r : Option ThreadId}

/-- An object that is there and that no thread has. Null any thread can have. -/
def Vacant (m : Machine) (o : Ref) : Prop :=
  o.isNull = false → (m.heap.get? o).isSome ∧ ∀ t u, m.scheduler.get? t = some u → u.object ≠ o

/-- The objects of threads that are there stay there. -/
def Retains (m : Machine) (h : Heap) : Prop :=
  ∀ t u, m.scheduler.get? t = some u → u.object.isNull = false → (m.heap.get? u.object).isSome →
    (h.get? u.object).isSome

/-- The threads with one more that is made for a call. -/
def borrowing (s : Scheduler FrameStack) : Scheduler FrameStack :=
  (s.spawn .null []).2.update s.nextId fun u => { u with synthetic := true }

/-- The threads without one that has ended. -/
def retiring (s : Scheduler FrameStack) (t : ThreadId) : Scheduler FrameStack := ((s.terminate t).2.remove t).2

/-- One thing done in a machine while the thread `r`, if any, runs. -/
inductive Act (r : Option ThreadId) (m : Machine) : Machine → Prop
  /-- Nothing is done to threads. -/
  | aside {m' : Machine} (hs : m'.scheduler = m.scheduler) (hh : m.Retains m'.heap) : Act r m m'
  | deed {s : Scheduler FrameStack} (hr : ∀ t ∈ r, (m.scheduler.get? t).isSome)
      (h : m.scheduler.Deed r s) : Act r m { m with scheduler := s }
  /-- The running thread is given its object. -/
  | name {t : ThreadId} {u : Thread FrameStack} {o : Ref} (ht : t ∈ r) (hu : m.scheduler.get? t = some u)
      (hnone : u.object.isNull = true) (ho : m.Vacant o) :
      Act r m { m with scheduler := m.scheduler.update t fun u => { u with object := o } }
  | start {o : Ref} (hid : m.scheduler.nextId ≠ 0xffffffff) (ho : m.Vacant o) :
      Act r m { m with scheduler := (m.scheduler.spawn o []).2 }
  /-- A thread is made for a call. -/
  | borrow (hid : m.scheduler.nextId ≠ 0xffffffff) :
      Act r m { m with scheduler := borrowing m.scheduler }
  | retire {t : ThreadId} {u : Thread FrameStack} (ht : t ∈ r) (hu : m.scheduler.get? t = some u)
      (hs : u.synthetic = true) (yieldRequested : Bool) :
      Act r m { m with scheduler := retiring m.scheduler t, yieldRequested := yieldRequested }

/-- Any number of acts, of the threads `S`. -/
abbrev Acts (S : ThreadId → Prop) : Machine → Machine → Prop :=
  Relation.ReflTransGen fun m m' => ∃ r : Option ThreadId, (∀ t ∈ r, S t) ∧ Act r m m'

/-- Threads are numbered below the next number, and their objects are there. -/
structure Rostered (m : Machine) : Prop where
  numbered : m.scheduler.Numbered
  keyed : ∀ t u, m.scheduler.get? t = some u → u.id = t
  objects : ∀ t u, m.scheduler.get? t = some u → u.object.isNull = false → (m.heap.get? u.object).isSome

theorem Rostered.fresh (hm : Rostered m) {t : ThreadId} (ht : m.scheduler.nextId ≤ t) :
    m.scheduler.get? t = none := by
  cases hu : m.scheduler.get? t with
  | none => rfl
  | some u => exact absurd (hm.numbered t u hu) (UInt32.not_lt.2 ht)

section Records

theorem get?_borrowing (s : Scheduler FrameStack) (t : ThreadId) :
    (borrowing s).get? t =
      if s.nextId = t then some { id := s.nextId, object := .null, stack := [], synthetic := true }
      else s.get? t := by
  rw [borrowing, Scheduler.get?_update, Scheduler.get?_spawn]
  split <;> rfl

/-- A thread that is retired leaves the others. -/
theorem get?_retiring (s : Scheduler FrameStack) {t j : ThreadId} {u' : Thread FrameStack}
    (h : (retiring s t).get? j = some u') : t ≠ j ∧ ∃ u, s.get? j = some u ∧ Scheduler.Known u u' := by
  rw [retiring, Scheduler.get?_remove] at h
  split at h
  · cases h
  · next hne =>
    exact ⟨hne, (Scheduler.Deed.terminate (r := some t) rfl s).known.exists_of_some' h⟩

theorem get?_retiring_other (s : Scheduler FrameStack) {t j : ThreadId} (hj : t ≠ j) {u : Thread FrameStack}
    (h : s.get? j = some u) : ∃ u', (retiring s t).get? j = some u' ∧ Scheduler.Bides u u' := by
  rw [retiring, Scheduler.get?_remove, if_neg hj]
  exact (Scheduler.Deed.terminate (r := some t) rfl s).bides (by simpa using hj) h

theorem nextId_retiring (s : Scheduler FrameStack) (t : ThreadId) : (retiring s t).nextId = s.nextId :=
  (Scheduler.Deed.terminate (r := some t) rfl s).known.nextId

theorem Rostered.retire (hm : Rostered m) (t : ThreadId) (yieldRequested : Bool) :
    Rostered { m with scheduler := retiring m.scheduler t, yieldRequested := yieldRequested } := by
  refine ⟨fun j v hv => ?_, fun j v hv => ?_, fun j v hv hnull => ?_⟩
  · obtain ⟨-, w, hw, -⟩ := get?_retiring m.scheduler hv
    exact nextId_retiring m.scheduler t ▸ hm.numbered j w hw
  · obtain ⟨-, w, hw, hknown⟩ := get?_retiring m.scheduler hv
    exact hknown.id.trans (hm.keyed j w hw)
  · obtain ⟨-, w, hw, hknown⟩ := get?_retiring m.scheduler hv
    exact hknown.object ▸ hm.objects j w hw (hknown.object ▸ hnull)

end Records

/-- Threads never take the number of another. -/
theorem Act.nextId_le (h : Act r m m') : m.scheduler.nextId ≤ m'.scheduler.nextId := by
  cases h with
  | aside hs hh => exact hs ▸ UInt32.le_refl _
  | deed hr h => exact h.known.nextId ▸ UInt32.le_refl _
  | name => exact UInt32.le_refl _
  | start hid ho => exact UInt32.le_of_lt (Scheduler.lt_nextId_spawn hid _ _)
  | borrow hid => exact UInt32.le_of_lt (Scheduler.lt_nextId_spawn hid .null [])
  | retire => exact nextId_retiring m.scheduler _ ▸ UInt32.le_refl _

theorem Act.rostered (h : Act r m m') (hm : Rostered m) : Rostered m' := by
  cases h with
  | aside hs hh =>
    refine ⟨hs ▸ hm.numbered, hs ▸ hm.keyed, fun t u hu hnull => ?_⟩
    rw [hs] at hu
    exact hh t u hu hnull (hm.objects t u hu hnull)
  | deed hr h =>
    refine ⟨h.known.numbered hm.numbered, fun t u hu => ?_, fun t u hu hnull => ?_⟩
    · obtain ⟨v, hv, hknown⟩ := h.known.exists_of_some' hu
      exact hknown.id.trans (hm.keyed t v hv)
    · obtain ⟨v, hv, hknown⟩ := h.known.exists_of_some' hu
      exact hknown.object ▸ hm.objects t v hv (hknown.object ▸ hnull)
  | name ht hu hnone ho =>
    refine ⟨?_, fun j v hv => ?_, fun j v hv hnull => ?_⟩
    · exact (m.scheduler.update_pointwise (R := fun _ _ => True) (fun _ => trivial) _ fun _ => trivial).numbered
        hm.numbered
    · rw [Scheduler.get?_update] at hv
      split at hv
      · obtain ⟨w, hw, rfl⟩ := Option.map_eq_some_iff.1 hv
        exact hm.keyed j w hw
      · exact hm.keyed j v hv
    · rw [Scheduler.get?_update] at hv
      split at hv
      · obtain ⟨w, -, rfl⟩ := Option.map_eq_some_iff.1 hv
        exact (ho hnull).1
      · exact hm.objects j v hv hnull
  | start hid ho =>
    refine ⟨Scheduler.spawn_numbered hm.numbered hid _ _, fun j v hv => ?_, fun j v hv hnull => ?_⟩
    · rw [Scheduler.get?_spawn] at hv
      split at hv
      · next heq =>
        cases hv
        exact heq
      · exact hm.keyed j v hv
    · rw [Scheduler.get?_spawn] at hv
      split at hv
      · cases hv
        exact (ho hnull).1
      · exact hm.objects j v hv hnull
  | borrow hid =>
    refine ⟨?_, fun j v hv => ?_, fun j v hv hnull => ?_⟩
    · have hnumbered := Scheduler.spawn_numbered hm.numbered hid .null []
      exact (Scheduler.update_pointwise (R := fun _ _ => True) (fun _ => trivial) _ _ fun _ => trivial).numbered
        hnumbered
    · rw [get?_borrowing] at hv
      split at hv
      · next heq =>
        cases hv
        exact heq
      · exact hm.keyed j v hv
    · rw [get?_borrowing] at hv
      split at hv
      · cases hv
        cases hnull
      · exact hm.objects j v hv hnull
  | retire ht hu hs yieldRequested => exact hm.retire _ yieldRequested

/-- Whoever is listed has a record. -/
theorem Act.registered (h : Act r m m') (hm : m.scheduler.Registered) : m'.scheduler.Registered := by
  cases h with
  | aside hs hh => exact hs ▸ hm
  | deed hr h => exact hm.deed hr h
  | name ht hu hnone ho => exact hm.update _ fun _ => List.Subset.refl _
  | start hid ho => exact hm.spawn _ _
  | borrow hid => exact (hm.spawn .null []).update _ fun _ => List.Subset.refl _
  | retire ht hu hs yieldRequested => exact hm.retire hu

theorem Act.exact (h : Act r m m') (hm : Rostered m) (hs : m.scheduler.Exact) : m'.scheduler.Exact := by
  have hnext : Scheduler.Exact { m.scheduler with nextId := m.scheduler.nextId + 1 } := hs.of_same rfl fun _ => Iff.rfl
  have hspawned : ∀ o, (m.scheduler.spawn o []).2.Exact := fun _ => hnext.insert (hm.fresh (UInt32.le_refl _))
  cases h with
  | aside hscheduler _ => exact hscheduler ▸ hs
  | deed _ h => exact h.exact hs
  | name => exact hs.update _ fun _ => rfl
  | start => exact hspawned _
  | borrow => exact (hspawned .null).update _ fun _ => rfl
  | retire => exact (hs.terminate _).remove _

/-- A thread that stays when its call is over: it keeps its record, and its object once it has one. -/
theorem Act.stays (h : Act r m m') (hm : Rostered m) {t : ThreadId} {u : Thread FrameStack}
    (hu : m.scheduler.get? t = some u) (hs : u.synthetic = false) :
    ∃ u', m'.scheduler.get? t = some u' ∧ u'.synthetic = false ∧
      (u.object.isNull = false → u'.object = u.object) := by
  have hfresh : m.scheduler.nextId ≠ t := fun heq => by
    rw [hm.fresh (heq ▸ UInt32.le_refl _)] at hu
    cases hu
  cases h with
  | aside hscheduler hh => exact ⟨u, hscheduler ▸ hu, hs, fun _ => rfl⟩
  | deed hr h =>
    obtain ⟨u', hu', hknown⟩ := h.known.exists_of_some hu
    exact ⟨u', hu', hknown.synthetic.trans hs, fun _ => hknown.object⟩
  | @name j v o hj hv hnone ho =>
    rw [show Machine.scheduler _ = m.scheduler.update j fun u => { u with object := o } from rfl,
      Scheduler.get?_update]
    split
    · next heq =>
      subst heq
      cases hu.symm.trans hv
      exact ⟨{ u with object := o }, by rw [hu]; rfl, hs, fun hnull => by simp [hnone] at hnull⟩
    · exact ⟨u, hu, hs, fun _ => rfl⟩
  | start hid ho =>
    exact ⟨u, by rw [show Machine.scheduler _ = (m.scheduler.spawn _ []).2 from rfl, Scheduler.get?_spawn,
      if_neg hfresh, hu], hs, fun _ => rfl⟩
  | borrow hid => exact ⟨u, by rw [get?_borrowing, if_neg hfresh, hu], hs, fun _ => rfl⟩
  | @retire j v hj hv hsynthetic yieldRequested =>
    have hne : j ≠ t := by
      rintro rfl
      cases hu.symm.trans hv
      rw [hs] at hsynthetic
      cases hsynthetic
    obtain ⟨u', hu', hspared⟩ := get?_retiring_other m.scheduler hne hu
    exact ⟨u', hu', hspared.synthetic.trans hs, fun _ => hspared.object⟩

/-- No two threads have the same object. -/
def Distinct (m : Machine) : Prop :=
  ∀ t u t' u', m.scheduler.get? t = some u → m.scheduler.get? t' = some u' →
    u.object.isNull = false → u'.object = u.object → t' = t

theorem Act.distinct (h : Act r m m') (hm : Distinct m) : Distinct m' := by
  have hold : ∀ {s : Scheduler FrameStack}, (∀ j v', s.get? j = some v' →
      ∃ v, m.scheduler.get? j = some v ∧ v'.object = v.object) → ∀ t u t' u', s.get? t = some u →
      s.get? t' = some u' → u.object.isNull = false → u'.object = u.object → t' = t := by
    intro s hback t u t' u' hu hu' hnull hobject
    obtain ⟨v, hv, heq⟩ := hback t u hu
    obtain ⟨v', hv', heq'⟩ := hback t' u' hu'
    exact hm t v t' v' hv hv' (heq ▸ hnull) (heq'.symm.trans (hobject.trans heq))
  -- a thread that is given an object nobody has shares it with no other
  have hgiven : ∀ {s : Scheduler FrameStack} {j : ThreadId} {o : Ref}, m.Vacant o →
      (∀ i v', s.get? i = some v' → v'.object = o ∧ i = j ∨ ∃ v, m.scheduler.get? i = some v ∧ v'.object = v.object) →
      ∀ t u t' u', s.get? t = some u → s.get? t' = some u' → u.object.isNull = false →
      u'.object = u.object → t' = t := by
    intro s j o ho hback t u t' u' hu hu' hnull hobject
    rcases hback t u hu with ⟨heq, rfl⟩ | ⟨v, hv, heq⟩
    · rcases hback t' u' hu' with ⟨-, rfl⟩ | ⟨v', hv', heq'⟩
      · rfl
      · exact absurd (heq'.symm.trans (hobject.trans heq)) ((ho (heq ▸ hnull)).2 t' v' hv')
    · rcases hback t' u' hu' with ⟨heq', rfl⟩ | ⟨v', hv', heq'⟩
      · have ho' : u.object = o := hobject.symm.trans heq'
        exact absurd (heq.symm.trans ho') ((ho (ho' ▸ hnull)).2 t v hv)
      · exact hm t v t' v' hv hv' (heq ▸ hnull) (heq'.symm.trans (hobject.trans heq))
  cases h with
  | aside hs hh => exact hold fun j v hv => ⟨v, hs ▸ hv, rfl⟩
  | deed hr h =>
    refine hold fun j v' hv' => ?_
    obtain ⟨v, hv, hknown⟩ := h.known.exists_of_some' hv'
    exact ⟨v, hv, hknown.object⟩
  | @name j u o hj hu hnone ho =>
    refine hgiven (j := j) ho fun i v' hv' => ?_
    rw [Scheduler.get?_update] at hv'
    split at hv'
    · next heq =>
      obtain ⟨v, hv, rfl⟩ := Option.map_eq_some_iff.1 hv'
      exact .inl ⟨rfl, heq.symm⟩
    · exact .inr ⟨v', hv', rfl⟩
  | @start o hid ho =>
    refine hgiven (j := m.scheduler.nextId) ho fun i v' hv' => ?_
    rw [Scheduler.get?_spawn] at hv'
    split at hv'
    · next heq =>
      cases hv'
      exact .inl ⟨rfl, heq.symm⟩
    · exact .inr ⟨v', hv', rfl⟩
  | borrow hid =>
    refine hgiven (j := m.scheduler.nextId) (o := .null) (fun hnull => by cases hnull) fun i v' hv' => ?_
    rw [get?_borrowing] at hv'
    split at hv'
    · next heq =>
      cases hv'
      exact .inl ⟨rfl, heq.symm⟩
    · exact .inr ⟨v', hv', rfl⟩
  | retire ht hu hs yieldRequested =>
    refine hold fun j v' hv' => ?_
    obtain ⟨-, v, hv, hknown⟩ := get?_retiring m.scheduler hv'
    exact ⟨v, hv, hknown.object⟩

section Acts

variable {S S' : ThreadId → Prop}

theorem Acts.one (h : Act r m m') (hr : ∀ t ∈ r, S t) : Acts S m m' := .single ⟨r, hr, h⟩

theorem Acts.mono (h : Acts S m m') (hS : ∀ t, S t → S' t) : Acts S' m m' := by
  induction h with
  | refl => exact .refl
  | tail _ h ih =>
    obtain ⟨r, hr, h⟩ := h
    exact ih.tail ⟨r, fun t ht => hS t (hr t ht), h⟩

theorem Acts.nextId_le (h : Acts S m m') : m.scheduler.nextId ≤ m'.scheduler.nextId := by
  induction h with
  | refl => exact UInt32.le_refl _
  | tail _ h ih =>
    obtain ⟨r, -, h⟩ := h
    exact UInt32.le_trans ih h.nextId_le

theorem Acts.rostered (h : Acts S m m') (hm : Rostered m) : Rostered m' := by
  induction h with
  | refl => exact hm
  | tail _ h ih =>
    obtain ⟨r, -, h⟩ := h
    exact h.rostered ih

theorem Acts.registered (h : Acts S m m') (hm : m.scheduler.Registered) : m'.scheduler.Registered := by
  induction h with
  | refl => exact hm
  | tail _ h ih =>
    obtain ⟨r, -, h⟩ := h
    exact h.registered ih

theorem Acts.exact (h : Acts S m m') (hm : Rostered m) (hs : m.scheduler.Exact) : m'.scheduler.Exact := by
  induction h with
  | refl => exact hs
  | tail hacts h ih =>
    obtain ⟨r, -, h⟩ := h
    exact h.exact (Acts.rostered hacts hm) ih

theorem Acts.distinct (h : Acts S m m') (hm : Distinct m) : Distinct m' := by
  induction h with
  | refl => exact hm
  | tail _ h ih =>
    obtain ⟨r, -, h⟩ := h
    exact h.distinct ih

theorem Acts.stays (h : Acts S m m') (hm : Rostered m) {t : ThreadId} {u : Thread FrameStack}
    (hu : m.scheduler.get? t = some u) (hs : u.synthetic = false) :
    ∃ u', m'.scheduler.get? t = some u' ∧ u'.synthetic = false ∧
      (u.object.isNull = false → u'.object = u.object) := by
  induction h with
  | refl => exact ⟨u, hu, hs, fun _ => rfl⟩
  | tail hacts h ih =>
    obtain ⟨r, -, h⟩ := h
    obtain ⟨v, hv, hsv, hobject⟩ := ih
    obtain ⟨w, hw, hsw, hobject'⟩ := h.stays (Acts.rostered hacts hm) hv hsv
    exact ⟨w, hw, hsw, fun hnull => (hobject' (hobject hnull ▸ hnull)).trans (hobject hnull)⟩

end Acts

section Passing

variable {S S' : ThreadId → Prop}

/-- Acts of the threads `S` after which no thread is gone that was there, and no thread is left that was
borrowed. -/
structure Passed (S : ThreadId → Prop) (m m' : Machine) : Prop where
  acts : Acts S m m'
  kept : ∀ t u, m.scheduler.get? t = some u →
    ∃ u', m'.scheduler.get? t = some u' ∧ u'.synthetic = u.synthetic
  clean : ∀ t u', m'.scheduler.get? t = some u' → u'.synthetic = true → (m.scheduler.get? t).isSome

theorem Passed.refl (m : Machine) : Passed S m m :=
  ⟨.refl, fun _ u hu => ⟨u, hu, rfl⟩, fun _ _ hu _ => by simp [hu]⟩

theorem Passed.trans (h : Passed S m m') (h' : Passed S m' m'') : Passed S m m'' where
  acts := h.acts.trans h'.acts
  kept t u hu := by
    obtain ⟨v, hv, heq⟩ := h.kept t u hu
    obtain ⟨w, hw, heq'⟩ := h'.kept t v hv
    exact ⟨w, hw, heq'.trans heq⟩
  clean t w hw hs := by
    obtain ⟨v, hv⟩ := Option.isSome_iff_exists.1 (h'.clean t w hw hs)
    obtain ⟨w', hw', heq⟩ := h'.kept t v hv
    cases hw.symm.trans hw'
    exact h.clean t v hv (heq.symm.trans hs)

theorem Passed.mono (h : Passed S m m') (hS : ∀ t, S t → S' t) : Passed S' m m' :=
  ⟨h.acts.mono hS, h.kept, h.clean⟩

theorem Passed.isSome (h : Passed S m m') {t : ThreadId} (ht : (m.scheduler.get? t).isSome) :
    (m'.scheduler.get? t).isSome := by
  obtain ⟨u, hu⟩ := Option.isSome_iff_exists.1 ht
  obtain ⟨u', hu', _⟩ := h.kept t u hu
  simp [hu']

/-- An act that neither makes threads nor takes them away. -/
theorem Passed.of_act (h : Act r m m') (hr : ∀ t ∈ r, S t)
    (hpoint : m.scheduler.Pointwise (fun u u' => u'.synthetic = u.synthetic) m'.scheduler) : Passed S m m' where
  acts := .one h hr
  kept _ _ hu := hpoint.exists_of_some hu
  clean t u' hu' _ := by
    obtain ⟨u, hu, _⟩ := hpoint.exists_of_some' hu'
    simp [hu]

theorem Passed.aside (hs : m'.scheduler = m.scheduler) (hh : m.Retains m'.heap) : Passed S m m' :=
  .of_act (r := none) (.aside hs hh) (by simp)
    (Scheduler.pointwise_of_threads_eq (R := fun u u' => u'.synthetic = u.synthetic) (fun _ => rfl)
      (congrArg _ hs) (congrArg _ hs))

theorem Passed.deed {s : Scheduler FrameStack} (hm : ∀ t ∈ r, (m.scheduler.get? t).isSome) (hr : ∀ t ∈ r, S t)
    (h : m.scheduler.Deed r s) : Passed S m { m with scheduler := s } :=
  .of_act (.deed hm h) hr (h.known.mono fun _ _ h => h.synthetic)

theorem Passed.deeds {s : Scheduler FrameStack} (hm : ∀ t ∈ r, (m.scheduler.get? t).isSome)
    (hr : ∀ t ∈ r, S t) (h : m.scheduler.Deeds r s) : Passed S m { m with scheduler := s } := by
  induction h with
  | refl => exact .refl m
  | tail _ h ih => exact ih.trans (.deed (fun t ht => ih.isSome (hm t ht)) hr h)

/-- A thread is started. -/
theorem Passed.start (hm : Rostered m) (hid : m.scheduler.nextId ≠ 0xffffffff) {o : Ref} (ho : m.Vacant o) :
    Passed S m { m with scheduler := (m.scheduler.spawn o []).2 } := by
  refine ⟨.one (r := none) (.start hid ho) (by simp), fun t u hu => ⟨u, ?_, rfl⟩, fun t u' hu' hs => ?_⟩
  · rw [show Machine.scheduler _ = (m.scheduler.spawn o []).2 from rfl, Scheduler.get?_spawn, if_neg, hu]
    rintro rfl
    rw [hm.fresh (UInt32.le_refl _)] at hu
    cases hu
  · rw [Scheduler.get?_spawn] at hu'
    split at hu'
    · cases hu'
      cases hs
    · simp [hu']

theorem Acts.borrow (hid : m.scheduler.nextId ≠ 0xffffffff) :
    Acts S m { m with scheduler := borrowing m.scheduler } := .one (r := none) (.borrow hid) (by simp)

/-- A borrowed thread is there to be retired. -/
theorem Acts.retire (hS : S m.scheduler.nextId) (yieldRequested : Bool)
    (h : Passed S { m with scheduler := borrowing m.scheduler } m') :
    Acts S m' { m' with
      scheduler := retiring m'.scheduler m.scheduler.nextId
      yieldRequested := yieldRequested } := by
  obtain ⟨v, hv, hsynthetic⟩ := h.kept m.scheduler.nextId _ ((get?_borrowing _ _).trans (if_pos rfl))
  refine .one (r := some m.scheduler.nextId) (.retire rfl hv hsynthetic yieldRequested) fun t ht => ?_
  cases ht
  exact hS

/-- What is done between borrowing a thread and retiring it is passed over. -/
theorem Passed.borrowed (hm : Rostered m) (hid : m.scheduler.nextId ≠ 0xffffffff)
    (hS : S m.scheduler.nextId) (yieldRequested : Bool)
    (h : Passed S { m with scheduler := borrowing m.scheduler } m') :
    Passed S m { m' with
      scheduler := retiring m'.scheduler m.scheduler.nextId
      yieldRequested := yieldRequested } := by
  refine ⟨((Acts.borrow hid).trans h.acts).trans (Acts.retire hS yieldRequested h), fun t u hu => ?_,
    fun t u' hu' hs => ?_⟩
  · have hne : m.scheduler.nextId ≠ t := by
      rintro rfl
      rw [hm.fresh (UInt32.le_refl _)] at hu
      cases hu
    obtain ⟨w, hw, heq⟩ := h.kept t u ((get?_borrowing _ _).trans ((if_neg hne).trans hu))
    obtain ⟨u', hu', hspared⟩ := get?_retiring_other m'.scheduler hne hw
    exact ⟨u', hu', hspared.synthetic.trans heq⟩
  · obtain ⟨hne, w, hw, hknown⟩ := get?_retiring m'.scheduler hu'
    have hbefore := h.clean t w hw (hknown.synthetic.symm.trans hs)
    rwa [get?_borrowing, if_neg hne] at hbefore

end Passing

section Bystanders

variable {S : ThreadId → Prop} {t : ThreadId} {u : Thread FrameStack}

/-! Threads that do not act keep their frames, their monitor, their life and the marks of their interrupts,
whatever others do: they can be woken, and marked as interrupted. -/

theorem Act.bides (h : Act r m m') (hm : Rostered m) (ht : t ∉ r) (hu : m.scheduler.get? t = some u) :
    ∃ u', m'.scheduler.get? t = some u' ∧ Scheduler.Bides u u' := by
  have hfresh : m.scheduler.nextId ≠ t := fun heq => by
    rw [hm.fresh (heq ▸ UInt32.le_refl _)] at hu
    cases hu
  have hne : ∀ {j : ThreadId}, j ∈ r → j ≠ t := by
    rintro j hj rfl
    exact ht hj
  cases h with
  | aside hscheduler hh => exact ⟨u, hscheduler ▸ hu, .refl u⟩
  | deed hr h => exact h.bides ht hu
  | name hj hv hnone ho => exact ⟨u, Scheduler.update_spares _ (hne hj) _ hu, .refl u⟩
  | @start o hid ho =>
    have hget : (m.scheduler.spawn o []).2.get? t = some u := by rw [Scheduler.get?_spawn, if_neg hfresh, hu]
    exact ⟨u, hget, .refl u⟩
  | borrow hid => exact ⟨u, by rw [get?_borrowing, if_neg hfresh, hu], .refl u⟩
  | @retire j v hj hv hs yieldRequested =>
    obtain ⟨u', hu', hbides⟩ := (Scheduler.Deed.terminate (r := some j) rfl m.scheduler).bides
      (by simpa using hne hj) hu
    refine ⟨u', ?_, hbides⟩
    rw [show Machine.scheduler _ = retiring m.scheduler j from rfl, retiring, Scheduler.get?_remove, if_neg (hne hj)]
    exact hu'

/-- However often others act. -/
theorem Acts.bides (h : Acts S m m') (hm : Rostered m) (ht : ¬S t) (hu : m.scheduler.get? t = some u) :
    ∃ u', m'.scheduler.get? t = some u' ∧ Scheduler.Bides u u' := by
  induction h with
  | refl => exact ⟨u, hu, .refl u⟩
  | tail hacts h ih =>
    obtain ⟨r, hr, h⟩ := h
    obtain ⟨v, hv, hspared⟩ := ih
    obtain ⟨w, hw, hspared'⟩ := h.bides (Acts.rostered hacts hm) (fun hmem => ht (hr t hmem)) hv
    exact ⟨w, hw, hspared.trans hspared'⟩

/-- The number of a thread that is gone is given to no other. -/
theorem Act.absent (h : Act r m m') (ht : t < m.scheduler.nextId) (hnone : m.scheduler.get? t = none) :
    m'.scheduler.get? t = none := by
  have hnext : m.scheduler.nextId ≠ t := fun heq => UInt32.lt_irrefl t (heq ▸ ht)
  cases h with
  | aside hscheduler hh => rw [hscheduler, hnone]
  | deed hr h =>
    have hrel := h.known.record t
    rw [hnone] at hrel
    generalize Scheduler.get? _ t = after at hrel ⊢
    cases hrel
    rfl
  | name hj hv hnull ho =>
    show (m.scheduler.update _ _).get? t = none
    rw [Scheduler.get?_update, hnone]
    split <;> rfl
  | @start o hid ho =>
    show (m.scheduler.spawn o []).2.get? t = none
    rw [Scheduler.get?_spawn, if_neg hnext, hnone]
  | borrow hid => rw [get?_borrowing, if_neg hnext, hnone]
  | @retire j v hj hv hs yieldRequested =>
    cases hafter : (retiring m.scheduler j).get? t with
    | none => rfl
    | some u' =>
      obtain ⟨-, u, hu, -⟩ := get?_retiring m.scheduler hafter
      cases hnone.symm.trans hu

/-- Records of threads that do not act, when none is made or the thread was made before. -/
theorem Acts.rel (h : Acts S m m') (hm : Rostered m) (ht : ¬S t)
    (hn : t < m.scheduler.nextId ∨ m'.scheduler.nextId = m.scheduler.nextId) :
    Option.Rel Scheduler.Bides (m.scheduler.get? t) (m'.scheduler.get? t) := by
  have habsent : ∀ {n : Machine}, Acts S m n → t < m.scheduler.nextId → m.scheduler.get? t = none →
      n.scheduler.get? t = none := by
    intro n hacts hlt hnone
    induction hacts with
    | refl => exact hnone
    | tail hacts h ih =>
      obtain ⟨r, -, h⟩ := h
      exact h.absent (UInt32.lt_of_lt_of_le hlt (Acts.nextId_le hacts)) ih
  cases hu : m.scheduler.get? t with
  | some u =>
    obtain ⟨u', hu', hbides⟩ := Acts.bides h hm ht hu
    rw [hu']
    exact .some hbides
  | none =>
    have hnone : m'.scheduler.get? t = none := by
      by_cases hlt : t < m.scheduler.nextId
      · exact habsent h hlt hu
      · refine (Acts.rostered h hm).fresh ?_
        rw [hn.resolve_left hlt]
        exact UInt32.not_lt.1 hlt
    rw [hnone]
    exact .none

end Bystanders

end ClassMachine.Machine
