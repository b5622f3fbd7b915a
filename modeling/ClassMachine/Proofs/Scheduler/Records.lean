import ClassMachine.Proofs.Maps
import ClassMachine.Scheduler.Basic

/-!
What scheduler operations do to thread records. Every operation but the ones that make or remove
threads changes records one by one; most of them only wake threads.
-/
namespace ClassMachine

namespace Thread

variable {σ : Type}

/-- The record after its thread was put back into the rotation, if it was out of it. -/
def woken (t : Thread σ) : Thread σ := if t.isDetached then { t with state := .ready } else t

/-- Waking at most: what the thread waits for, its object and its frames stay. -/
structure Woken (t t' : Thread σ) : Prop where
  object : t'.object = t.object
  stack : t'.stack = t.stack
  pending : t'.pending = t.pending
  state : t'.state = t.state ∨ t.isDetached = true ∧ t'.state = .ready

theorem Woken.refl (t : Thread σ) : Woken t t := ⟨rfl, rfl, rfl, .inl rfl⟩

theorem Woken.trans {t u v : Thread σ} (h : Woken t u) (h' : Woken u v) : Woken t v := by
  refine ⟨h'.object.trans h.object, h'.stack.trans h.stack, h'.pending.trans h.pending, ?_⟩
  have hd : u.state = t.state → u.isDetached = t.isDetached := fun he => by
    simp only [isDetached, he]
  rcases h'.state with hv | ⟨hu, hv⟩
  · rcases h.state with he | ⟨ht, he⟩
    · exact .inl (hv.trans he)
    · exact .inr ⟨ht, hv.trans he⟩
  · rcases h.state with he | ⟨ht, _⟩
    · exact .inr ⟨by rw [← hd he]; exact hu, hv⟩
    · exact .inr ⟨ht, hv⟩

theorem woken_woken (t : Thread σ) : Woken t t.woken := by
  unfold woken
  split
  · next h => exact ⟨rfl, rfl, rfl, .inr ⟨h, rfl⟩⟩
  · exact .refl t

theorem Woken.isAlive {t t' : Thread σ} (h : Woken t t') (ht : t.isAlive = true) :
    t'.isAlive = true := by
  unfold Thread.isAlive at *
  rcases h.state with he | ⟨_, he⟩
  · rw [he]; exact ht
  · rw [he]; rfl

/-- A live thread that was woken may run. -/
theorem state_woken {t : Thread σ} (h : t.isAlive = true) : t.woken.state = .ready := by
  unfold isAlive at h
  unfold woken isDetached
  cases hs : t.state <;> simp_all

/-- What the order between monitors and threads can see of a record: what is pending, whether the
thread lives, and whether one that was passed a monitor may run. -/
structure Heeds (r r' : Thread σ) : Prop where
  pending : r'.pending = r.pending
  alive : r'.isAlive = r.isAlive
  ready : r.pending ≠ none → r.state = .ready → r'.state = .ready

theorem Heeds.refl (r : Thread σ) : r.Heeds r := ⟨rfl, rfl, fun _ h => h⟩

theorem Heeds.trans {r r' r'' : Thread σ} (h : r.Heeds r') (h' : r'.Heeds r'') : r.Heeds r'' :=
  ⟨h'.pending.trans h.pending, h'.alive.trans h.alive,
    fun hp hs => h'.ready (h.pending ▸ hp) (h.ready hp hs)⟩

theorem Woken.heeds {r r' : Thread σ} (h : r.Woken r') : r.Heeds r' := by
  refine ⟨h.pending, ?_, fun _ hready => ?_⟩
  · rcases h.state with he | ⟨hd, he⟩
    · unfold Thread.isAlive
      rw [he]
    · have halive : r.isAlive = true := by
        unfold Thread.isDetached at hd
        unfold Thread.isAlive
        cases hs : r.state <;> simp_all
      rw [halive]
      unfold Thread.isAlive
      rw [he]
      rfl
  · rcases h.state with he | ⟨_, he⟩
    · exact he.trans hready
    · exact he

/-- A change of the scheduler's own marks: object and frames stay, and a pending monitor is kept
or dropped. -/
structure Alike (t t' : Thread σ) : Prop where
  object : t'.object = t.object
  stack : t'.stack = t.stack
  pending : t'.pending = t.pending ∨ t'.pending = none

theorem Alike.refl (t : Thread σ) : Alike t t := ⟨rfl, rfl, .inl rfl⟩

theorem Alike.trans {t u v : Thread σ} (h : Alike t u) (h' : Alike u v) : Alike t v := by
  refine ⟨h'.object.trans h.object, h'.stack.trans h.stack, ?_⟩
  rcases h'.pending with hv | hv
  · rcases h.pending with hu | hu
    · exact .inl (hv.trans hu)
    · exact .inr (hv.trans hu)
  · exact .inr hv

theorem Woken.alike {t t' : Thread σ} (h : Woken t t') : Alike t t' :=
  ⟨h.object, h.stack, .inl h.pending⟩

end Thread

namespace Scheduler

variable {σ : Type}

/-- Threads are numbered below the number the next one gets. -/
def Numbered (s : Scheduler σ) : Prop := ∀ id t, s.get? id = some t → id < s.nextId

/-- The same threads, each record changed as `R` says. -/
structure Pointwise (R : Thread σ → Thread σ → Prop) (s s' : Scheduler σ) : Prop where
  nextId : s'.nextId = s.nextId
  record : ∀ id, Option.Rel R (s.get? id) (s'.get? id)

theorem Pointwise.refl {R : Thread σ → Thread σ → Prop} (hR : ∀ t, R t t) (s : Scheduler σ) :
    Pointwise R s s := by
  refine ⟨rfl, fun id => ?_⟩
  cases s.get? id with
  | none => exact .none
  | some t => exact .some (hR t)

theorem Pointwise.trans {R : Thread σ → Thread σ → Prop} (hR : ∀ t u v, R t u → R u v → R t v)
    {s s' s'' : Scheduler σ} (h : Pointwise R s s') (h' : Pointwise R s' s'') :
    Pointwise R s s'' := by
  refine ⟨h'.nextId.trans h.nextId, fun id => ?_⟩
  have h₁ := h.record id
  have h₂ := h'.record id
  generalize s.get? id = a at *
  generalize s'.get? id = b at *
  generalize s''.get? id = c at *
  cases h₁ with
  | none => cases h₂ with | none => exact .none
  | some hab => cases h₂ with | some hbc => exact .some (hR _ _ _ hab hbc)

theorem Pointwise.mono {R Q : Thread σ → Thread σ → Prop} (hRQ : ∀ t t', R t t' → Q t t')
    {s s' : Scheduler σ} (h : Pointwise R s s') : Pointwise Q s s' := by
  refine ⟨h.nextId, fun id => ?_⟩
  have h₁ := h.record id
  generalize s.get? id = a at *
  generalize s'.get? id = b at *
  cases h₁ with
  | none => exact .none
  | some hab => exact .some (hRQ _ _ hab)

/-- Related records agree on whatever the relation leaves alone. -/
theorem map_eq_of_rel {β : Type} {R : Thread σ → Thread σ → Prop} {f : Thread σ → β}
    (hf : ∀ t t', R t t' → f t' = f t) {t? t'? : Option (Thread σ)} (h : Option.Rel R t? t'?) :
    t'?.map f = t?.map f := by
  cases h with
  | none => rfl
  | some hab => exact congrArg some (hf _ _ hab)

theorem bind_eq_of_rel {β : Type} {R : Thread σ → Thread σ → Prop} {f : Thread σ → Option β}
    (hf : ∀ t t', R t t' → f t' = f t) {t? t'? : Option (Thread σ)} (h : Option.Rel R t? t'?) :
    t'?.bind f = t?.bind f := by
  cases h with
  | none => rfl
  | some hab => exact hf _ _ hab

theorem Pointwise.exists_of_some {R : Thread σ → Thread σ → Prop} {s s' : Scheduler σ}
    (h : Pointwise R s s') {id : ThreadId} {t : Thread σ} (ht : s.get? id = some t) :
    ∃ t', s'.get? id = some t' ∧ R t t' := by
  have h₁ := h.record id
  rw [ht] at h₁
  generalize s'.get? id = b at *
  cases h₁ with
  | some hab => exact ⟨_, rfl, hab⟩

theorem Pointwise.exists_of_some' {R : Thread σ → Thread σ → Prop} {s s' : Scheduler σ}
    (h : Pointwise R s s') {id : ThreadId} {t' : Thread σ} (ht : s'.get? id = some t') :
    ∃ t, s.get? id = some t ∧ R t t' := by
  have h₁ := h.record id
  rw [ht] at h₁
  generalize s.get? id = a at *
  cases h₁ with
  | some hab => exact ⟨_, rfl, hab⟩

theorem Pointwise.numbered {R : Thread σ → Thread σ → Prop} {s s' : Scheduler σ}
    (h : Pointwise R s s') (hs : s.Numbered) : s'.Numbered := by
  intro id t' ht'
  obtain ⟨t, ht, _⟩ := h.exists_of_some' ht'
  rw [h.nextId]
  exact hs id t ht

/-- Some threads are woken, and nothing else happens to any of them. -/
abbrev Wakes (s s' : Scheduler σ) : Prop := Pointwise Thread.Woken s s'

theorem Wakes.refl (s : Scheduler σ) : Wakes s s := Pointwise.refl Thread.Woken.refl s

theorem Wakes.trans {s s' s'' : Scheduler σ} (h : Wakes s s') (h' : Wakes s' s'') : Wakes s s'' :=
  Pointwise.trans (R := Thread.Woken) (fun _ _ _ => Thread.Woken.trans) h h'

/-- No thread is made or removed, and none gets another object or other frames. -/
abbrev Alike (s s' : Scheduler σ) : Prop := Pointwise Thread.Alike s s'

theorem Alike.refl (s : Scheduler σ) : Alike s s := Pointwise.refl Thread.Alike.refl s

theorem Alike.trans {s s' s'' : Scheduler σ} (h : Alike s s') (h' : Alike s' s'') : Alike s s'' :=
  Pointwise.trans (R := Thread.Alike) (fun _ _ _ => Thread.Alike.trans) h h'

theorem Wakes.alike {s s' : Scheduler σ} (h : Wakes s s') : Alike s s' :=
  h.mono fun _ _ => Thread.Woken.alike

theorem get?_update (s : Scheduler σ) (id j : ThreadId) (f : Thread σ → Thread σ) :
    (s.update id f).get? j = if id = j then (s.get? j).map f else s.get? j :=
  Maps.getElem?_modify_eq s.threads id j f

theorem update_pointwise {R : Thread σ → Thread σ → Prop} (hR : ∀ t, R t t) (s : Scheduler σ)
    (id : ThreadId) {f : Thread σ → Thread σ} (hf : ∀ t, R t (f t)) :
    Pointwise R s (s.update id f) := by
  refine ⟨rfl, fun j => ?_⟩
  rw [get?_update]
  cases s.get? j with
  | none => simp
  | some t =>
    split
    · exact .some (hf t)
    · exact .some (hR t)

/-- Nothing but the rotation, the running thread, the clock or the requests changes. -/
theorem pointwise_of_threads_eq {R : Thread σ → Thread σ → Prop} (hR : ∀ t, R t t)
    {s s' : Scheduler σ} (ht : s'.threads = s.threads) (hn : s'.nextId = s.nextId) :
    Pointwise R s s' := by
  refine ⟨hn, fun id => ?_⟩
  rw [show s'.get? id = s.get? id by unfold get?; rw [ht]]
  exact (Pointwise.refl hR s).record id

theorem get?_attach (s : Scheduler σ) (id j : ThreadId) :
    (s.attach id).2.get? j = if id = j then (s.get? j).map Thread.woken else s.get? j := by
  by_cases hj : id = j
  · subst hj
    unfold attach
    cases ht : s.get? id with
    | none => simp [ht]
    | some t =>
      by_cases hd : t.isDetached = true
      · simp only [hd, if_true]
        show (s.update id _).get? id = _
        rw [get?_update]
        simp [ht, Thread.woken, hd]
      · simp [hd, ht, Thread.woken]
  · simp only [hj, if_false]
    unfold attach
    cases ht : s.get? id with
    | none => rfl
    | some t =>
      by_cases hd : t.isDetached = true
      · simp only [hd, if_true]
        show (s.update id _).get? j = _
        rw [get?_update, if_neg hj]
      · simp [hd]

theorem nextId_attach (s : Scheduler σ) (id : ThreadId) : (s.attach id).2.nextId = s.nextId := by
  unfold attach
  split
  · split <;> rfl
  · rfl

theorem attach_wakes (s : Scheduler σ) (id : ThreadId) : Wakes s (s.attach id).2 := by
  refine ⟨nextId_attach s id, fun j => ?_⟩
  rw [get?_attach]
  cases s.get? j with
  | none => simp
  | some t =>
    split
    · exact .some t.woken_woken
    · exact .some (.refl t)

theorem attachAll_wakes (ids : List ThreadId) (s : Scheduler σ) : Wakes s (s.attachAll ids) := by
  induction ids generalizing s with
  | nil => exact .refl s
  | cons id ids ih => exact (s.attach_wakes id).trans (ih (s.attach id).2)

theorem wakeExpired_wakes (s : Scheduler σ) : Wakes s s.wakeExpired.2 := s.attachAll_wakes s.expired

theorem next_wakes (s : Scheduler σ) : Wakes s s.next.2 := by
  have h := s.wakeExpired_wakes
  unfold next
  dsimp only
  cases hr : s.wakeExpired.2.ready with
  | nil => exact h
  | cons id rest => exact h.trans (pointwise_of_threads_eq Thread.Woken.refl rfl rfl)

theorem get?_forgetJoin (s : Scheduler σ) (waiter j : ThreadId) :
    (s.forgetJoin waiter).get? j =
      (s.get? j).map fun t => { t with joiners := t.joiners.filter (· ≠ waiter) } := by
  unfold forgetJoin get?
  exact Std.ExtTreeMap.getElem?_map

theorem forgetJoin_wakes (s : Scheduler σ) (waiter : ThreadId) : Wakes s (s.forgetJoin waiter) := by
  refine ⟨rfl, fun j => ?_⟩
  rw [get?_forgetJoin]
  cases s.get? j with
  | none => exact .none
  | some t => exact .some ⟨rfl, rfl, rfl, .inl rfl⟩

theorem interrupt_wakes (s : Scheduler σ) (id : ThreadId) : Wakes s (s.interrupt id).2 := by
  have hmark : Wakes s (s.update id fun t => { t with interrupted := true }) :=
    s.update_pointwise Thread.Woken.refl id fun _ => ⟨rfl, rfl, rfl, .inl rfl⟩
  unfold interrupt
  split
  · split
    · dsimp only
      split
      · exact hmark.trans ((forgetJoin_wakes _ id).trans (attach_wakes _ id))
      · exact hmark
    · exact .refl s
  · exact .refl s

theorem takeInterrupt_wakes (s : Scheduler σ) (id : ThreadId) : Wakes s (s.takeInterrupt id).2 :=
  s.update_pointwise Thread.Woken.refl id fun _ => ⟨rfl, rfl, rfl, .inl rfl⟩

theorem serve_wakes (s : Scheduler σ) (r : HostRequest) : Wakes s (s.serve r) := by
  cases r with
  | attach id => exact s.attach_wakes id
  | interrupt id => exact s.interrupt_wakes id
  | stop => exact .refl s

theorem drain_wakes (s : Scheduler σ) : Wakes s s.drain.2 := by
  have hserved : ∀ (requests : List HostRequest) (s : Scheduler σ),
      Wakes s (requests.foldl serve s) := by
    intro requests
    induction requests with
    | nil => exact fun s => .refl s
    | cons r requests ih => exact fun s => (s.serve_wakes r).trans (ih (s.serve r))
  have htaken : Wakes s { s with requests := [] } := pointwise_of_threads_eq Thread.Woken.refl rfl rfl
  exact htaken.trans (hserved s.requests _)

theorem get?_detach (s : Scheduler σ) (id j : ThreadId) (timeout : Timeout) :
    (s.detach id timeout).2.get? j =
      if id = j then (s.get? j).map fun t =>
        if t.isAlive then { t with state := detachedState s.now timeout } else t
      else s.get? j := by
  by_cases hj : id = j
  · subst hj
    unfold detach
    cases ht : s.get? id with
    | none => simp [ht]
    | some t =>
      by_cases ha : t.isAlive = true
      · simp only [ha, if_true]
        show (s.update id _).get? id = _
        rw [get?_update]
        simp [ht, ha]
      · simp [ha, ht]
  · rw [if_neg hj]
    unfold detach
    cases ht : s.get? id with
    | none => rfl
    | some t =>
      by_cases ha : t.isAlive = true
      · simp only [ha, if_true]
        show (s.update id _).get? j = _
        rw [get?_update, if_neg hj]
      · simp [ha]

theorem nextId_detach (s : Scheduler σ) (id : ThreadId) (timeout : Timeout) :
    (s.detach id timeout).2.nextId = s.nextId := by
  unfold detach
  split
  · split <;> rfl
  · rfl

theorem detach_alike (s : Scheduler σ) (id : ThreadId) (timeout : Timeout) :
    Alike s (s.detach id timeout).2 := by
  refine ⟨nextId_detach s id timeout, fun j => ?_⟩
  rw [get?_detach]
  cases s.get? j with
  | none => simp
  | some t =>
    split
    · refine .some ?_
      dsimp only
      split
      · exact ⟨rfl, rfl, .inl rfl⟩
      · exact .refl t
    · exact .some (.refl t)

theorem join_alike (s : Scheduler σ) (waiter target : ThreadId) :
    Alike s (s.join waiter target).2 := by
  unfold join
  split
  · split
    · have h : Alike s (s.update target fun t => { t with joiners := t.joiners ++ [waiter] }) :=
        s.update_pointwise Thread.Alike.refl target fun _ => ⟨rfl, rfl, .inl rfl⟩
      exact h.trans (detach_alike _ waiter .indefinite)
    · exact .refl s
  · exact .refl s

/-- The record of an ended thread. -/
def ended (t : Thread σ) : Thread σ := { t with state := .terminated, pending := none, joiners := [] }

/-- Ending a thread ends its record and wakes others. -/
theorem terminate_wakes (s : Scheduler σ) (id : ThreadId) :
    Wakes (s.update id ended) (s.terminate id).2 := by
  unfold terminate
  cases ht : s.get? id with
  | none =>
    refine ⟨rfl, fun j => ?_⟩
    rw [get?_update]
    split
    · next hj => subst hj; rw [ht]; exact .none
    · exact (Wakes.refl s).record j
  | some t =>
    refine (?_ : Wakes _ _).trans ((forgetJoin_wakes _ id).trans (attachAll_wakes t.joiners _))
    exact pointwise_of_threads_eq Thread.Woken.refl rfl rfl

/-- What becomes of the other threads when one ends. -/
theorem terminate_others (s : Scheduler σ) {id j : ThreadId} (hj : j ≠ id) {t : Thread σ}
    (ht : s.get? j = some t) : ∃ t', (s.terminate id).2.get? j = some t' ∧ t.Woken t' := by
  refine (s.terminate_wakes id).exists_of_some ?_
  rw [get?_update, if_neg (Ne.symm hj)]
  exact ht

theorem terminate_others' (s : Scheduler σ) {id j : ThreadId} (hj : j ≠ id) {t' : Thread σ}
    (ht' : (s.terminate id).2.get? j = some t') : ∃ t, s.get? j = some t ∧ t.Woken t' := by
  obtain ⟨t, ht, hw⟩ := (s.terminate_wakes id).exists_of_some' ht'
  rw [get?_update, if_neg (Ne.symm hj)] at ht
  exact ⟨t, ht, hw⟩

theorem terminate_alike (s : Scheduler σ) (id : ThreadId) :
    Alike s (s.terminate id).2 := by
  have h : Alike s (s.update id ended) :=
    s.update_pointwise Thread.Alike.refl id fun _ => ⟨rfl, rfl, .inr rfl⟩
  exact h.trans (s.terminate_wakes id).alike

theorem get?_spawn (s : Scheduler σ) (object : Ref) (stack : σ) (j : ThreadId) :
    (s.spawn object stack).2.get? j =
      if s.nextId = j then some { id := s.nextId, object := object, stack := stack }
      else s.get? j :=
  Maps.getElem?_insert_eq s.threads s.nextId j _

theorem nextId_spawn (s : Scheduler σ) (object : Ref) (stack : σ) :
    (s.spawn object stack).2.nextId = s.nextId + 1 := by
  show (if s.nextId + 1 ≤ s.nextId + 1 then s.nextId + 1 else s.nextId + 1) = s.nextId + 1
  exact ite_self _

theorem get?_remove (s : Scheduler σ) (id j : ThreadId) :
    (s.remove id).2.get? j = if id = j then none else s.get? j :=
  Maps.getElem?_erase_eq s.threads id j

theorem lt_nextId_spawn {s : Scheduler σ} (hs : s.nextId ≠ 0xffffffff) (object : Ref) (stack : σ) :
    s.nextId < (s.spawn object stack).2.nextId := by
  rw [nextId_spawn]
  have h : s.nextId.toNat ≠ 4294967295 := fun h => hs (UInt32.toNat_inj.1 h)
  have hlt := s.nextId.toNat_lt
  rw [UInt32.lt_iff_toNat_lt, UInt32.toNat_add]
  simp only [UInt32.toNat_one]
  omega

theorem spawn_numbered {s : Scheduler σ} (h : s.Numbered) (hs : s.nextId ≠ 0xffffffff)
    (object : Ref) (stack : σ) : (s.spawn object stack).2.Numbered := by
  intro j t ht
  have hlt := lt_nextId_spawn hs object stack
  rw [get?_spawn] at ht
  split at ht
  · next hj => rw [← hj]; exact hlt
  · exact UInt32.lt_trans (h j t ht) hlt

/-- Only threads that may run are in the rotation. -/
def Rotates (s : Scheduler σ) : Prop := ∀ id ∈ s.ready, ∃ t, s.get? id = some t ∧ t.state = .ready

theorem Wakes.ready {s s' : Scheduler σ} (h : Wakes s s') {id : ThreadId} {t : Thread σ}
    (ht : s.get? id = some t) (hr : t.state = .ready) :
    ∃ t', s'.get? id = some t' ∧ t'.state = .ready := by
  obtain ⟨t', ht', hw⟩ := h.exists_of_some ht
  refine ⟨t', ht', ?_⟩
  rcases hw.state with he | ⟨_, he⟩
  · exact he.trans hr
  · exact he

theorem Wakes.rotates {s s' : Scheduler σ} (h : Wakes s s') (hs : s.Rotates)
    (hr : s'.ready = s.ready) : s'.Rotates := by
  intro id hid
  rw [hr] at hid
  obtain ⟨t, ht, hst⟩ := hs id hid
  exact h.ready ht hst

theorem update_rotates {s : Scheduler σ} (hs : s.Rotates) (id : ThreadId)
    {f : Thread σ → Thread σ} (hf : ∀ t, (f t).state = t.state) : (s.update id f).Rotates := by
  intro j hj
  obtain ⟨t, ht, hst⟩ := hs j hj
  rw [get?_update, ht]
  split
  · exact ⟨f t, rfl, (hf t).trans hst⟩
  · exact ⟨t, rfl, hst⟩

theorem attach_rotates {s : Scheduler σ} (hs : s.Rotates) (id : ThreadId) :
    (s.attach id).2.Rotates := by
  intro j hj
  by_cases hold : j ∈ s.ready
  · obtain ⟨t, ht, hst⟩ := hs j hold
    exact (s.attach_wakes id).ready ht hst
  · -- the one thread that can be new in the rotation was detached
    unfold attach at hj
    cases ht : s.get? id with
    | none => simp only [ht] at hj; exact absurd hj hold
    | some t =>
      by_cases hd : t.isDetached = true
      · simp only [ht, hd, if_true] at hj
        have hjid : j = id := by
          rcases List.mem_append.1 hj with h | h
          · exact absurd h hold
          · exact List.mem_singleton.1 h
        subst hjid
        refine ⟨t.woken, by rw [get?_attach, if_pos rfl, ht]; rfl, ?_⟩
        simp [Thread.woken, hd]
      · simp only [ht, hd] at hj
        exact absurd hj hold

theorem attachAll_rotates (ids : List ThreadId) {s : Scheduler σ} (hs : s.Rotates) :
    (s.attachAll ids).Rotates := by
  induction ids generalizing s with
  | nil => exact hs
  | cons id ids ih => exact ih (attach_rotates hs id)

/-- The thread picked is in the rotation. -/
theorem next_rotates {s : Scheduler σ} (hs : s.Rotates) :
    s.next.2.Rotates ∧ ∀ id, s.next.1 = some id → id ∈ s.next.2.ready := by
  have h : s.wakeExpired.2.Rotates := attachAll_rotates s.expired hs
  unfold next
  dsimp only
  cases hr : s.wakeExpired.2.ready with
  | nil => exact ⟨h, fun id hid => by simp at hid⟩
  | cons id rest =>
    refine ⟨fun j hj => ?_, fun j hj => ?_⟩
    · have hj' : j ∈ s.wakeExpired.2.ready := by
        rw [hr]
        rcases List.mem_append.1 hj with h | h
        · exact List.mem_cons_of_mem _ h
        · rw [List.mem_singleton.1 h]; exact List.mem_cons_self
      exact h j hj'
    · cases hj
      simp

theorem interrupt_rotates {s : Scheduler σ} (hs : s.Rotates) (id : ThreadId) :
    (s.interrupt id).2.Rotates := by
  have hmark : Wakes s (s.update id fun t => { t with interrupted := true }) :=
    s.update_pointwise Thread.Woken.refl id fun _ => ⟨rfl, rfl, rfl, .inl rfl⟩
  unfold interrupt
  split
  · split
    · dsimp only
      split
      · exact attach_rotates ((hmark.trans (forgetJoin_wakes _ id)).rotates hs rfl) id
      · exact hmark.rotates hs rfl
    · exact hs
  · exact hs

theorem serve_rotates {s : Scheduler σ} (hs : s.Rotates) (r : HostRequest) : (s.serve r).Rotates := by
  cases r with
  | attach id => exact attach_rotates hs id
  | interrupt id => exact interrupt_rotates hs id
  | stop => exact hs

theorem drain_rotates {s : Scheduler σ} (hs : s.Rotates) : s.drain.2.Rotates := by
  have hserved : ∀ (requests : List HostRequest) {s : Scheduler σ}, s.Rotates →
      (requests.foldl serve s).Rotates := by
    intro requests
    induction requests with
    | nil => exact fun hs => hs
    | cons r requests ih => exact fun hs => ih (serve_rotates hs r)
  exact hserved s.requests hs

/-- A thread that leaves the rotation takes nobody with it. -/
theorem rotates_of_withoutReady {s s' : Scheduler σ} (hs : s.Rotates) (id : ThreadId)
    (hr : s'.ready = s.ready.filter (· ≠ id)) (hg : ∀ j, id ≠ j → s'.get? j = s.get? j) :
    s'.Rotates := by
  intro j hj
  rw [hr, List.mem_filter] at hj
  have hne : id ≠ j := by
    have h := hj.2
    simp only [ne_eq, decide_not, Bool.not_eq_true', decide_eq_false_iff_not] at h
    exact fun he => h he.symm
  rw [hg j hne]
  exact hs j hj.1

theorem detach_rotates {s : Scheduler σ} (hs : s.Rotates) (id : ThreadId) (timeout : Timeout) :
    (s.detach id timeout).2.Rotates := by
  have hg : ∀ j, id ≠ j → (s.detach id timeout).2.get? j = s.get? j := fun j hj => by
    rw [get?_detach, if_neg hj]
  unfold detach at hg ⊢
  cases ht : s.get? id with
  | none => exact hs
  | some t =>
    by_cases ha : t.isAlive = true
    · simp only [ht, ha, if_true] at hg ⊢
      exact rotates_of_withoutReady hs id rfl hg
    · simpa [ha] using hs

theorem terminate_rotates {s : Scheduler σ} (hs : s.Rotates) (id : ThreadId) :
    (s.terminate id).2.Rotates := by
  unfold terminate
  cases ht : s.get? id with
  | none => exact hs
  | some t =>
    refine attachAll_rotates t.joiners ((forgetJoin_wakes _ id).rotates ?_ rfl)
    refine rotates_of_withoutReady hs id rfl fun j hj => ?_
    show (s.update id _).get? j = _
    rw [get?_update, if_neg hj]

theorem spawn_rotates {s : Scheduler σ} (hs : s.Rotates) (object : Ref) (stack : σ) :
    (s.spawn object stack).2.Rotates := by
  intro j hj
  rw [get?_spawn]
  split
  · exact ⟨_, rfl, rfl⟩
  · next hne =>
    rcases List.mem_append.1 (show j ∈ s.ready ++ [s.nextId] from hj) with h | h
    · exact hs j h
    · exact absurd (List.mem_singleton.1 h).symm hne

end Scheduler

end ClassMachine
