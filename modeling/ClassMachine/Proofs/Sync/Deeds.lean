import ClassMachine.Proofs.Scheduler.Rotation
import ClassMachine.Proofs.Sync.Orderly
import Mathlib.Logic.Relation

/-!
What happens to threads, one deed at a time. Whatever a machine does to its threads while one of them
runs is made up of a few deeds, apart from making a thread, giving it its object and taking it away. A
thread parks, joins and ends by itself only; anybody may wake or interrupt another.
-/
namespace ClassMachine

namespace Scheduler

variable {σ : Type}

/-- One thing done to threads while the thread `r`, if any, runs. -/
inductive Deed (r : Option ThreadId) : Scheduler σ → Scheduler σ → Prop
  | attach (s : Scheduler σ) (id : ThreadId) : Deed r s (s.attach id).2
  | interrupt (s : Scheduler σ) (id : ThreadId) : Deed r s (s.interrupt id).2
  /-- The rotation goes on, and clock, requests and the running thread change. -/
  | turn {s s' : Scheduler σ} (ht : s'.threads = s.threads) (hn : s'.nextId = s.nextId)
      (hr : s'.ready.Perm s.ready) : Deed r s s'
  | terminate {t : ThreadId} (ht : t ∈ r) (s : Scheduler σ) : Deed r s (s.terminate t).2
  | restack {t : ThreadId} (ht : t ∈ r) (s : Scheduler σ) (stack : σ) :
      Deed r s (s.update t fun u => { u with stack := stack })
  | detach {t : ThreadId} (ht : t ∈ r) (s : Scheduler σ) (timeout : Timeout) :
      Deed r s (s.detach t timeout).2
  | join {t : ThreadId} (ht : t ∈ r) (s : Scheduler σ) (target : ThreadId) :
      Deed r s (s.join t target).2
  | park {t : ThreadId} (ht : t ∈ r) (s : Scheduler σ) (pending : Option PendingMonitor) :
      Deed r s (s.update t fun u => { u with pending := pending })
  /-- The thread changes the marks of its own interrupts. -/
  | mark {t : ThreadId} (ht : t ∈ r) (s : Scheduler σ) (interrupted interruptible : Thread σ → Bool) :
      Deed r s (s.update t fun u =>
        { u with interrupted := interrupted u, interruptible := interruptible u })

/-- Any number of deeds. -/
abbrev Deeds (r : Option ThreadId) : Scheduler σ → Scheduler σ → Prop := Relation.ReflTransGen (Deed r)

namespace Deeds

variable {r : Option ThreadId} {s s' : Scheduler σ}

theorem one (h : Deed r s s') : Deeds r s s' := .single h

theorem attachAll (ids : List ThreadId) (s : Scheduler σ) : Deeds r s (s.attachAll ids) := by
  induction ids generalizing s with
  | nil => exact .refl
  | cons id ids ih => exact (one (.attach s id)).trans (ih (s.attach id).2)

theorem next (s : Scheduler σ) : Deeds r s s.next.2 := by
  have hwoken : Deeds r s s.wakeExpired.2 := attachAll s.expired s
  unfold Scheduler.next
  dsimp only
  cases hready : s.wakeExpired.2.ready with
  | nil => exact hwoken
  | cons id rest =>
    have hperm : (rest ++ [id]).Perm s.wakeExpired.2.ready := by
      rw [hready]
      exact List.perm_append_singleton id rest
    exact hwoken.trans (one (.turn rfl rfl hperm))

theorem drain (s : Scheduler σ) : Deeds r s s.drain.2 := by
  have hserved : ∀ (requests : List HostRequest) (s : Scheduler σ), Deeds r s (requests.foldl serve s) := by
    intro requests
    induction requests with
    | nil => exact fun _ => .refl
    | cons request requests ih =>
      intro s
      have hserve : Deeds r s (s.serve request) := by
        cases request with
        | attach id => exact one (.attach s id)
        | interrupt id => exact one (.interrupt s id)
        | stop => exact .refl
      exact hserve.trans (ih (s.serve request))
  have htaken : Deeds r s { s with requests := [] } := one (.turn rfl rfl (.refl _))
  exact htaken.trans (hserved s.requests _)

end Deeds

section Records

variable {s s' : Scheduler σ} {r : Option ThreadId}

/-- What a thread keeps whatever others do to it: it can be woken and interrupted. -/
structure Spared (u u' : Thread σ) : Prop where
  id : u'.id = u.id
  object : u'.object = u.object
  synthetic : u'.synthetic = u.synthetic
  stack : u'.stack = u.stack
  pending : u'.pending = u.pending
  interruptible : u'.interruptible = u.interruptible
  interrupted : u.interrupted = true → u'.interrupted = true

theorem Spared.refl (u : Thread σ) : Spared u u := ⟨rfl, rfl, rfl, rfl, rfl, rfl, fun h => h⟩

theorem Spared.trans {u v w : Thread σ} (h : Spared u v) (h' : Spared v w) : Spared u w :=
  ⟨h'.id.trans h.id, h'.object.trans h.object, h'.synthetic.trans h.synthetic, h'.stack.trans h.stack,
    h'.pending.trans h.pending, h'.interruptible.trans h.interruptible,
    fun hu => h'.interrupted (h.interrupted hu)⟩

/-- What a thread keeps whatever it does itself. -/
structure Known (u u' : Thread σ) : Prop where
  id : u'.id = u.id
  object : u'.object = u.object
  synthetic : u'.synthetic = u.synthetic

theorem Known.refl (u : Thread σ) : Known u u := ⟨rfl, rfl, rfl⟩

theorem Spared.known {u u' : Thread σ} (h : Spared u u') : Known u u' := ⟨h.id, h.object, h.synthetic⟩

theorem attach_spares (s : Scheduler σ) (id : ThreadId) : s.Pointwise Spared (s.attach id).2 := by
  refine ⟨nextId_attach s id, fun j => ?_⟩
  rw [get?_attach]
  cases s.get? j with
  | none => simp
  | some u =>
    split
    · refine .some ?_
      unfold Thread.woken
      split
      · exact ⟨rfl, rfl, rfl, rfl, rfl, rfl, fun h => h⟩
      · exact .refl u
    · exact .some (.refl u)

theorem Pointwise.sparing {s'' : Scheduler σ} (h : s.Pointwise Spared s') (h' : s'.Pointwise Spared s'') :
    s.Pointwise Spared s'' := Pointwise.trans (R := Spared) (fun _ _ _ => Spared.trans) h h'

theorem attachAll_spares (ids : List ThreadId) (s : Scheduler σ) : s.Pointwise Spared (s.attachAll ids) := by
  induction ids generalizing s with
  | nil => exact .refl Spared.refl s
  | cons id ids ih => exact (s.attach_spares id).sparing (ih (s.attach id).2)

theorem forgetJoin_spares (s : Scheduler σ) (waiter : ThreadId) : s.Pointwise Spared (s.forgetJoin waiter) := by
  refine ⟨rfl, fun j => ?_⟩
  rw [get?_forgetJoin]
  cases s.get? j with
  | none => exact .none
  | some u => exact .some ⟨rfl, rfl, rfl, rfl, rfl, rfl, fun h => h⟩

theorem interrupt_spares (s : Scheduler σ) (id : ThreadId) : s.Pointwise Spared (s.interrupt id).2 := by
  have hmark : s.Pointwise Spared (s.update id fun u => { u with interrupted := true }) :=
    s.update_pointwise Spared.refl id fun _ => ⟨rfl, rfl, rfl, rfl, rfl, rfl, fun _ => rfl⟩
  unfold interrupt
  split
  · split
    · dsimp only
      split
      · exact (hmark.sparing (forgetJoin_spares _ id)).sparing (attach_spares _ id)
      · exact hmark
    · exact .refl Spared.refl s
  · exact .refl Spared.refl s

theorem terminate_spares (s : Scheduler σ) (id : ThreadId) :
    (s.update id ended).Pointwise Spared (s.terminate id).2 := by
  unfold terminate
  cases hr : s.get? id with
  | none =>
    refine ⟨rfl, fun j => ?_⟩
    rw [get?_update]
    split
    · next hj =>
      subst hj
      rw [hr]
      exact .none
    · exact (Pointwise.refl Spared.refl s).record j
  | some u =>
    have hended : (s.update id ended).Pointwise Spared
        (((s.update id ended).withoutReady id).withoutCurrent id) :=
      pointwise_of_threads_eq Spared.refl rfl rfl
    exact (hended.sparing (forgetJoin_spares _ id)).sparing (attachAll_spares u.joiners _)

/-- A change of one record alone. -/
theorem update_spares (s : Scheduler σ) {t j : ThreadId} (hj : t ≠ j) (f : Thread σ → Thread σ) {u : Thread σ}
    (hu : s.get? j = some u) : (s.update t f).get? j = some u := by
  rw [get?_update, if_neg hj, hu]

theorem detach_spares (s : Scheduler σ) {t j : ThreadId} (hj : t ≠ j) (timeout : Timeout) {u : Thread σ}
    (hu : s.get? j = some u) : (s.detach t timeout).2.get? j = some u := by
  rw [get?_detach, if_neg hj, hu]

/-- A deed leaves the object of every thread. -/
theorem Deed.known (h : Deed r s s') : s.Pointwise Known s' := by
  have hupdate : ∀ (s : Scheduler σ) (t : ThreadId) {f : Thread σ → Thread σ}, (∀ u, Known u (f u)) →
      s.Pointwise Known (s.update t f) := fun s t _ hf => s.update_pointwise Known.refl t hf
  have hdetach : ∀ (s : Scheduler σ) (t : ThreadId) (timeout : Timeout),
      s.Pointwise Known (s.detach t timeout).2 := by
    refine fun s t timeout => ⟨nextId_detach s t timeout, fun j => ?_⟩
    rw [get?_detach]
    cases s.get? j with
    | none => simp
    | some u =>
      split
      · refine .some ?_
        dsimp only
        split <;> exact ⟨rfl, rfl, rfl⟩
      · exact .some (.refl u)
  have htrans : ∀ u v w : Thread σ, Known u v → Known v w → Known u w := fun _ _ _ h h' =>
    ⟨h'.id.trans h.id, h'.object.trans h.object, h'.synthetic.trans h.synthetic⟩
  cases h with
  | attach _ id => exact (s.attach_spares id).mono fun _ _ => Spared.known
  | interrupt _ id => exact (s.interrupt_spares id).mono fun _ _ => Spared.known
  | turn ht hn _ => exact pointwise_of_threads_eq Known.refl ht hn
  | @terminate t ht _ =>
    exact (hupdate s t (f := ended) fun _ => ⟨rfl, rfl, rfl⟩).trans htrans
      ((s.terminate_spares t).mono fun _ _ => Spared.known)
  | @restack t ht _ stack => exact hupdate s t fun _ => ⟨rfl, rfl, rfl⟩
  | @detach t ht _ timeout => exact hdetach s t timeout
  | @join t ht _ target =>
    unfold Scheduler.join
    split
    · split
      · exact (hupdate s target (f := fun u => { u with joiners := u.joiners ++ [t] }) fun _ => ⟨rfl, rfl, rfl⟩).trans
          htrans (hdetach _ t .indefinite)
      · exact .refl Known.refl s
    · exact .refl Known.refl s
  | @park t ht _ pending => exact hupdate s t fun _ => ⟨rfl, rfl, rfl⟩
  | @mark t ht _ interrupted interruptible => exact hupdate s t fun _ => ⟨rfl, rfl, rfl⟩

theorem Deeds.nextId (h : Deeds r s s') : s'.nextId = s.nextId := by
  induction h with
  | refl => rfl
  | tail _ h ih => exact h.known.nextId.trans ih

/-- Whatever is done to threads, the rotation holds those that may run. -/
theorem Deed.exact (h : Deed r s s') (hs : s.Exact) : s'.Exact := by
  cases h with
  | attach _ id => exact hs.attach id
  | interrupt _ id => exact hs.interrupt id
  | turn ht _ hready =>
    have hrun : ∀ id, s'.MayRun id ↔ s.MayRun id := mayRun_congr fun j => by rw [get?, get?, ht]
    exact ⟨hready.nodup_iff.2 hs.nodup, fun id => hready.mem_iff.trans ((hs.mem_ready id).trans (hrun id).symm)⟩
  | terminate => exact hs.terminate _
  | restack => exact hs.update _ fun _ => rfl
  | detach _ _ timeout => exact hs.detach _ timeout
  | join _ _ target => exact hs.join _ target
  | park => exact hs.update _ fun _ => rfl
  | mark => exact hs.update _ fun _ => rfl

/-- A deed wakes or interrupts others at most. -/
theorem Deed.spares (h : Deed r s s') {j : ThreadId} (hj : j ∉ r) {u : Thread σ} (hu : s.get? j = some u) :
    ∃ u', s'.get? j = some u' ∧ Spared u u' := by
  have hne : ∀ {t : ThreadId}, t ∈ r → t ≠ j := by
    rintro t ht rfl
    exact hj ht
  cases h with
  | attach _ id => exact (s.attach_spares id).exists_of_some hu
  | interrupt _ id => exact (s.interrupt_spares id).exists_of_some hu
  | turn ht hn _ => exact (pointwise_of_threads_eq Spared.refl ht hn).exists_of_some hu
  | terminate ht _ => exact (s.terminate_spares _).exists_of_some (s.update_spares (hne ht) _ hu)
  | restack ht _ stack => exact ⟨u, s.update_spares (hne ht) _ hu, .refl u⟩
  | detach ht _ timeout => exact ⟨u, s.detach_spares (hne ht) timeout hu, .refl u⟩
  | @join t ht _ target =>
    unfold Scheduler.join
    split
    · split
      · have hlisted : s.Pointwise Spared (s.update target fun u => { u with joiners := u.joiners ++ [t] }) :=
          s.update_pointwise Spared.refl target fun _ => ⟨rfl, rfl, rfl, rfl, rfl, rfl, fun h => h⟩
        obtain ⟨u', hu', hspared⟩ := hlisted.exists_of_some hu
        exact ⟨u', detach_spares _ (hne ht) .indefinite hu', hspared⟩
      · exact ⟨u, hu, .refl u⟩
    · exact ⟨u, hu, .refl u⟩
  | park ht _ pending => exact ⟨u, s.update_spares (hne ht) _ hu, .refl u⟩
  | mark ht _ interrupted interruptible => exact ⟨u, s.update_spares (hne ht) _ hu, .refl u⟩

/-- A deed neither ends another nor brings one back. -/
theorem Deed.isAlive (h : Deed r s s') {j : ThreadId} (hj : j ∉ r) :
    (s'.get? j).map Thread.isAlive = (s.get? j).map Thread.isAlive := by
  have hne : ∀ {t : ThreadId}, t ∈ r → t ≠ j := by
    rintro t ht rfl
    exact hj ht
  have hwakes : ∀ {s s' : Scheduler σ}, s.Wakes s' →
      (s'.get? j).map Thread.isAlive = (s.get? j).map Thread.isAlive := fun hw =>
    map_eq_of_rel (fun _ _ h => h.heeds.alive) (hw.record j)
  have hupdate : ∀ {t : ThreadId} (f : Thread σ → Thread σ), t ∈ r → (s.update t f).get? j = s.get? j :=
    fun f ht => by rw [get?_update, if_neg (hne ht)]
  cases h with
  | attach _ id => exact hwakes (s.attach_wakes id)
  | interrupt _ id => exact hwakes (s.interrupt_wakes id)
  | turn ht hn _ => exact hwakes (pointwise_of_threads_eq Thread.Woken.refl ht hn)
  | terminate ht _ => exact (hwakes (s.terminate_wakes _)).trans (congrArg _ (hupdate _ ht))
  | restack ht _ stack => exact congrArg _ (hupdate _ ht)
  | detach ht _ timeout => rw [get?_detach, if_neg (hne ht)]
  | @join t ht _ target =>
    unfold Scheduler.join
    split
    · split
      · rw [get?_detach, if_neg (hne ht), get?_update]
        split
        · rw [Option.map_map]
          rfl
        · rfl
      · rfl
    · rfl
  | park ht _ pending => exact congrArg _ (hupdate _ ht)
  | mark ht _ interrupted interruptible => exact congrArg _ (hupdate _ ht)

/-- A thread that others spare, and that lives as before. -/
structure Bides (u u' : Thread σ) : Prop extends Spared u u' where
  isAlive : u'.isAlive = u.isAlive

theorem Bides.refl (u : Thread σ) : Bides u u := ⟨.refl u, rfl⟩

theorem Bides.trans {u v w : Thread σ} (h : Bides u v) (h' : Bides v w) : Bides u w :=
  ⟨h.toSpared.trans h'.toSpared, h'.isAlive.trans h.isAlive⟩

theorem Deed.bides (h : Deed r s s') {j : ThreadId} (hj : j ∉ r) {u : Thread σ} (hu : s.get? j = some u) :
    ∃ u', s'.get? j = some u' ∧ Bides u u' := by
  obtain ⟨u', hu', hspared⟩ := h.spares hj hu
  have halive := h.isAlive hj
  rw [hu, hu'] at halive
  exact ⟨u', hu', hspared, Option.some.inj halive⟩

/-- Whoever is in the rotation, or in a list of joiners, has a record. -/
structure Registered (s : Scheduler σ) : Prop where
  ready : ∀ id ∈ s.ready, (s.get? id).isSome
  joiners : ∀ t u, s.get? t = some u → ∀ id ∈ u.joiners, (s.get? id).isSome

/-- Nobody is listed anew but threads with records, and no record is gone. -/
theorem Registered.of_lists (hs : s.Registered) (hknown : ∀ id, (s.get? id).isSome → (s'.get? id).isSome)
    (hready : ∀ id ∈ s'.ready, id ∈ s.ready ∨ (s.get? id).isSome)
    (hjoiners : ∀ t u', s'.get? t = some u' → ∀ id ∈ u'.joiners,
      (∃ u, s.get? t = some u ∧ id ∈ u.joiners) ∨ (s.get? id).isSome) : s'.Registered where
  ready id hid := hknown id ((hready id hid).elim (hs.ready id) fun h => h)
  joiners t u' hu' id hid := hknown id <| by
    rcases hjoiners t u' hu' id hid with ⟨u, hu, hid⟩ | h
    · exact hs.joiners t u hu id hid
    · exact h

theorem Pointwise.isSome {R : Thread σ → Thread σ → Prop} (h : s.Pointwise R s') (id : ThreadId)
    (hid : (s.get? id).isSome) : (s'.get? id).isSome := by
  obtain ⟨u, hu⟩ := Option.isSome_iff_exists.1 hid
  obtain ⟨u', hu', _⟩ := h.exists_of_some hu
  simp [hu']

/-- Records change, but no list of joiners grows, and the rotation takes in threads with records only. -/
theorem Registered.of_pointwise (hs : s.Registered) (h : s.Pointwise (fun u u' => u'.joiners ⊆ u.joiners) s')
    (hready : ∀ id ∈ s'.ready, id ∈ s.ready ∨ (s.get? id).isSome) : s'.Registered :=
  hs.of_lists h.isSome hready fun _ _ hu' _ hid =>
    have ⟨u, hu, hsub⟩ := h.exists_of_some' hu'
    .inl ⟨u, hu, hsub hid⟩

theorem Registered.update (hs : s.Registered) (t : ThreadId) {f : Thread σ → Thread σ}
    (hf : ∀ u, (f u).joiners ⊆ u.joiners) : (s.update t f).Registered :=
  hs.of_pointwise (s.update_pointwise (fun _ => List.Subset.refl _) t hf) fun _ hid => .inl hid

theorem Registered.attach (hs : s.Registered) (id : ThreadId) : (s.attach id).2.Registered := by
  refine hs.of_pointwise ⟨nextId_attach s id, fun j => ?_⟩ fun j hj => ?_
  · rw [get?_attach]
    cases s.get? j with
    | none => simp
    | some u =>
      split
      · refine .some ?_
        unfold Thread.woken
        split <;> exact List.Subset.refl _
      · exact .some (List.Subset.refl _)
  · unfold Scheduler.attach at hj
    cases hu : s.get? id with
    | none =>
      rw [hu] at hj
      exact .inl hj
    | some u =>
      rw [hu] at hj
      dsimp only at hj
      split at hj
      · rcases List.mem_append.1 hj with hj | hj
        · exact .inl hj
        · cases List.mem_singleton.1 hj
          exact .inr (by simp [hu])
      · exact .inl hj

theorem Registered.attachAll (ids : List ThreadId) (hs : s.Registered) : (s.attachAll ids).Registered := by
  induction ids generalizing s with
  | nil => exact hs
  | cons id ids ih => exact ih (hs.attach id)

theorem Registered.forgetJoin (hs : s.Registered) (waiter : ThreadId) : (s.forgetJoin waiter).Registered := by
  refine hs.of_pointwise ⟨rfl, fun j => ?_⟩ fun _ hid => .inl hid
  rw [get?_forgetJoin]
  cases s.get? j with
  | none => exact .none
  | some u => exact .some fun _ hid => List.mem_of_mem_filter hid

theorem Registered.interrupt (hs : s.Registered) (id : ThreadId) : (s.interrupt id).2.Registered := by
  have hmarked := hs.update id (f := fun u => { u with interrupted := true }) fun _ => List.Subset.refl _
  unfold Scheduler.interrupt
  split
  · split
    · dsimp only
      split
      · exact (hmarked.forgetJoin id).attach id
      · exact hmarked
    · exact hs
  · exact hs

theorem Registered.withoutReady (hs : s.Registered) (id : ThreadId) : (s.withoutReady id).Registered :=
  ⟨fun j hj => hs.ready j (List.mem_of_mem_filter hj), hs.joiners⟩

theorem Registered.detach (hs : s.Registered) (t : ThreadId) (timeout : Timeout) :
    (s.detach t timeout).2.Registered := by
  unfold Scheduler.detach
  split
  · split
    · exact (hs.update t (f := fun u => { u with state := detachedState s.now timeout })
        fun _ => List.Subset.refl _).withoutReady t
    · exact hs
  · exact hs

theorem Registered.terminate (hs : s.Registered) (t : ThreadId) : (s.terminate t).2.Registered := by
  unfold Scheduler.terminate
  split
  · next u _ =>
    have hended : (((s.update t ended).withoutReady t).withoutCurrent t).Registered :=
      ⟨((hs.update t (f := ended) fun _ => List.nil_subset _).withoutReady t).ready,
        ((hs.update t (f := ended) fun _ => List.nil_subset _).withoutReady t).joiners⟩
    exact (hended.forgetJoin t).attachAll u.joiners
  · exact hs

/-- A thread that is listed as a joiner is the one that joins. -/
theorem Registered.deed (hs : s.Registered) (hr : ∀ t ∈ r, (s.get? t).isSome) (h : Deed r s s') :
    s'.Registered := by
  cases h with
  | attach _ id => exact hs.attach id
  | interrupt _ id => exact hs.interrupt id
  | turn ht hn hready =>
    exact hs.of_pointwise (pointwise_of_threads_eq (fun _ => List.Subset.refl _) ht hn) fun _ hid =>
      .inl (hready.mem_iff.1 hid)
  | terminate ht _ => exact hs.terminate _
  | restack ht _ stack => exact hs.update _ fun _ => List.Subset.refl _
  | detach ht _ timeout => exact hs.detach _ timeout
  | @join t ht _ target =>
    unfold Scheduler.join
    split
    · split
      · refine Registered.detach (s := s.update target fun u => { u with joiners := u.joiners ++ [t] })
          (hs.of_lists ?_ (fun _ hid => .inl hid) ?_) t .indefinite
        · exact (s.update_pointwise (R := fun _ _ => True) (fun _ => trivial) target fun _ => trivial).isSome
        · intro j u' hu' id hid
          rw [get?_update] at hu'
          split at hu'
          · obtain ⟨u, hu, rfl⟩ := Option.map_eq_some_iff.1 hu'
            rcases List.mem_append.1 hid with hid | hid
            · exact .inl ⟨u, hu, hid⟩
            · cases List.mem_singleton.1 hid
              exact .inr (hr t ht)
          · exact .inl ⟨u', hu', hid⟩
      · exact hs
    · exact hs
  | park ht _ pending => exact hs.update _ fun _ => List.Subset.refl _
  | mark ht _ interrupted interruptible => exact hs.update _ fun _ => List.Subset.refl _

theorem joiners_attachAll (ids : List ThreadId) (s : Scheduler σ) :
    s.Pointwise (fun u u' => u'.joiners = u.joiners) (s.attachAll ids) := by
  induction ids generalizing s with
  | nil => exact .refl (R := fun u u' => u'.joiners = u.joiners) (fun _ => rfl) s
  | cons id ids ih =>
    refine Pointwise.trans (R := fun u u' => u'.joiners = u.joiners) (fun _ _ _ h h' => h'.trans h)
      ⟨nextId_attach s id, fun j => ?_⟩ (ih (s.attach id).2)
    rw [get?_attach]
    cases s.get? j with
    | none => simp
    | some u =>
      split
      · refine .some ?_
        unfold Thread.woken
        split <;> rfl
      · exact .some rfl

/-- A thread that has ended waits for nobody's end. -/
theorem joiners_terminate {t j : ThreadId} {u u' : Thread σ} (hu : s.get? t = some u)
    (hu' : (s.terminate t).2.get? j = some u') : t ∉ u'.joiners := by
  unfold Scheduler.terminate at hu'
  rw [hu] at hu'
  obtain ⟨v, hv, heq⟩ := (joiners_attachAll u.joiners _).exists_of_some' hu'
  rw [get?_forgetJoin] at hv
  obtain ⟨w, -, rfl⟩ := Option.map_eq_some_iff.1 hv
  rw [heq]
  simp

/-- A thread that has ended and is taken away is listed nowhere. -/
theorem Registered.retire (hs : s.Registered) {t : ThreadId} {u : Thread σ} (hu : s.get? t = some u) :
    ((s.terminate t).2.remove t).2.Registered := by
  have hended := hs.terminate t
  have hother : ∀ id, t ≠ id → ((s.terminate t).2.get? id).isSome →
      (((s.terminate t).2.remove t).2.get? id).isSome := fun id hne hid => by
    rw [get?_remove, if_neg hne]
    exact hid
  refine ⟨fun id hid => ?_, fun j u' hu' id hid => ?_⟩
  · obtain ⟨hid, hne⟩ := List.mem_filter.1 hid
    exact hother id (Ne.symm (of_decide_eq_true hne)) (hended.ready id hid)
  · rw [get?_remove] at hu'
    split at hu'
    · cases hu'
    · refine hother id ?_ (hended.joiners j u' hu' id hid)
      rintro rfl
      exact joiners_terminate hu hu' hid

theorem Registered.spawn (hs : s.Registered) (object : Ref) (stack : σ) :
    (s.spawn object stack).2.Registered := by
  have hknown : ∀ id, (s.get? id).isSome → ((s.spawn object stack).2.get? id).isSome := fun id hid => by
    rw [get?_spawn]
    split
    · rfl
    · exact hid
  refine ⟨fun id hid => ?_, fun j u hu id hid => ?_⟩
  · rcases List.mem_append.1 (show id ∈ s.ready ++ [s.nextId] from hid) with hid | hid
    · exact hknown id (hs.ready id hid)
    · rw [List.mem_singleton.1 hid, get?_spawn, if_pos rfl]
      rfl
  · rw [get?_spawn] at hu
    split at hu
    · cases hu
      cases hid
    · exact hknown id (hs.joiners j u hu id hid)

end Records

end Scheduler

/-- The object as if its monitor had not been touched. -/
def Object.unmonitored (o : Object) : Object := { o with monitor := {} }

namespace Heap

/-- Monitors may be others, and nothing else is. -/
structure Remonitored (h h' : Heap) : Prop where
  objects : ∀ r, (h'.get? r).map Object.unmonitored = (h.get? r).map Object.unmonitored
  rest : h' = { h with objects := h'.objects }

variable {h h' h'' : Heap}

theorem Remonitored.refl (h : Heap) : h.Remonitored h := ⟨fun _ => rfl, rfl⟩

theorem Remonitored.trans (hr : h.Remonitored h') (hr' : h'.Remonitored h'') : h.Remonitored h'' :=
  ⟨fun r => (hr'.objects r).trans (hr.objects r), by rw [hr'.rest, hr.rest]⟩

theorem Remonitored.isSome (hr : h.Remonitored h') {r : Ref} (hlive : (h.get? r).isSome) : (h'.get? r).isSome := by
  have hsame := congrArg Option.isSome (hr.objects r)
  rw [Option.isSome_map, Option.isSome_map] at hsame
  rw [hsame]
  exact hlive

theorem update_remonitored (h : Heap) (r : Ref) (m : Monitor) :
    h.Remonitored (h.update r fun o => { o with monitor := m }) := by
  refine ⟨fun r' => ?_, rfl⟩
  rw [get?_update]
  split
  · exact Option.map_map ..
  · rfl

end Heap

/-- Deeds among threads, and nothing done to objects but to their monitors. -/
structure Arena.Passes {σ : Type} (r : Option ThreadId) (a a' : Arena σ) : Prop where
  deeds : a.scheduler.Deeds r a'.scheduler
  heap : a.heap.Remonitored a'.heap

namespace Sync
open Stateful

variable {σ α β : Type} {r : Option ThreadId} {t : ThreadId}

/-- However `x` ends, it has done deeds only. -/
def Doing (r : Option ThreadId) (x : SyncM σ α) : Prop :=
  ∀ a, Ends (x a) (fun _ a' => a.Passes r a') fun _ a' => a.Passes r a'

theorem passes_refl (a : Arena σ) : a.Passes r a := ⟨.refl, .refl _⟩

theorem Doing.pure (v : α) : Doing r (Pure.pure v : SyncM σ α) := fun a => passes_refl a

theorem Doing.throw (e : SyncError) : Doing r (throw e : SyncM σ α) := fun a => passes_refl a

theorem Doing.bind {x : SyncM σ α} {f : α → SyncM σ β} (hx : Doing r x) (hf : ∀ v, Doing r (f v)) :
    Doing r (x >>= f) := by
  intro a
  have htrans : ∀ {a' a'' : Arena σ}, a.Passes r a' → a'.Passes r a'' → a.Passes r a'' := fun h h' =>
    ⟨h.deeds.trans h'.deeds, h.heap.trans h'.heap⟩
  refine (hx a).bind fun v a' ha => ?_
  exact (hf v a').mono (fun _ _ h => htrans ha h) fun _ _ h => htrans ha h

theorem Doing.schedule {f : Scheduler σ → Scheduler σ} (hf : ∀ s : Scheduler σ, s.Deeds r (f s)) :
    Doing r (schedule f) := fun a => ⟨hf a.scheduler, .refl _⟩

theorem monitorOf_doing (object : Ref) : Doing r (monitorOf object : SyncM σ Monitor) := by
  intro a
  unfold monitorOf
  rw [bind_get]
  cases a.heap.get? object with
  | none => exact passes_refl a
  | some o => exact passes_refl a

theorem setMonitor_doing (object : Ref) (m : Monitor) : Doing r (setMonitor object m : SyncM σ Unit) :=
  fun a => ⟨.refl, a.heap.update_remonitored object m⟩

theorem onMonitor_doing (object : Ref) (f : Monitor → Except MonitorError (α × Monitor)) :
    Doing r (onMonitor object f : SyncM σ α) := by
  unfold onMonitor
  refine (monitorOf_doing object).bind fun m => ?_
  cases f m with
  | error e => exact .throw _
  | ok pair => exact (setMonitor_doing object pair.2).bind fun _ => .pure _

theorem handOver_doing (next : Option WaitToken) : Doing r (handOver next : SyncM σ Unit) := by
  cases next with
  | none => exact .pure ()
  | some token => exact .schedule fun s => .one (.attach s token.thread)

theorem park_doing (ht : t ∈ r) (p : PendingMonitor) : Doing r (park t p : SyncM σ Unit) := by
  intro a
  unfold park
  rw [bind_get]
  cases a.scheduler.get? t with
  | none => exact passes_refl a
  | some u => exact ⟨.one (.park ht a.scheduler (some p)), .refl _⟩

theorem enter_doing (ht : t ∈ r) (object : Ref) : Doing r (enter t object : SyncM σ Acquire) := by
  unfold enter
  refine (onMonitor_doing object _).bind fun entry => ?_
  cases entry with
  | acquired => exact .pure _
  | queued =>
    exact (park_doing ht _).bind fun _ =>
      (Doing.schedule fun s => .one (.detach ht s .indefinite)).bind fun _ => .pure _

theorem exit_doing (object : Ref) : Doing r (exit t object : SyncM σ Unit) :=
  (onMonitor_doing object _).bind handOver_doing

theorem wait_doing (ht : t ∈ r) (object : Ref) (timeout : Timeout) :
    Doing r (wait t object timeout : SyncM σ Unit) := by
  unfold wait
  refine (onMonitor_doing object _).bind fun answer => (park_doing ht _).bind fun _ => ?_
  exact (Doing.schedule fun s => .one (.detach ht s timeout)).bind fun _ => handOver_doing _

theorem notify_doing (object : Ref) : Doing r (notify t object : SyncM σ (Option ThreadId)) :=
  (onMonitor_doing object _).bind fun _ => .pure _

theorem notifyAll_doing (object : Ref) : Doing r (notifyAll t object : SyncM σ (List ThreadId)) :=
  (onMonitor_doing object _).bind fun _ => .pure _

theorem takeMonitor_doing (p : PendingMonitor) : Doing r (takeMonitor t p : SyncM σ Entry) := by
  unfold takeMonitor
  refine (monitorOf_doing p.object).bind fun m => ?_
  split
  · split
    · exact .pure _
    · exact .throw _
  · exact (setMonitor_doing p.object _).bind fun _ => .pure _

theorem resume_doing (ht : t ∈ r) : Doing r (resume t : SyncM σ Resume) := by
  intro a
  unfold resume
  rw [bind_get]
  cases (a.scheduler.get? t).bind (·.pending) with
  | none => exact passes_refl a
  | some p =>
    refine ((takeMonitor_doing p).bind fun entry => ?_) a
    cases entry with
    | queued => exact (Doing.schedule fun s => .one (.detach ht s .indefinite)).bind fun _ => .pure _
    | acquired => exact (Doing.schedule fun s => .one (.park ht s none)).bind fun _ => .pure _

end Sync

end ClassMachine
