import ClassMachine.Proofs.Scheduler.Records
import Mathlib.Data.List.Nodup

/-!
The rotation against the states of threads. Operations change the two separately. Whatever is done to
a scheduler, and in whatever order, a thread is in the rotation exactly when its record says that it
may run, and a thread that has ended stays ended.
-/
namespace ClassMachine.Scheduler

/-- What may be done to a scheduler; `tick` is the clock going on. -/
inductive Command (σ : Type) where
  | spawn (object : Ref) (stack : σ)
  | insert (t : Thread σ)
  | next
  | endSlice
  | detach (id : ThreadId) (timeout : Timeout)
  | attach (id : ThreadId)
  | wakeExpired
  | interrupt (id : ThreadId)
  | takeInterrupt (id : ThreadId)
  | join (waiter target : ThreadId)
  | terminate (id : ThreadId)
  | remove (id : ThreadId)
  | reap
  | send (r : HostRequest)
  | drain
  | tick (now : UInt64)

variable {σ : Type} {s s' : Scheduler σ} {id : ThreadId}

namespace Command

/-- Numbers stay below the largest one, a record is inserted under a number not in use, and the clock
does not go back. -/
def Allowed (s : Scheduler σ) : Command σ → Prop
  | spawn _ _ => s.nextId < 0xffffffff
  | insert t => s.get? t.id = none ∧ t.id < 0xffffffff
  | tick now => s.now ≤ now
  | _ => True

instance (s : Scheduler σ) : (c : Command σ) → Decidable (c.Allowed s)
  | spawn _ _ => inferInstanceAs (Decidable (s.nextId < 0xffffffff))
  | insert t =>
    match ht : s.get? t.id with
    | some _ => isFalse fun hc => by simp [Allowed, ht] at hc
    | none => decidable_of_iff (t.id < 0xffffffff) (by simp [Allowed, ht])
  | tick now => inferInstanceAs (Decidable (s.now ≤ now))
  | next | endSlice | detach _ _ | attach _ | wakeExpired | interrupt _ | takeInterrupt _ | join _ _
  | terminate _ | remove _ | reap | send _ | drain => isTrue trivial

def run (s : Scheduler σ) : Command σ → Scheduler σ
  | spawn object stack => (s.spawn object stack).2
  | insert t => s.insert t
  | next => s.next.2
  | endSlice => s.endSlice
  | detach id timeout => (s.detach id timeout).2
  | attach id => (s.attach id).2
  | wakeExpired => s.wakeExpired.2
  | interrupt id => (s.interrupt id).2
  | takeInterrupt id => (s.takeInterrupt id).2
  | join waiter target => (s.join waiter target).2
  | terminate id => (s.terminate id).2
  | remove id => (s.remove id).2
  | reap => s.reap.2
  | send r => s.send r
  | drain => s.drain.2
  | tick now => { s with now := now }

end Command

/-- Schedulers that come about from an empty one. -/
inductive Reachable : Scheduler σ → Prop
  | start (now : UInt64) : Reachable { now := now }
  | step {s : Scheduler σ} (h : Reachable s) (c : Command σ) (hc : c.Allowed s) : Reachable (c.run s)

/-- Commands that lead from one scheduler to another while the record of one thread is there. -/
inductive Keeping (id : ThreadId) (s : Scheduler σ) : Scheduler σ → Prop
  | here : Keeping id s s
  | step {s' : Scheduler σ} (h : Keeping id s s') (c : Command σ) (hc : c.Allowed s')
      (hkept : ((c.run s').get? id).isSome) : Keeping id s (c.run s')

/-- The thread has a record that says it may run. -/
def MayRun (s : Scheduler σ) (id : ThreadId) : Prop := ∃ t, s.get? id = some t ∧ t.state = .ready

/-- The rotation holds the threads that may run, each of them once. -/
structure Exact (s : Scheduler σ) : Prop where
  nodup : s.ready.Nodup
  mem_ready : ∀ id, id ∈ s.ready ↔ s.MayRun id

namespace Exact

theorem of_same (h : s.Exact) (hready : s'.ready = s.ready) (hrun : ∀ id, s'.MayRun id ↔ s.MayRun id) :
    s'.Exact := by
  constructor
  · rw [hready]
    exact h.nodup
  · intro id
    rw [hready, hrun]
    exact h.mem_ready id

theorem enters (h : s.Exact) (hid : ¬ s.MayRun id) (hready : s'.ready = s.ready ++ [id])
    (hrun : ∀ j, s'.MayRun j ↔ s.MayRun j ∨ j = id) : s'.Exact := by
  constructor
  · have hnot : id ∉ s.ready := fun hmem => hid ((h.mem_ready id).1 hmem)
    rw [hready]
    exact h.nodup.append (by simp) (by simpa using hnot)
  · intro j
    simp [hready, hrun, h.mem_ready]

theorem leaves (h : s.Exact) (hready : s'.ready = s.ready.filter (· ≠ id))
    (hrun : ∀ j, s'.MayRun j ↔ s.MayRun j ∧ j ≠ id) : s'.Exact := by
  constructor
  · rw [hready]
    exact h.nodup.filter _
  · intro j
    simp [hready, hrun, h.mem_ready]

end Exact

theorem mayRun_congr (h : ∀ j, (s'.get? j).map (·.state) = (s.get? j).map (·.state)) (j : ThreadId) :
    s'.MayRun j ↔ s.MayRun j := by
  have hstate : ∀ s : Scheduler σ, s.MayRun j ↔ (s.get? j).map (·.state) = some .ready := by
    simp [MayRun]
  rw [hstate, hstate, h]

theorem state_update {f : Thread σ → Thread σ} (hf : ∀ t, (f t).state = t.state) (s : Scheduler σ)
    (id j : ThreadId) : ((s.update id f).get? j).map (·.state) = (s.get? j).map (·.state) := by
  rw [get?_update]
  split
  · simp [Function.comp_def, hf]
  · rfl

theorem Exact.update (h : s.Exact) (id : ThreadId) {f : Thread σ → Thread σ}
    (hf : ∀ t, (f t).state = t.state) : (s.update id f).Exact :=
  h.of_same rfl (mayRun_congr (state_update hf s id))

theorem Exact.forgetJoin (h : s.Exact) (waiter : ThreadId) : (s.forgetJoin waiter).Exact := by
  refine h.of_same rfl (mayRun_congr ?_)
  intro j
  simp [get?_forgetJoin, Function.comp_def]

theorem not_mayRun_of_isDetached {t : Thread σ} (ht : s.get? id = some t) (hd : t.isDetached = true) :
    ¬ s.MayRun id := by
  rintro ⟨t', ht', hready⟩
  cases ht.symm.trans ht'
  simp [Thread.isDetached, hready] at hd

theorem Exact.attach (h : s.Exact) (id : ThreadId) : (s.attach id).2.Exact := by
  unfold Scheduler.attach
  cases ht : s.get? id with
  | none => exact h
  | some t =>
    by_cases hd : t.isDetached = true
    · simp only [hd, if_true]
      apply h.enters (not_mayRun_of_isDetached ht hd) rfl
      intro j
      show (s.update id _).MayRun j ↔ _
      unfold MayRun
      rw [get?_update]
      by_cases hj : id = j
      · subst hj
        simp [ht]
      · simp [hj, Ne.symm hj]
    · simpa [hd] using h

theorem Exact.attachAll (h : s.Exact) (ids : List ThreadId) : (s.attachAll ids).Exact := by
  induction ids generalizing s with
  | nil => exact h
  | cons id ids ih => exact ih (h.attach id)

theorem Exact.next (h : s.Exact) : s.next.2.Exact := by
  have hwoken : s.wakeExpired.2.Exact := h.attachAll s.expired
  unfold Scheduler.next
  dsimp only
  cases hready : s.wakeExpired.2.ready with
  | nil => exact hwoken
  | cons id rest =>
    have hperm : (rest ++ [id]).Perm s.wakeExpired.2.ready := by
      rw [hready]
      exact List.perm_append_singleton id rest
    constructor
    · exact hperm.nodup_iff.2 hwoken.nodup
    · intro j
      exact (hperm.mem_iff).trans (hwoken.mem_ready j)

/-- A thread whose record does not say that it may run is left out of the rotation. -/
theorem Exact.leaves_of_update (h : s.Exact) {f : Thread σ → Thread σ}
    (hf : ∀ t, (f t).state ≠ .ready) : ((s.update id f).withoutReady id).Exact := by
  refine h.leaves rfl fun j => ?_
  show (s.update id f).MayRun j ↔ _
  unfold MayRun
  rw [get?_update]
  by_cases hj : id = j
  · subst hj
    simpa using fun t _ => hf t
  · simp [hj, Ne.symm hj]

theorem detachedState_ne_ready (now : UInt64) (timeout : Timeout) : detachedState now timeout ≠ .ready := by
  cases timeout <;> simp [detachedState]

theorem Exact.detach (h : s.Exact) (id : ThreadId) (timeout : Timeout) : (s.detach id timeout).2.Exact := by
  unfold Scheduler.detach
  split
  · split
    · exact h.leaves_of_update fun _ => detachedState_ne_ready s.now timeout
    · exact h
  · exact h

theorem Exact.interrupt (h : s.Exact) (id : ThreadId) : (s.interrupt id).2.Exact := by
  unfold Scheduler.interrupt
  split
  · split
    · have hmark : (s.update id fun t => { t with interrupted := true }).Exact := h.update id fun _ => rfl
      dsimp only
      split
      · exact (hmark.forgetJoin id).attach id
      · exact hmark
    · exact h
  · exact h

theorem Exact.takeInterrupt (h : s.Exact) (id : ThreadId) : (s.takeInterrupt id).2.Exact :=
  h.update id (f := fun t => { t with interrupted := false }) fun _ => rfl

theorem Exact.join (h : s.Exact) (waiter target : ThreadId) : (s.join waiter target).2.Exact := by
  unfold Scheduler.join
  split
  · split
    · have hlisted : (s.update target fun t => { t with joiners := t.joiners ++ [waiter] }).Exact :=
        h.update target fun _ => rfl
      exact hlisted.detach waiter .indefinite
    · exact h
  · exact h

theorem Exact.withoutCurrent (h : s.Exact) (id : ThreadId) : (s.withoutCurrent id).Exact :=
  h.of_same rfl fun _ => Iff.rfl

theorem Exact.terminate (h : s.Exact) (id : ThreadId) : (s.terminate id).2.Exact := by
  unfold Scheduler.terminate
  split
  · next t _ =>
    have hended : ((s.update id ended).withoutReady id).Exact := h.leaves_of_update fun _ => by simp [ended]
    exact ((hended.withoutCurrent id).forgetJoin id).attachAll t.joiners
  · exact h

theorem Exact.remove (h : s.Exact) (id : ThreadId) : (s.remove id).2.Exact := by
  refine h.leaves rfl fun j => ?_
  unfold MayRun
  rw [get?_remove]
  by_cases hj : id = j
  · subst hj
    simp
  · simp [hj, Ne.symm hj]

theorem get?_reap (s : Scheduler σ) (j : ThreadId) : s.reap.2.get? j = (s.get? j).filter Thread.isAlive := by
  unfold reap get?
  exact Std.ExtTreeMap.getElem?_filter'

theorem Exact.reap (h : s.Exact) : s.reap.2.Exact := by
  refine h.of_same rfl fun j => ?_
  unfold MayRun
  rw [get?_reap]
  constructor
  · rintro ⟨t, ht, hready⟩
    exact ⟨t, (Option.filter_eq_some_iff.1 ht).1, hready⟩
  · rintro ⟨t, ht, hready⟩
    have halive : t.isAlive = true := by simp [Thread.isAlive, hready]
    exact ⟨t, Option.filter_eq_some_iff.2 ⟨ht, halive⟩, hready⟩

theorem get?_insert (s : Scheduler σ) (t : Thread σ) (j : ThreadId) :
    (s.insert t).get? j = if t.id = j then some t else s.get? j :=
  Maps.getElem?_insert_eq s.threads t.id j t

/-- A record under a new number joins the rotation when it says that its thread may run. -/
theorem Exact.insert (h : s.Exact) {t : Thread σ} (hnew : s.get? t.id = none) : (s.insert t).Exact := by
  have hnot : ¬ s.MayRun t.id := by simp [MayRun, hnew]
  have hrun : ∀ j, (s.insert t).MayRun j ↔ s.MayRun j ∨ j = t.id ∧ t.state = .ready := by
    intro j
    unfold MayRun
    rw [get?_insert]
    by_cases hj : t.id = j
    · subst hj
      simp [hnew]
    · simp [hj, Ne.symm hj]
  by_cases hready : t.state = .ready
  · apply h.enters hnot
    · simp [Scheduler.insert, hready]
    · simpa [hready] using hrun
  · apply h.of_same
    · simp [Scheduler.insert, hready]
    · simpa [hready] using hrun

theorem Exact.serve (h : s.Exact) (r : HostRequest) : (s.serve r).Exact := by
  cases r with
  | attach id => exact h.attach id
  | interrupt id => exact h.interrupt id
  | stop => exact h

theorem Exact.drain (h : s.Exact) : s.drain.2.Exact := by
  have hserved : ∀ (requests : List HostRequest) (s : Scheduler σ), s.Exact →
      (requests.foldl Scheduler.serve s).Exact := by
    intro requests
    induction requests with
    | nil => exact fun s h => h
    | cons r requests ih => exact fun s h => ih _ (h.serve r)
  exact hserved s.requests _ (h.of_same rfl fun _ => Iff.rfl)

/-- A record that goes on: its number stays, and a thread that has ended does not come back. -/
structure Ages (t t' : Thread σ) : Prop where
  id : t'.id = t.id
  ended : t.state = .terminated → t'.state = .terminated

theorem Ages.refl (t : Thread σ) : Ages t t := ⟨rfl, fun ht => ht⟩

theorem Ages.trans {t u v : Thread σ} (h : Ages t u) (h' : Ages u v) : Ages t v :=
  ⟨h'.id.trans h.id, fun ht => h'.ended (h.ended ht)⟩

theorem ages_woken (t : Thread σ) : Ages t t.woken := by
  unfold Thread.woken
  split
  · next hd =>
    refine ⟨rfl, fun ht => ?_⟩
    simp [Thread.isDetached, ht] at hd
  · exact .refl t

/-- Every record goes on, and no thread is made or removed. -/
abbrev GoesOn (s s' : Scheduler σ) : Prop := Pointwise Ages s s'

theorem GoesOn.refl (s : Scheduler σ) : GoesOn s s := Pointwise.refl Ages.refl s

theorem GoesOn.trans {s s' s'' : Scheduler σ} (h : GoesOn s s') (h' : GoesOn s' s'') : GoesOn s s'' :=
  Pointwise.trans (R := Ages) (fun _ _ _ => Ages.trans) h h'

theorem goesOn_of_threads_eq (ht : s'.threads = s.threads) (hn : s'.nextId = s.nextId) : GoesOn s s' :=
  pointwise_of_threads_eq Ages.refl ht hn

theorem update_goesOn (s : Scheduler σ) (id : ThreadId) {f : Thread σ → Thread σ} (hf : ∀ t, Ages t (f t)) :
    GoesOn s (s.update id f) := s.update_pointwise Ages.refl id hf

theorem attach_goesOn (s : Scheduler σ) (id : ThreadId) : GoesOn s (s.attach id).2 := by
  refine ⟨nextId_attach s id, fun j => ?_⟩
  rw [get?_attach]
  cases s.get? j with
  | none => simp
  | some t =>
    split
    · exact .some (ages_woken t)
    · exact .some (.refl t)

theorem attachAll_goesOn (ids : List ThreadId) (s : Scheduler σ) : GoesOn s (s.attachAll ids) := by
  induction ids generalizing s with
  | nil => exact .refl s
  | cons id ids ih => exact (s.attach_goesOn id).trans (ih (s.attach id).2)

theorem next_goesOn (s : Scheduler σ) : GoesOn s s.next.2 := by
  have hwoken := attachAll_goesOn s.expired s
  unfold next
  dsimp only
  split
  · exact hwoken
  · exact hwoken.trans (goesOn_of_threads_eq rfl rfl)

theorem forgetJoin_goesOn (s : Scheduler σ) (waiter : ThreadId) : GoesOn s (s.forgetJoin waiter) := by
  refine ⟨rfl, fun j => ?_⟩
  rw [get?_forgetJoin]
  cases s.get? j with
  | none => exact .none
  | some t => exact .some ⟨rfl, fun ht => ht⟩

theorem interrupt_goesOn (s : Scheduler σ) (id : ThreadId) : GoesOn s (s.interrupt id).2 := by
  have hmark : GoesOn s (s.update id fun t => { t with interrupted := true }) :=
    s.update_goesOn id fun _ => ⟨rfl, fun ht => ht⟩
  unfold interrupt
  split
  · split
    · dsimp only
      split
      · exact hmark.trans ((forgetJoin_goesOn _ id).trans (attach_goesOn _ id))
      · exact hmark
    · exact .refl s
  · exact .refl s

theorem takeInterrupt_goesOn (s : Scheduler σ) (id : ThreadId) : GoesOn s (s.takeInterrupt id).2 :=
  s.update_goesOn id (f := fun t => { t with interrupted := false }) fun _ => ⟨rfl, fun ht => ht⟩

theorem detach_goesOn (s : Scheduler σ) (id : ThreadId) (timeout : Timeout) :
    GoesOn s (s.detach id timeout).2 := by
  unfold detach
  split
  · next t ht =>
    split
    · next halive =>
      have hstate : GoesOn s (s.update id fun t => { t with state := detachedState s.now timeout }) := by
        refine ⟨rfl, fun j => ?_⟩
        rw [get?_update]
        by_cases hj : id = j
        · subst hj
          rw [if_pos rfl, ht]
          refine .some ⟨rfl, fun hended => ?_⟩
          simp [Thread.isAlive, hended] at halive
        · rw [if_neg hj]
          exact (GoesOn.refl s).record j
      exact hstate.trans (goesOn_of_threads_eq rfl rfl)
    · exact .refl s
  · exact .refl s

theorem join_goesOn (s : Scheduler σ) (waiter target : ThreadId) : GoesOn s (s.join waiter target).2 := by
  unfold join
  split
  · split
    · have hlisted : GoesOn s (s.update target fun t => { t with joiners := t.joiners ++ [waiter] }) :=
        s.update_goesOn target fun _ => ⟨rfl, fun ht => ht⟩
      exact hlisted.trans (detach_goesOn _ waiter .indefinite)
    · exact .refl s
  · exact .refl s

theorem terminate_goesOn (s : Scheduler σ) (id : ThreadId) : GoesOn s (s.terminate id).2 := by
  unfold terminate
  split
  · next t _ =>
    have hended : GoesOn s (s.update id ended) := s.update_goesOn id fun _ => ⟨rfl, fun _ => rfl⟩
    have hout : GoesOn (s.update id ended) (((s.update id ended).withoutReady id).withoutCurrent id) :=
      goesOn_of_threads_eq rfl rfl
    exact hended.trans (hout.trans ((forgetJoin_goesOn _ id).trans (attachAll_goesOn t.joiners _)))
  · exact .refl s

theorem serve_goesOn (s : Scheduler σ) (r : HostRequest) : GoesOn s (s.serve r) := by
  cases r with
  | attach id => exact s.attach_goesOn id
  | interrupt id => exact s.interrupt_goesOn id
  | stop => exact .refl s

theorem drain_goesOn (s : Scheduler σ) : GoesOn s s.drain.2 := by
  have hserved : ∀ (requests : List HostRequest) (s : Scheduler σ), GoesOn s (requests.foldl serve s) := by
    intro requests
    induction requests with
    | nil => exact fun s => .refl s
    | cons r requests ih => exact fun s => (s.serve_goesOn r).trans (ih (s.serve r))
  have htaken : GoesOn s { s with requests := [] } := goesOn_of_threads_eq rfl rfl
  exact htaken.trans (hserved s.requests _)

/-- The rotation is exact, and records stand under their own numbers, which are all in use. -/
structure Sound (s : Scheduler σ) : Prop extends s.Exact where
  numbered : s.Numbered
  keyed : ∀ id t, s.get? id = some t → t.id = id

theorem Sound.goesOn (h : s.Sound) (hg : GoesOn s s') (hx : s'.Exact) : s'.Sound := by
  refine ⟨hx, hg.numbered h.numbered, fun id t' ht' => ?_⟩
  obtain ⟨t, ht, hages⟩ := hg.exists_of_some' ht'
  rw [hages.id]
  exact h.keyed id t ht

/-- Records that are taken out leave the others as they are. -/
theorem Sound.sublist (h : s.Sound) (hn : s'.nextId = s.nextId)
    (hg : ∀ id t, s'.get? id = some t → s.get? id = some t) (hx : s'.Exact) : s'.Sound := by
  refine ⟨hx, fun id t ht => ?_, fun id t ht => h.keyed id t (hg id t ht)⟩
  rw [hn]
  exact h.numbered id t (hg id t ht)

theorem insert_numbered (h : s.Numbered) {t : Thread σ} (hid : t.id < 0xffffffff) : (s.insert t).Numbered := by
  have hnext : (s.insert t).nextId = if s.nextId ≤ t.id + 1 then t.id + 1 else s.nextId := rfl
  have hsucc : t.id < t.id + 1 := by
    have hlt : t.id.toNat < 4294967295 := hid
    rw [UInt32.lt_iff_toNat_lt, UInt32.toNat_add]
    simp only [UInt32.toNat_one]
    omega
  intro id u hu
  rw [hnext]
  rw [get?_insert] at hu
  split at hu
  · next heq =>
    subst heq
    split
    · exact hsucc
    · next hle =>
      exact UInt32.lt_of_lt_of_le hsucc (UInt32.le_of_lt (UInt32.not_le.1 hle))
  · have hlt := h id u hu
    split
    · next hle => exact UInt32.lt_of_lt_of_le hlt hle
    · exact hlt

theorem insert_keyed (h : ∀ id u, s.get? id = some u → u.id = id) (t : Thread σ) :
    ∀ id u, (s.insert t).get? id = some u → u.id = id := by
  intro id u hu
  rw [get?_insert] at hu
  split at hu
  · next heq =>
    cases hu
    exact heq
  · exact h id u hu

theorem Sound.insert (h : s.Sound) {t : Thread σ} (hnew : s.get? t.id = none) (hid : t.id < 0xffffffff) :
    (s.insert t).Sound :=
  ⟨h.toExact.insert hnew, insert_numbered h.numbered hid, insert_keyed h.keyed t⟩

/-- The next number is nobody's. -/
theorem Sound.get?_nextId (h : s.Sound) : s.get? s.nextId = none := by
  cases ht : s.get? s.nextId with
  | none => rfl
  | some t => exact absurd (h.numbered _ t ht) (UInt32.lt_irrefl _)

theorem Sound.spawn (h : s.Sound) (hn : s.nextId < 0xffffffff) (object : Ref) (stack : σ) :
    (s.spawn object stack).2.Sound := by
  have hsucc : s.nextId < s.nextId + 1 := by
    have hlt : s.nextId.toNat < 4294967295 := hn
    rw [UInt32.lt_iff_toNat_lt, UInt32.toNat_add]
    simp only [UInt32.toNat_one]
    omega
  have hbumped : ({ s with nextId := s.nextId + 1 } : Scheduler σ).Sound := by
    refine ⟨h.toExact.of_same rfl fun _ => Iff.rfl, fun id t ht => ?_, h.keyed⟩
    exact UInt32.lt_trans (h.numbered id t ht) hsucc
  exact hbumped.insert h.get?_nextId hn

/-- What one command does to a record that stays. -/
theorem Command.ages {c : Command σ} (h : s.Sound) (hc : c.Allowed s) {t t' : Thread σ}
    (ht : s.get? id = some t) (ht' : (c.run s).get? id = some t') : Ages t t' := by
  have hgoes : ∀ {s'}, GoesOn s s' → s'.get? id = some t' → Ages t t' := by
    intro s' hg ht'
    obtain ⟨t₀, ht₀, hages⟩ := hg.exists_of_some' ht'
    cases ht.symm.trans ht₀
    exact hages
  have hsame : s.get? id = some t' → Ages t t' := by
    intro ht₀
    cases ht.symm.trans ht₀
    exact .refl t
  cases c with
  | spawn object stack =>
    change (s.spawn object stack).2.get? id = some t' at ht'
    rw [get?_spawn] at ht'
    split at ht'
    · next heq => cases (heq ▸ h.get?_nextId).symm.trans ht
    · exact hsame ht'
  | insert u =>
    change (s.insert u).get? id = some t' at ht'
    rw [get?_insert] at ht'
    split at ht'
    · next heq => cases (heq ▸ hc.1).symm.trans ht
    · exact hsame ht'
  | next => exact hgoes s.next_goesOn ht'
  | endSlice => exact hsame ht'
  | detach id timeout => exact hgoes (s.detach_goesOn id timeout) ht'
  | attach id => exact hgoes (s.attach_goesOn id) ht'
  | wakeExpired => exact hgoes (attachAll_goesOn s.expired s) ht'
  | interrupt id => exact hgoes (s.interrupt_goesOn id) ht'
  | takeInterrupt id => exact hgoes (s.takeInterrupt_goesOn id) ht'
  | join waiter target => exact hgoes (s.join_goesOn waiter target) ht'
  | terminate id => exact hgoes (s.terminate_goesOn id) ht'
  | remove j =>
    change (s.remove j).2.get? id = some t' at ht'
    rw [get?_remove] at ht'
    split at ht'
    · cases ht'
    · exact hsame ht'
  | reap =>
    change s.reap.2.get? id = some t' at ht'
    rw [get?_reap] at ht'
    exact hsame (Option.filter_eq_some_iff.1 ht').1
  | send r => exact hsame ht'
  | drain => exact hgoes s.drain_goesOn ht'
  | tick now => exact hsame ht'

/-- What one command preserves. -/
theorem Sound.step (h : s.Sound) (c : Command σ) (hc : c.Allowed s) : (c.run s).Sound := by
  have hx := h.toExact
  have hsame : ∀ {s' : Scheduler σ}, s'.threads = s.threads → s'.nextId = s.nextId → s'.ready = s.ready →
      s'.Sound := by
    intro s' ht hn hr
    have hget : ∀ j, s'.get? j = s.get? j := fun j => by rw [get?, ht]; rfl
    apply h.goesOn (goesOn_of_threads_eq ht hn)
    exact hx.of_same hr (mayRun_congr fun j => by rw [hget])
  cases c with
  | spawn object stack => exact h.spawn hc object stack
  | insert t => exact h.insert hc.1 hc.2
  | next => exact h.goesOn s.next_goesOn hx.next
  | endSlice => exact hsame rfl rfl rfl
  | detach id timeout => exact h.goesOn (s.detach_goesOn id timeout) (hx.detach id timeout)
  | attach id => exact h.goesOn (s.attach_goesOn id) (hx.attach id)
  | wakeExpired => exact h.goesOn (attachAll_goesOn s.expired s) (hx.attachAll s.expired)
  | interrupt id => exact h.goesOn (s.interrupt_goesOn id) (hx.interrupt id)
  | takeInterrupt id => exact h.goesOn (s.takeInterrupt_goesOn id) (hx.takeInterrupt id)
  | join waiter target => exact h.goesOn (s.join_goesOn waiter target) (hx.join waiter target)
  | terminate id => exact h.goesOn (s.terminate_goesOn id) (hx.terminate id)
  | remove id =>
    refine h.sublist rfl (fun j t ht => ?_) (hx.remove id)
    change (s.remove id).2.get? j = some t at ht
    rw [get?_remove] at ht
    split at ht
    · cases ht
    · exact ht
  | reap =>
    refine h.sublist rfl (fun j t ht => ?_) hx.reap
    change s.reap.2.get? j = some t at ht
    rw [get?_reap] at ht
    exact (Option.filter_eq_some_iff.1 ht).1
  | send r => exact hsame rfl rfl rfl
  | drain => exact h.goesOn s.drain_goesOn hx.drain
  | tick now => exact hsame rfl rfl rfl

theorem Reachable.sound (h : Reachable s) : s.Sound := by
  induction h with
  | start now =>
    have hnone : ∀ id, ({ now := now } : Scheduler σ).get? id = none := by simp [get?]
    constructor
    · constructor
      · simp
      · simp [MayRun, hnone]
    · simp [Numbered, hnone]
    · simp [hnone]
  | step _ c hc ih => exact ih.step c hc

/-- What a run preserves of a thread that has ended, as long as its record is there. -/
theorem Sound.ended_keeping (h : s.Sound) (hk : Keeping id s s') {t : Thread σ} (ht : s.get? id = some t)
    (hended : t.state = .terminated) : s'.Sound ∧ ∃ t', s'.get? id = some t' ∧ t'.state = .terminated := by
  induction hk with
  | here => exact ⟨h, t, ht, hended⟩
  | step _ c hc hkept ih =>
    obtain ⟨hsound, t₁, ht₁, hended₁⟩ := ih
    obtain ⟨t', ht'⟩ := Option.isSome_iff_exists.1 hkept
    exact ⟨hsound.step c hc, t', ht', (Command.ages hsound hc ht₁ ht').ended hended₁⟩

theorem get?_attachAll (ids : List ThreadId) (s : Scheduler σ) (j : ThreadId) :
    (s.attachAll ids).get? j = if j ∈ ids then (s.get? j).map Thread.woken else s.get? j := by
  have htwice : ∀ t : Thread σ, t.woken.woken = t.woken := by
    intro t
    have hready : ({ t with state := .ready } : Thread σ).isDetached = false := rfl
    by_cases hd : t.isDetached = true
    · simp only [Thread.woken, hd, hready, if_true, Bool.false_eq_true, if_false]
    · simp only [Thread.woken, hd, Bool.false_eq_true, if_false]
  induction ids generalizing s with
  | nil => simp [attachAll]
  | cons id ids ih =>
    have hrest : s.attachAll (id :: ids) = (s.attach id).2.attachAll ids := rfl
    rw [hrest, ih, get?_attach]
    by_cases hid : id = j
    · subst hid
      by_cases hmem : id ∈ ids <;> simp [hmem, htwice, Function.comp_def]
    · simp [hid, Ne.symm hid]

theorem Sound.mem_expired (h : s.Sound) :
    id ∈ s.expired ↔ ∃ t d, s.get? id = some t ∧ t.state = .detachedUntil d ∧ d ≤ s.now := by
  have hdue : ∀ t : Thread σ, t.deadline?.any (· ≤ s.now) = true ↔
      ∃ d, t.state = .detachedUntil d ∧ d ≤ s.now := by
    intro t
    unfold Thread.deadline?
    cases t.state <;> simp
  unfold expired toList
  simp only [List.mem_map, List.mem_filter, Maps.mem_values, hdue]
  constructor
  · rintro ⟨t, ⟨⟨k, hk⟩, d, hd⟩, rfl⟩
    rw [h.keyed k t hk]
    exact ⟨t, d, hk, hd⟩
  · rintro ⟨t, d, ht, hd⟩
    exact ⟨t, ⟨⟨id, ht⟩, d, hd⟩, h.keyed id t ht⟩

/-- After the timers that have expired, a thread may run that could before or whose time is up. -/
theorem Sound.mayRun_wakeExpired (h : s.Sound) (id : ThreadId) : s.wakeExpired.2.MayRun id ↔
    ∃ t, s.get? id = some t ∧ (t.state = .ready ∨ ∃ d, t.state = .detachedUntil d ∧ d ≤ s.now) := by
  have hget : s.wakeExpired.2.get? id = _ := get?_attachAll s.expired s id
  unfold MayRun
  rw [hget]
  by_cases hmem : id ∈ s.expired
  · obtain ⟨t, d, ht, hstate, hd⟩ := h.mem_expired.1 hmem
    have hready : t.woken.state = .ready := by simp [Thread.woken, Thread.isDetached, hstate]
    simp [hmem, ht, hready, hstate, hd]
  · rw [if_neg hmem]
    constructor
    · rintro ⟨t, ht, hready⟩
      exact ⟨t, ht, .inl hready⟩
    · rintro ⟨t, ht, hready | ⟨d, hstate, hd⟩⟩
      · exact ⟨t, ht, hready⟩
      · exact absurd (h.mem_expired.2 ⟨t, d, ht, hstate, hd⟩) hmem

theorem Exact.next_eq_none_iff (h : s.Exact) : s.next.1 = none ↔ ∀ id, ¬ s.wakeExpired.2.MayRun id := by
  have hwoken : s.wakeExpired.2.Exact := h.attachAll s.expired
  have hempty : s.next.1 = none ↔ s.wakeExpired.2.ready = [] := by
    unfold Scheduler.next
    dsimp only
    split
    · next hready => simp [hready]
    · next hready => simp [hready]
  rw [hempty, List.eq_nil_iff_forall_not_mem]
  exact forall_congr' fun id => not_congr (hwoken.mem_ready id)

/-- The rotation is exactly the threads that may run, whatever was done before; numbers in use lie
below the next one, a thread that has ended does not come back while its record is there, and nobody
is picked exactly when nobody may run once the timers that have expired are served. -/
theorem reachable_exact {s : Scheduler σ} (h : Reachable s) :
    s.ready.Nodup ∧
    (∀ id, id ∈ s.ready ↔ ∃ t, s.get? id = some t ∧ t.state = .ready) ∧
    (∀ id t, s.get? id = some t → id < s.nextId) ∧
    (∀ id t s', s.get? id = some t → t.state = .terminated → Keeping id s s' →
      ∃ t', s'.get? id = some t' ∧ t'.state = .terminated) ∧
    (s.next.1 = none ↔ ∀ id, ¬ s.wakeExpired.2.MayRun id) ∧
    ∀ id, s.wakeExpired.2.MayRun id ↔ ∃ t, s.get? id = some t ∧
      (t.state = .ready ∨ ∃ d, t.state = .detachedUntil d ∧ d ≤ s.now) := by
  have hs := h.sound
  refine ⟨hs.nodup, hs.mem_ready, hs.numbered, ?_, hs.toExact.next_eq_none_iff, hs.mayRun_wakeExpired⟩
  intro id t s' ht hended hk
  exact (hs.ended_keeping hk ht hended).2

/-- One thread has ended, one sleeps past its time, and one may run. -/
theorem reachable_three : ∃ s : Scheduler Unit, Reachable s ∧ s.ready = [2] ∧ s.next.1 = some 2 ∧
    (s.get? 1).map (·.state) = some .terminated ∧ (s.get? 3).map (·.state) = some (.detachedUntil 5) ∧
    s.now = 7 ∧ (3 ∉ s.ready ∧ s.wakeExpired.2.MayRun 3) := by
  have h₁ := (Reachable.start 0).step (.spawn Ref.null ()) (by decide)
  have h₂ := h₁.step (.spawn Ref.null ()) (by decide)
  have h₃ := h₂.step (.spawn Ref.null ()) (by decide)
  have h₄ := h₃.step (.terminate 1) trivial
  have h₅ := h₄.step (.detach 3 (.millis 5)) trivial
  have h₆ := h₅.step (.tick 7) (by decide)
  refine ⟨_, h₆, by decide, by decide, by decide, by decide, rfl, by decide, ?_⟩
  exact ((reachable_exact h₆).2.2.2.2.2 3).2 ⟨_, rfl, .inr ⟨5, by decide, by decide⟩⟩

end ClassMachine.Scheduler
