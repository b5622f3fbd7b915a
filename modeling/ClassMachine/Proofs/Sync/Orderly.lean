import ClassMachine.Proofs.Scheduler.Records
import ClassMachine.Proofs.Stateful
import ClassMachine.Proofs.Sync.Tokens
import ClassMachine.Scheduler.Sync

/-!
The order kept between monitors and threads. The tokens in the monitors, the monitors pending on
the thread records and the rotation say the same thing three times; an arena is orderly when they
agree, and every operation of a thread that may run keeps it so.
-/
namespace ClassMachine

theorem Heap.get?_update (h : Heap) (r j : Ref) (f : Object → Object) :
    (h.update r f).get? j = if r = j then (h.get? j).map f else h.get? j := by
  have hiff : r.handle = j.handle ↔ r = j := by
    cases r; cases j; simp
  unfold get? update
  rw [Maps.getElem?_modify_eq]
  simp only [hiff]

namespace Arena

variable {σ : Type}

def monitor? (a : Arena σ) (object : Ref) : Option Monitor := (a.heap.get? object).map (·.monitor)

/-- Where a thread stands that has a monitor pending: it waits, it is in line, or the monitor was
passed to it and it is about to run. -/
inductive Stands (m : Monitor) (thread : ThreadId) (record : Thread σ) (p : PendingMonitor) : Prop
  | waiting (hr : p.reason = .wait) (hw : p.token ∈ m.waiters)
  | queued (hq : p.token ∈ m.entrants)
  | handed (ho : m.owner = some thread) (hc : m.count = p.token.reentrancy)
      (hs : record.state = .ready)

structure Orderly (a : Arena σ) : Prop where
  sound : ∀ o m, a.monitor? o = some m → m.Sound
  waits : ∀ o m, a.monitor? o = some m → ∀ token ∈ m.waiters, ∃ r,
    a.scheduler.get? token.thread = some r ∧ r.pending = some ⟨o, token, .wait⟩
  queues : ∀ o m, a.monitor? o = some m → ∀ token ∈ m.entrants, ∃ r reason,
    a.scheduler.get? token.thread = some r ∧ r.pending = some ⟨o, token, reason⟩
  stands : ∀ t r p, a.scheduler.get? t = some r → r.pending = some p →
    p.token.thread = t ∧ r.isAlive = true ∧ ∃ m, a.monitor? p.object = some m ∧ Stands m t r p
  numbered : a.scheduler.Numbered
  rotates : a.scheduler.Rotates

/-- Less than order: tokens may be left of threads that have ended or are gone. -/
structure Claimed (a : Arena σ) : Prop where
  sound : ∀ o m, a.monitor? o = some m → m.Sound
  given : ∀ o m, a.monitor? o = some m → ∀ token ∈ m.tokens, token.thread < a.scheduler.nextId
  asks : ∀ o m, a.monitor? o = some m → ∀ token ∈ m.tokens, ∀ r, a.scheduler.get? token.thread = some r →
    r.isAlive = true → ∃ reason, r.pending = some ⟨o, token, reason⟩
  stands : ∀ t r p, a.scheduler.get? t = some r → r.pending = some p →
    p.token.thread = t ∧ r.isAlive = true ∧ ∃ m, a.monitor? p.object = some m ∧ Stands m t r p
  numbered : a.scheduler.Numbered
  rotates : a.scheduler.Rotates

theorem Orderly.claimed {a : Arena σ} (h : a.Orderly) : a.Claimed := by
  have hpending : ∀ o m, a.monitor? o = some m → ∀ token ∈ m.tokens, ∃ r reason,
      a.scheduler.get? token.thread = some r ∧ r.pending = some ⟨o, token, reason⟩ := by
    intro o m hm token htoken
    rcases List.mem_append.1 htoken with hw | hq
    · obtain ⟨r, hr, hp⟩ := h.waits o m hm token hw
      exact ⟨r, .wait, hr, hp⟩
    · exact h.queues o m hm token hq
  refine ⟨h.sound, fun o m hm token htoken => ?_, fun o m hm token htoken r hr _ => ?_, h.stands, h.numbered,
    h.rotates⟩
  · obtain ⟨r, _, hr, _⟩ := hpending o m hm token htoken
    exact h.numbered _ r hr
  · obtain ⟨r', reason, hr', hp⟩ := hpending o m hm token htoken
    cases hr.symm.trans hr'
    exact ⟨reason, hp⟩

/-- A live thread without a pending monitor has no token anywhere. -/
theorem Claimed.absent {a : Arena σ} (h : a.Claimed) {t : ThreadId} {r : Thread σ}
    (hr : a.scheduler.get? t = some r) (halive : r.isAlive = true) {o : Ref} {m : Monitor}
    (hm : a.monitor? o = some m) (hp : ∀ p, r.pending = some p → p.object ≠ o) : m.Absent t := by
  rintro token htoken rfl
  obtain ⟨reason, hpending⟩ := h.asks o m hm token htoken r hr halive
  exact hp _ hpending rfl

theorem Stands.woken {m : Monitor} {t : ThreadId} {r r' : Thread σ} {p : PendingMonitor}
    (h : Stands m t r p) (hw : Thread.Woken r r') : Stands m t r' p := by
  cases h with
  | waiting hr hw => exact .waiting hr hw
  | queued hq => exact .queued hq
  | handed ho hc hs =>
    refine .handed ho hc ?_
    rcases hw.state with he | ⟨_, he⟩
    · exact he.trans hs
    · exact he

/-- A thread is at most woken, or it has no monitor pending before and after. -/
def Undisturbed (r r' : Thread σ) : Prop := r.Woken r' ∨ r.pending = none ∧ r'.pending = none

theorem Undisturbed.pending {r r' : Thread σ} (h : Undisturbed r r') : r'.pending = r.pending := by
  rcases h with hw | ⟨hp, hp'⟩
  · exact hw.pending
  · rw [hp, hp']

theorem Undisturbed.woken {r r' : Thread σ} {p : PendingMonitor} (h : Undisturbed r r')
    (hp : r.pending = some p) : r.Woken r' := by
  rcases h with hw | ⟨hp', _⟩
  · exact hw
  · rw [hp] at hp'
    cases hp'

/-- Whatever happens to threads without a pending monitor is in order, as long as only threads
that may run get into the rotation. -/
theorem Orderly.undisturbed {a : Arena σ} (h : a.Orderly) {s : Scheduler σ}
    (hw : a.scheduler.Pointwise Undisturbed s) (hr : s.Rotates) :
    ({ a with scheduler := s } : Arena σ).Orderly where
  sound := h.sound
  waits o m hm token htoken := by
    obtain ⟨r, hr, hp⟩ := h.waits o m hm token htoken
    obtain ⟨r', hr', hw'⟩ := hw.exists_of_some hr
    exact ⟨r', hr', hw'.pending.trans hp⟩
  queues o m hm token htoken := by
    obtain ⟨r, reason, hr, hp⟩ := h.queues o m hm token htoken
    obtain ⟨r', hr', hw'⟩ := hw.exists_of_some hr
    exact ⟨r', reason, hr', hw'.pending.trans hp⟩
  stands t r' p hr' hp := by
    obtain ⟨r, hr, hw'⟩ := hw.exists_of_some' hr'
    have hp₀ := hw'.pending.symm.trans hp
    obtain ⟨ht, ha, m, hm, hst⟩ := h.stands t r p hr hp₀
    exact ⟨ht, (hw'.woken hp₀).isAlive ha, m, hm, hst.woken (hw'.woken hp₀)⟩
  numbered := hw.numbered h.numbered
  rotates := hr

theorem Orderly.wakes {a : Arena σ} (h : a.Orderly) {s : Scheduler σ} (hw : a.scheduler.Wakes s)
    (hr : s.Rotates) : ({ a with scheduler := s } : Arena σ).Orderly :=
  h.undisturbed (hw.mono fun _ _ hw => .inl hw) hr

theorem detach_undisturbed {s : Scheduler σ} {t : ThreadId} {r : Thread σ}
    (hr : s.get? t = some r) (hp : r.pending = none) (timeout : Timeout) :
    s.Pointwise Undisturbed (s.detach t timeout).2 := by
  refine ⟨Scheduler.nextId_detach s t timeout, fun u => ?_⟩
  rw [Scheduler.get?_detach]
  split
  · next hu =>
    subst hu
    rw [hr]
    refine .some (.inr ⟨hp, ?_⟩)
    dsimp only
    split <;> exact hp
  · exact (Scheduler.Pointwise.refl (fun r => .inl (.refl r)) s).record u

theorem terminate_undisturbed {s : Scheduler σ} {t : ThreadId} {r : Thread σ}
    (hr : s.get? t = some r) (hp : r.pending = none) :
    s.Pointwise Undisturbed (s.terminate t).2 := by
  have hw := s.terminate_wakes t
  refine ⟨hw.nextId, fun u => ?_⟩
  have hu := hw.record u
  rw [Scheduler.get?_update] at hu
  split at hu
  · next heq =>
    subst heq
    rw [hr] at hu ⊢
    generalize (s.terminate t).2.get? t = after at *
    cases hu with
    | some hwoken => exact .some (.inr ⟨hp, hwoken.pending⟩)
  · generalize s.get? u = before at *
    generalize (s.terminate t).2.get? u = after at *
    cases hu with
    | none => exact .none
    | some hwoken => exact .some (.inl hwoken)

/-- A new thread has no monitor pending, and its number is no other thread's. -/
theorem Orderly.spawn {a : Arena σ} (h : a.Orderly) (hn : a.scheduler.nextId ≠ 0xffffffff)
    (object : Ref) (stack : σ) :
    ({ a with scheduler := (a.scheduler.spawn object stack).2 } : Arena σ).Orderly := by
  have hold : ∀ id r, a.scheduler.get? id = some r →
      (a.scheduler.spawn object stack).2.get? id = some r := by
    intro id r hr
    rw [Scheduler.get?_spawn, if_neg]
    · exact hr
    · intro heq
      subst heq
      exact absurd (h.numbered _ r hr) (by simp)
  refine ⟨h.sound, fun o m hm token htoken => ?_, fun o m hm token htoken => ?_,
    fun t r p hr hp => ?_, Scheduler.spawn_numbered h.numbered hn object stack,
    Scheduler.spawn_rotates h.rotates object stack⟩
  · obtain ⟨r, hr, hp⟩ := h.waits o m hm token htoken
    exact ⟨r, hold _ r hr, hp⟩
  · obtain ⟨r, reason, hr, hp⟩ := h.queues o m hm token htoken
    exact ⟨r, reason, hold _ r hr, hp⟩
  · change (a.scheduler.spawn object stack).2.get? t = some r at hr
    rw [Scheduler.get?_spawn] at hr
    split at hr
    · cases hr
      cases hp
    · exact h.stands t r p hr hp

/-- A thread without a pending monitor has no token anywhere. -/
theorem Orderly.absent {a : Arena σ} (h : a.Orderly) {t : ThreadId} {r : Thread σ}
    (hr : a.scheduler.get? t = some r) {o : Ref} {m : Monitor} (hm : a.monitor? o = some m)
    (hp : ∀ p, r.pending = some p → p.object ≠ o) : m.Absent t := by
  intro token htoken heq
  rcases List.mem_append.1 htoken with hw | hq
  · obtain ⟨r', hr', hp'⟩ := h.waits o m hm token hw
    rw [heq, hr] at hr'
    cases hr'
    exact hp _ hp' rfl
  · obtain ⟨r', reason, hr', hp'⟩ := h.queues o m hm token hq
    rw [heq, hr] at hr'
    cases hr'
    exact hp _ hp' rfl

/-- What a thread leaves behind on the monitor of `o`: `m` in place of the monitor, its own record
`r`, and the thread `next` awake that the monitor was passed to. -/
structure Leaves (a a' : Arena σ) (thread : ThreadId) (o : Ref) (next : Option WaitToken)
    (m : Monitor) (r : Thread σ) : Prop where
  monitors : ∀ j, a'.monitor? j = if o = j then some m else a.monitor? j
  nextId : a'.scheduler.nextId = a.scheduler.nextId
  rotates : a'.scheduler.Rotates
  others : ∀ u, u ≠ thread → Option.Rel Thread.Woken (a.scheduler.get? u) (a'.scheduler.get? u)
  awake : ∀ n, next = some n → n.thread ≠ thread → ∀ r, a.scheduler.get? n.thread = some r →
    a'.scheduler.get? n.thread = some r.woken
  self : a'.scheduler.get? thread = some r

/-- The record of a thread agrees with its token in the monitor. -/
def Agrees (m : Monitor) (thread : ThreadId) (o : Ref) (r : Thread σ) : Prop :=
  match r.pending with
  | none => m.Absent thread
  | some p => p.object = o ∧ p.token.thread = thread ∧ r.isAlive = true ∧
      (p.reason = .wait ∧ p.token ∈ m.waiters ∨ p.token ∈ m.entrants)

theorem Agrees.pending_eq {m : Monitor} (hm : m.Placed) {t : ThreadId} {o : Ref} {r : Thread σ}
    (h : Agrees m t o r) {token : WaitToken} (ht : token ∈ m.tokens) (heq : token.thread = t) :
    ∃ reason, r.pending = some ⟨o, token, reason⟩ ∧ (token ∈ m.waiters → reason = .wait) := by
  unfold Agrees at h
  cases hp : r.pending with
  | none =>
    rw [hp] at h
    exact absurd heq (h token ht)
  | some p =>
    rw [hp] at h
    obtain ⟨ho, hthread, _, hplace⟩ := h
    have hmem : p.token ∈ m.tokens := by
      rcases hplace with ⟨_, hw⟩ | hq
      · exact List.mem_append_left _ hw
      · exact List.mem_append_right _ hq
    have htoken : token = p.token := hm.eq_of_thread_eq ht hmem (heq.trans hthread.symm)
    refine ⟨p.reason, by rw [htoken, ← ho], fun hw => ?_⟩
    rcases hplace with ⟨hreason, _⟩ | hq
    · exact hreason
    · rw [htoken] at hw
      exact absurd hq (hm.not_both hw)

section Leaves

variable {a a' : Arena σ} {t : ThreadId} {o : Ref} {next : Option WaitToken} {m m' : Monitor}
  {r r' : Thread σ}

/-- The record another thread had. -/
theorem Leaves.exists_before (hl : Leaves a a' t o next m' r') {u : ThreadId} {s' : Thread σ}
    (hu : u ≠ t) (hs' : a'.scheduler.get? u = some s') :
    ∃ s, a.scheduler.get? u = some s ∧ Thread.Woken s s' := by
  have hrel := hl.others u hu
  rw [hs'] at hrel
  generalize a.scheduler.get? u = before at *
  cases hrel with
  | some hw => exact ⟨_, rfl, hw⟩

/-- The record another thread has. -/
theorem Leaves.exists_after (hl : Leaves a a' t o next m' r') {u : ThreadId} {s : Thread σ}
    (hu : u ≠ t) (hs : a.scheduler.get? u = some s) :
    ∃ s', a'.scheduler.get? u = some s' ∧ Thread.Woken s s' := by
  have hrel := hl.others u hu
  rw [hs] at hrel
  generalize a'.scheduler.get? u = after at *
  cases hrel with
  | some hw => exact ⟨_, rfl, hw⟩

/-- On another monitor the thread has no token. -/
theorem Orderly.absent_elsewhere (h : a.Orderly) (hr : a.scheduler.get? t = some r)
    (hp : ∀ p, r.pending = some p → p.object = o) {j : Ref} {n : Monitor} (hj : o ≠ j)
    (hn : a.monitor? j = some n) : n.Absent t :=
  h.absent hr hn fun p hpp he => hj ((hp p hpp).symm.trans he)

theorem Orderly.leaves_waits (h : a.Orderly) (hm : a.monitor? o = some m)
    (hr : a.scheduler.get? t = some r) (hp : ∀ p, r.pending = some p → p.object = o)
    (hl : Leaves a a' t o next m' r') (hs : m'.Sound) (hmv : Monitor.Moves t next m m')
    (hag : Agrees m' t o r') {j : Ref} {n : Monitor} (hj : a'.monitor? j = some n)
    {token : WaitToken} (htoken : token ∈ n.waiters) :
    ∃ s, a'.scheduler.get? token.thread = some s ∧ s.pending = some ⟨j, token, .wait⟩ := by
  rw [hl.monitors] at hj
  split at hj
  · next hoj =>
    cases hj
    subst hoj
    by_cases ht : token.thread = t
    · obtain ⟨reason, hpend, hwait⟩ :=
        hag.pending_eq hs.toPlaced (List.mem_append_left _ htoken) ht
      rw [hwait htoken] at hpend
      exact ⟨r', ht ▸ hl.self, hpend⟩
    · obtain ⟨s, hs, hps⟩ := h.waits o m hm token (hmv.waiting token htoken ht)
      obtain ⟨s', hs', hw⟩ := hl.exists_after ht hs
      exact ⟨s', hs', hw.pending.trans hps⟩
  · next hoj =>
    obtain ⟨s, hs, hps⟩ := h.waits j n hj token htoken
    have ht := h.absent_elsewhere hr hp hoj hj token (List.mem_append_left _ htoken)
    obtain ⟨s', hs', hw⟩ := hl.exists_after ht hs
    exact ⟨s', hs', hw.pending.trans hps⟩

theorem Orderly.leaves_queues (h : a.Orderly) (hm : a.monitor? o = some m)
    (hr : a.scheduler.get? t = some r) (hp : ∀ p, r.pending = some p → p.object = o)
    (hl : Leaves a a' t o next m' r') (hs : m'.Sound) (hmv : Monitor.Moves t next m m')
    (hag : Agrees m' t o r') {j : Ref} {n : Monitor} (hj : a'.monitor? j = some n)
    {token : WaitToken} (htoken : token ∈ n.entrants) :
    ∃ s reason, a'.scheduler.get? token.thread = some s ∧
      s.pending = some ⟨j, token, reason⟩ := by
  rw [hl.monitors] at hj
  split at hj
  · next hoj =>
    cases hj
    subst hoj
    by_cases ht : token.thread = t
    · obtain ⟨reason, hpend, _⟩ :=
        hag.pending_eq hs.toPlaced (List.mem_append_right _ htoken) ht
      exact ⟨r', reason, ht ▸ hl.self, hpend⟩
    · have hold : ∃ s reason, a.scheduler.get? token.thread = some s ∧
          s.pending = some ⟨o, token, reason⟩ := by
        rcases List.mem_append.1 (hmv.queued token htoken ht) with hw | hq
        · obtain ⟨s, hs, hps⟩ := h.waits o m hm token hw
          exact ⟨s, .wait, hs, hps⟩
        · exact h.queues o m hm token hq
      obtain ⟨s, reason, hs, hps⟩ := hold
      obtain ⟨s', hs', hw⟩ := hl.exists_after ht hs
      exact ⟨s', reason, hs', hw.pending.trans hps⟩
  · next hoj =>
    obtain ⟨s, reason, hs, hps⟩ := h.queues j n hj token htoken
    have ht := h.absent_elsewhere hr hp hoj hj token (List.mem_append_right _ htoken)
    obtain ⟨s', hs', hw⟩ := hl.exists_after ht hs
    exact ⟨s', reason, hs', hw.pending.trans hps⟩

/-- The other threads still stand where their records say. -/
theorem Claimed.leaves_stands (h : a.Claimed) (hm : a.monitor? o = some m)
    (hl : Leaves a a' t o next m' r') (hmv : Monitor.Moves t next m m') {u : ThreadId}
    {s s' : Thread σ} {p : PendingMonitor} (hu : u ≠ t) (hs : a.scheduler.get? u = some s)
    (hs' : a'.scheduler.get? u = some s') (hw : Thread.Woken s s') (hps : s.pending = some p) :
    ∃ n, a'.monitor? p.object = some n ∧ Stands n u s' p := by
  obtain ⟨hthread, halive, n, hn, hst⟩ := h.stands u s p hs hps
  by_cases hoj : o = p.object
  · subst hoj
    rw [hm] at hn
    cases hn
    refine ⟨m', by rw [hl.monitors, if_pos rfl], ?_⟩
    have htu : p.token.thread ≠ t := hthread ▸ hu
    cases hst with
    | waiting hreason hwait =>
      rcases List.mem_append.1 (hmv.waits p.token hwait htu) with hw' | hq'
      · exact .waiting hreason hw'
      · exact .queued hq'
    | queued hq =>
      rcases hmv.queues p.token hq htu with hq' | ⟨hnext, howner, hcount⟩
      · exact .queued hq'
      · have hready := hl.awake p.token hnext htu s (hthread ▸ hs)
        rw [hthread, hs'] at hready
        cases hready
        exact .handed (hthread ▸ howner) hcount (Thread.state_woken halive)
    | handed howner hcount hready =>
      obtain ⟨howner', hcount'⟩ := hmv.owns u hu howner
      exact (Stands.handed howner' (hcount'.trans hcount) hready).woken hw
  · exact ⟨n, by rw [hl.monitors, if_neg hoj]; exact hn, hst.woken hw⟩

/-- What such an operation leaves of the order on its own account. -/
theorem Claimed.leaves_settled (h : a.Claimed) (hr : a.scheduler.get? t = some r) (hm : a.monitor? o = some m)
    (hl : Leaves a a' t o next m' r') (hs : m'.Sound) (hmv : Monitor.Moves t next m m')
    (hag : Agrees m' t o r') :
    (∀ j n, a'.monitor? j = some n → n.Sound) ∧
      (∀ u s p, a'.scheduler.get? u = some s → s.pending = some p →
        p.token.thread = u ∧ s.isAlive = true ∧ ∃ n, a'.monitor? p.object = some n ∧ Stands n u s p) ∧
      a'.scheduler.Numbered := by
  refine ⟨fun j n hj => ?_, fun u s' p hs' hps' => ?_, fun u s' hs' => ?_⟩
  · rw [hl.monitors] at hj
    split at hj
    · cases hj; exact hs
    · exact h.sound j n hj
  · by_cases hu : u = t
    · subst hu
      rw [hl.self] at hs'
      cases hs'
      unfold Agrees at hag
      rw [hps'] at hag
      obtain ⟨ho, hthread, halive, hplace⟩ := hag
      refine ⟨hthread, halive, m', by rw [hl.monitors, if_pos ho.symm], ?_⟩
      rcases hplace with ⟨hreason, hw⟩ | hq
      · exact .waiting hreason hw
      · exact .queued hq
    · obtain ⟨s, hs₀, hw⟩ := hl.exists_before hu hs'
      have hps := hw.pending.symm.trans hps'
      obtain ⟨hthread, halive, _⟩ := h.stands u s p hs₀ hps
      exact ⟨hthread, hw.isAlive halive, h.leaves_stands hm hl hmv hu hs₀ hs' hw hps⟩
  · rw [hl.nextId]
    by_cases hu : u = t
    · exact hu ▸ h.numbered t r hr
    · obtain ⟨s, hs₀, _⟩ := hl.exists_before hu hs'
      exact h.numbered u s hs₀

/-- An operation of one thread on one monitor is in order when it moves the tokens of the others
onward and leaves its own record in agreement with its own token. -/
theorem Orderly.leaves (h : a.Orderly) (hm : a.monitor? o = some m)
    (hr : a.scheduler.get? t = some r) (hp : ∀ p, r.pending = some p → p.object = o)
    (hl : Leaves a a' t o next m' r') (hs : m'.Sound) (hmv : Monitor.Moves t next m m')
    (hag : Agrees m' t o r') : a'.Orderly := by
  obtain ⟨hsound, hstands, hnumbered⟩ := h.claimed.leaves_settled hr hm hl hs hmv hag
  exact ⟨hsound, fun j n hj token htoken => h.leaves_waits hm hr hp hl hs hmv hag hj htoken,
    fun j n hj token htoken => h.leaves_queues hm hr hp hl hs hmv hag hj htoken, hstands, hnumbered, hl.rotates⟩

end Leaves

def withMonitor (a : Arena σ) (o : Ref) (m : Monitor) : Arena σ :=
  { a with heap := a.heap.update o fun x => { x with monitor := m } }

theorem monitor?_withMonitor {a : Arena σ} {o : Ref} {m : Monitor} (h : a.monitor? o = some m)
    (m' : Monitor) (j : Ref) :
    (a.withMonitor o m').monitor? j = if o = j then some m' else a.monitor? j := by
  unfold monitor? withMonitor at *
  simp only [Heap.get?_update]
  split
  · next hj =>
    subst hj
    cases hx : a.heap.get? o with
    | none => simp [hx] at h
    | some x => rfl
  · rfl

/-- A turn of a thread at the monitor of `o`. It ends with the thread parked, or the thread goes on. -/
structure Turn (a a' : Arena σ) (thread : ThreadId) (o : Ref) (goesOn : Bool)
    (next : Option WaitToken) (m m' : Monitor) (r : Thread σ) : Prop where
  before : a.monitor? o = some m
  leaves : Leaves a a' thread o next m' r
  sound : m'.Sound
  moves : Monitor.Moves thread next m m'
  agrees : Agrees m' thread o r
  alive : r.isAlive = true
  unparked : goesOn = true → r.pending = none

theorem Orderly.turn {a a' : Arena σ} (h : a.Orderly) {t : ThreadId} {o : Ref} {goesOn : Bool}
    {next : Option WaitToken} {m m' : Monitor} {r r' : Thread σ}
    (hr : a.scheduler.get? t = some r) (hp : ∀ p, r.pending = some p → p.object = o)
    (ht : Turn a a' t o goesOn next m m' r') : a'.Orderly :=
  h.leaves ht.before hr hp ht.leaves ht.sound ht.moves ht.agrees

/-- Nothing happens to the threads but that the one the monitor was passed to is woken. -/
def passTo (s : Scheduler σ) : Option WaitToken → Scheduler σ
  | some token => (s.attach token.thread).2
  | none => s

theorem passTo_wakes (s : Scheduler σ) (next : Option WaitToken) : s.Wakes (passTo s next) := by
  cases next with
  | none => exact .refl s
  | some token => exact s.attach_wakes token.thread

theorem passTo_rotates {s : Scheduler σ} (hs : s.Rotates) (next : Option WaitToken) :
    (passTo s next).Rotates := by
  cases next with
  | none => exact hs
  | some token => exact Scheduler.attach_rotates hs token.thread

/-- A thread that goes on leaves its record as it is. -/
theorem Leaves.goesOn {a : Arena σ} (hrot : a.scheduler.Rotates) {t : ThreadId} {o : Ref}
    {m : Monitor} (hm : a.monitor? o = some m) (m' : Monitor) {r : Thread σ}
    (hr : a.scheduler.get? t = some r) {next : Option WaitToken}
    (hn : ∀ n, next = some n → n.thread ≠ t) :
    Leaves a { a.withMonitor o m' with scheduler := passTo a.scheduler next } t o next m' r where
  monitors := monitor?_withMonitor hm m'
  nextId := (passTo_wakes a.scheduler next).nextId
  rotates := passTo_rotates hrot next
  others u _ := (passTo_wakes a.scheduler next).record u
  awake n hnext _ s hs := by
    subst hnext
    show (a.scheduler.attach n.thread).2.get? n.thread = _
    rw [Scheduler.get?_attach, if_pos rfl, hs]
    rfl
  self := by
    cases next with
    | none => exact hr
    | some n =>
      show (a.scheduler.attach n.thread).2.get? t = _
      rw [Scheduler.get?_attach, if_neg (hn n rfl)]
      exact hr

/-- The threads after one of them was parked for a monitor. -/
def parked (s : Scheduler σ) (thread : ThreadId) (p : PendingMonitor) (timeout : Timeout) :
    Scheduler σ :=
  ((s.update thread fun t => { t with pending := some p }).detach thread timeout).2

/-- The record of a thread that was parked. -/
def parkedRecord (s : Scheduler σ) (r : Thread σ) (p : PendingMonitor) (timeout : Timeout) :
    Thread σ :=
  { r with pending := some p, state := Scheduler.detachedState s.now timeout }

theorem get?_parked {s : Scheduler σ} {t : ThreadId} {r : Thread σ} (hr : s.get? t = some r)
    (ha : r.isAlive = true) (p : PendingMonitor) (timeout : Timeout) (j : ThreadId) :
    (parked s t p timeout).get? j =
      if t = j then some (parkedRecord s r p timeout) else s.get? j := by
  unfold parked
  rw [Scheduler.get?_detach, Scheduler.get?_update]
  split
  · next hj =>
    subst hj
    have ha' : ({ r with pending := some p } : Thread σ).isAlive = true := ha
    simp only [hr, Option.map_some, ha', if_true]
    rfl
  · rfl

theorem isAlive_parkedRecord (s : Scheduler σ) (r : Thread σ) (p : PendingMonitor)
    (timeout : Timeout) : (parkedRecord s r p timeout).isAlive = true := by
  cases timeout <;> rfl

theorem parked_rotates {s : Scheduler σ} (hs : s.Rotates) (t : ThreadId) (p : PendingMonitor)
    (timeout : Timeout) : (parked s t p timeout).Rotates := by
  have hmark : (s.update t fun t => { t with pending := some p }).Rotates :=
    Scheduler.update_rotates hs t fun _ => rfl
  exact Scheduler.detach_rotates hmark t timeout

/-- A thread that parks, with the monitor passed on. -/
theorem Leaves.parks {a : Arena σ} (hrot : a.scheduler.Rotates) {t : ThreadId} {o : Ref}
    {m : Monitor} (hm : a.monitor? o = some m) (m' : Monitor) {r : Thread σ}
    (hr : a.scheduler.get? t = some r) (ha : r.isAlive = true) (p : PendingMonitor)
    (timeout : Timeout) {next : Option WaitToken} (hn : ∀ n, next = some n → n.thread ≠ t) :
    Leaves a
      { a.withMonitor o m' with scheduler := passTo (parked a.scheduler t p timeout) next }
      t o next m' (parkedRecord a.scheduler r p timeout) where
  monitors := monitor?_withMonitor hm m'
  nextId := (passTo_wakes _ next).nextId.trans (Scheduler.nextId_detach _ t timeout)
  rotates := passTo_rotates (parked_rotates hrot t p timeout) next
  others u hu := by
    have h := (passTo_wakes (parked a.scheduler t p timeout) next).record u
    rw [get?_parked hr ha, if_neg (Ne.symm hu)] at h
    exact h
  awake n hnext hne s hs := by
    subst hnext
    show ((parked a.scheduler t p timeout).attach n.thread).2.get? n.thread = _
    rw [Scheduler.get?_attach, if_pos rfl, get?_parked hr ha, if_neg (Ne.symm hne), hs]
    rfl
  self := by
    have h := get?_parked hr ha p timeout t
    rw [if_pos rfl] at h
    cases next with
    | none => exact h
    | some n =>
      show ((parked a.scheduler t p timeout).attach n.thread).2.get? t = _
      rw [Scheduler.get?_attach, if_neg (hn n rfl)]
      exact h

end Arena

namespace Sync
open Stateful Arena

variable {σ : Type} {a a' : Arena σ} {t : ThreadId} {o : Ref}

theorem monitorOf_ok {m : Monitor} (h : monitorOf o a = .ok m a') : a' = a ∧ a.monitor? o = some m := by
  unfold monitorOf at h
  rw [bind_get] at h
  unfold monitor?
  cases hx : a.heap.get? o with
  | none => rw [hx] at h; cases h
  | some x => rw [hx] at h; cases h; exact ⟨rfl, rfl⟩

theorem monitorOf_of_some {m : Monitor} (h : a.monitor? o = some m) : monitorOf o a = .ok m a := by
  unfold monitor? at h
  unfold monitorOf
  rw [bind_get]
  cases hx : a.heap.get? o with
  | none => rw [hx] at h; cases h
  | some x => rw [hx] at h; cases h; rfl

theorem monitorOf_error {e : SyncError} (h : monitorOf o a = .error e a') : a' = a := by
  unfold monitorOf at h
  rw [bind_get] at h
  cases hx : a.heap.get? o with
  | none => rw [hx] at h; cases h; rfl
  | some x => rw [hx] at h; cases h

section OnMonitor

variable {α : Type} {f : Monitor → Except MonitorError (α × Monitor)}

theorem onMonitor_ok {v : α} (h : onMonitor o f a = .ok v a') :
    ∃ m m', a.monitor? o = some m ∧ f m = .ok (v, m') ∧ a' = a.withMonitor o m' := by
  unfold onMonitor at h
  obtain ⟨m, a₁, hof, hrest⟩ := bind_ok.1 h
  obtain ⟨rfl, hm⟩ := monitorOf_ok hof
  cases hf : f m with
  | error e => rw [hf] at hrest; cases hrest
  | ok pair =>
    obtain ⟨w, m'⟩ := pair
    rw [hf] at hrest
    cases hrest
    exact ⟨m, m', hm, hf, rfl⟩

theorem onMonitor_of_ok {m m' : Monitor} {v : α} (hm : a.monitor? o = some m)
    (hf : f m = .ok (v, m')) : onMonitor o f a = .ok v (a.withMonitor o m') := by
  unfold onMonitor
  rw [bind_of_ok (monitorOf_of_some hm), hf]
  rfl

/-- A refused operation leaves everything as it was. -/
theorem onMonitor_error {e : SyncError} (h : onMonitor o f a = .error e a') : a' = a := by
  unfold onMonitor at h
  rcases bind_error.1 h with hof | ⟨m, a₁, hof, hrest⟩
  · exact monitorOf_error hof
  · obtain ⟨rfl, -⟩ := monitorOf_ok hof
    cases hf : f m with
    | error e => rw [hf] at hrest; cases hrest; rfl
    | ok pair => rw [hf] at hrest; cases hrest

end OnMonitor

theorem handOver_eq (next : Option WaitToken) (a : Arena σ) :
    handOver next a = .ok () { a with scheduler := passTo a.scheduler next } := by
  cases next <;> rfl

theorem park_eq {r : Thread σ} (hr : a.scheduler.get? t = some r) (p : PendingMonitor) :
    park t p a =
      .ok () { a with scheduler := a.scheduler.update t fun t => { t with pending := some p } } := by
  unfold park
  rw [bind_get, hr]
  rfl

/-- What a thread has that may take a turn: it is alive and no monitor is pending. -/
structure Free (a : Arena σ) (thread : ThreadId) (r : Thread σ) : Prop where
  record : a.scheduler.get? thread = some r
  pending : r.pending = none
  alive : r.isAlive = true

theorem Free.agrees {r : Thread σ} (hr : Free a t r) {m : Monitor} (hm : m.Absent t) :
    Agrees m t o r := by
  unfold Agrees
  rw [hr.pending]
  exact hm

theorem ne_of_none (n : WaitToken) (h : none = some n) : n.thread ≠ t := by cases h

theorem enter_turn {r : Thread σ} (h : a.Claimed) (hr : Free a t r) {result : Acquire}
    (he : enter t o a = .ok result a') :
    ∃ next m m' r', Turn a a' t o (result = .acquired) next m m' r' := by
  unfold enter at he
  obtain ⟨entry, a₁, hon, hrest⟩ := bind_ok.1 he
  obtain ⟨m, m', hm, hf, rfl⟩ := onMonitor_ok hon
  have habs : m.Absent t := h.absent hr.record hr.alive hm fun p hp => by rw [hr.pending] at hp; cases hp
  obtain ⟨hs, hmv, hplace⟩ := Monitor.enter_spec (h.sound o m hm) habs hf
  rcases hplace with ⟨rfl, habs'⟩ | ⟨rfl, hmem⟩
  · cases hrest
    have hleaves := Leaves.goesOn h.rotates hm m' hr.record ne_of_none
    exact ⟨none, m, m', r, hm, hleaves, hs, hmv, hr.agrees habs', hr.alive, fun _ => hr.pending⟩
  · dsimp only at hrest
    rw [bind_of_ok (park_eq (a := a.withMonitor o m') hr.record _)] at hrest
    cases hrest
    have hleaves := Leaves.parks h.rotates hm m' hr.record hr.alive ⟨o, ⟨t, 1⟩, .enter⟩ .indefinite
      ne_of_none
    have halive := isAlive_parkedRecord a.scheduler r ⟨o, ⟨t, 1⟩, .enter⟩ .indefinite
    exact ⟨none, m, m', _, hm, hleaves, hs, hmv, ⟨rfl, rfl, halive, .inr hmem⟩, halive,
      fun hgo => by simp at hgo⟩

theorem exit_turn {r : Thread σ} (h : a.Claimed) (hr : Free a t r)
    (he : exit t o a = .ok () a') : ∃ next m m' r', Turn a a' t o true next m m' r' := by
  unfold exit at he
  obtain ⟨next, a₁, hon, hrest⟩ := bind_ok.1 he
  obtain ⟨m, m', hm, hf, rfl⟩ := onMonitor_ok hon
  obtain ⟨hs, hmv, habs, hnext⟩ := Monitor.exit_spec (h.sound o m hm) hf
  rw [handOver_eq] at hrest
  cases hrest
  have hleaves := Leaves.goesOn h.rotates hm m' hr.record hnext
  exact ⟨next, m, m', r, hm, hleaves, hs, hmv, hr.agrees habs, hr.alive, fun _ => hr.pending⟩

theorem wait_turn {r : Thread σ} (h : a.Claimed) (hr : Free a t r) {timeout : Timeout}
    (he : wait t o timeout a = .ok () a') :
    ∃ next m m' r', Turn a a' t o false next m m' r' := by
  unfold wait at he
  obtain ⟨⟨token, next⟩, a₁, hon, hrest⟩ := bind_ok.1 he
  obtain ⟨m, m', hm, hf, rfl⟩ := onMonitor_ok hon
  obtain ⟨hs, hmv, hthread, hmem, hnext⟩ := Monitor.wait_spec (h.sound o m hm) hf
  dsimp only at hrest
  rw [bind_of_ok (park_eq (a := a.withMonitor o m') hr.record _)] at hrest
  obtain ⟨_, a₂, hdetach, hrest⟩ := bind_ok.1 hrest
  cases hdetach
  rw [handOver_eq] at hrest
  cases hrest
  have hleaves := Leaves.parks h.rotates hm m' hr.record hr.alive ⟨o, token, .wait⟩ timeout hnext
  have halive := isAlive_parkedRecord a.scheduler r ⟨o, token, .wait⟩ timeout
  exact ⟨next, m, m', _, hm, hleaves, hs, hmv, ⟨rfl, hthread, halive, .inl ⟨rfl, hmem⟩⟩, halive,
    fun hgo => by cases hgo⟩

theorem notify_turn {r : Thread σ} (h : a.Claimed) (hr : Free a t r) {woken : Option ThreadId}
    (he : notify t o a = .ok woken a') : ∃ next m m' r', Turn a a' t o true next m m' r' := by
  unfold notify at he
  obtain ⟨token, a₁, hon, hrest⟩ := bind_ok.1 he
  obtain ⟨m, m', hm, hf, rfl⟩ := onMonitor_ok hon
  obtain ⟨hs, hmv, habs⟩ := Monitor.notify_spec (h.sound o m hm) hf
  cases hrest
  have hleaves := Leaves.goesOn h.rotates hm m' hr.record ne_of_none
  exact ⟨none, m, m', r, hm, hleaves, hs, hmv, hr.agrees habs, hr.alive, fun _ => hr.pending⟩

theorem notifyAll_turn {r : Thread σ} (h : a.Claimed) (hr : Free a t r) {woken : List ThreadId}
    (he : notifyAll t o a = .ok woken a') : ∃ next m m' r', Turn a a' t o true next m m' r' := by
  unfold notifyAll at he
  obtain ⟨tokens, a₁, hon, hrest⟩ := bind_ok.1 he
  obtain ⟨m, m', hm, hf, rfl⟩ := onMonitor_ok hon
  obtain ⟨hs, hmv, habs⟩ := Monitor.notifyAll_spec (h.sound o m hm) hf
  cases hrest
  have hleaves := Leaves.goesOn h.rotates hm m' hr.record ne_of_none
  exact ⟨none, m, m', r, hm, hleaves, hs, hmv, hr.agrees habs, hr.alive, fun _ => hr.pending⟩

/-- The monitor a parked thread comes back for is there, and the thread takes it or stays in line. -/
theorem takeMonitor_spec {r : Thread σ} {p : PendingMonitor} (h : a.Claimed)
    (hr : a.scheduler.get? t = some r) (hp : r.pending = some p) :
    ∃ entry a' m m', takeMonitor t p a = .ok entry a' ∧ a'.scheduler = a.scheduler ∧
      a.monitor? p.object = some m ∧
      (∀ j, a'.monitor? j = if p.object = j then some m' else a.monitor? j) ∧
      m'.Sound ∧ Monitor.Moves t none m m' ∧
      (entry = .acquired ∧ m'.Absent t ∨ entry = .queued ∧ p.token ∈ m'.entrants) := by
  obtain ⟨hthread, halive, m, hm, hst⟩ := h.stands t r p hr hp
  have hs := h.sound p.object m hm
  unfold takeMonitor
  rw [bind_of_ok (monitorOf_of_some hm)]
  by_cases ho : m.owner = some t
  · have habs := hs.absent_owner ho
    have hcount : m.count = p.token.reentrancy := by
      cases hst with
      | waiting _ hw => exact absurd hthread (habs _ (List.mem_append_left _ hw))
      | queued hq => exact absurd hthread (habs _ (List.mem_append_right _ hq))
      | handed _ hc _ => exact hc
    rw [if_pos ho, if_pos hcount]
    refine ⟨.acquired, a, m, m, rfl, rfl, hm, fun j => ?_, hs, .of_queues_eq rfl rfl fun u hu => ?_,
      .inl ⟨rfl, habs⟩⟩
    · split
      · next hj => rw [← hj]; exact hm
      · rfl
    · exact (Option.some.inj (ho.symm.trans hu)).symm
  · have hmem : p.token ∈ m.tokens := by
      cases hst with
      | waiting _ hw => exact List.mem_append_left _ hw
      | queued hq => exact List.mem_append_right _ hq
      | handed howner _ _ => exact absurd howner ho
    obtain ⟨hs', hmv, hplace⟩ := Monitor.reacquire_spec hs hmem
    rw [if_neg ho]
    rw [hthread] at hmv hplace
    exact ⟨_, a.withMonitor p.object (m.reacquire p.token).2, m, _, rfl, rfl, hm,
      monitor?_withMonitor hm _, hs', hmv, hplace⟩

/-- A thread picked to run has nothing pending, takes the monitor it was parked for, or is parked
again. -/
theorem resume_turn (h : a.Claimed) (t : ThreadId) :
    ∃ result a', resume t a = .ok result a' ∧
      (result = .running ∧ a' = a ∧ (∀ r, a.scheduler.get? t = some r → r.pending = none) ∨
        ∃ r p m m' r', a.scheduler.get? t = some r ∧ r.pending = some p ∧
          (result = .reacquired p.reason ∨ result = .blocked) ∧
          Turn a a' t p.object (result ≠ .blocked) none m m' r') := by
  unfold resume
  rw [bind_get]
  cases hpend : (a.scheduler.get? t).bind (·.pending) with
  | none =>
    refine ⟨.running, a, rfl, .inl ⟨rfl, rfl, fun r hr => ?_⟩⟩
    simpa [hr] using hpend
  | some p =>
    obtain ⟨r, hr, hp⟩ := Option.bind_eq_some_iff.1 hpend
    obtain ⟨hthread, halive, _⟩ := h.stands t r p hr hp
    obtain ⟨entry, a₁, m, m', htake, hsched, hm, hmon, hs, hmv, hplace⟩ := takeMonitor_spec h hr hp
    dsimp only
    rw [bind_of_ok htake]
    rcases hplace with ⟨rfl, habs⟩ | ⟨rfl, hmem⟩
    · refine ⟨.reacquired p.reason, _, rfl, .inr ⟨r, p, m, m', { r with pending := none }, hr, hp,
        .inl rfl, hm, ⟨hmon, ?_, ?_, fun u hu => ?_, fun n hn => ?_, ?_⟩, hs, hmv, habs, halive,
        fun _ => rfl⟩⟩
      · show a₁.scheduler.nextId = _
        rw [hsched]
      · show (a₁.scheduler.update t fun t => { t with pending := none }).Rotates
        rw [hsched]
        exact Scheduler.update_rotates h.rotates t fun _ => rfl
      · show Option.Rel _ _ ((a₁.scheduler.update t _).get? u)
        rw [hsched, Scheduler.get?_update, if_neg (Ne.symm hu)]
        exact (Scheduler.Wakes.refl a.scheduler).record u
      · cases hn
      · show (a₁.scheduler.update t _).get? t = _
        rw [hsched, Scheduler.get?_update, if_pos rfl, hr]
        rfl
    · have hdetached : (a.scheduler.detach t .indefinite).2.get? t =
          some { r with state := .detached } := by
        rw [Scheduler.get?_detach, if_pos rfl, hr]
        simp only [Option.map_some, halive, if_true]
        rfl
      refine ⟨.blocked, _, rfl, .inr ⟨r, p, m, m', { r with state := .detached }, hr, hp, .inr rfl,
        hm, ⟨hmon, ?_, ?_, fun u hu => ?_, fun n hn => ?_, ?_⟩, hs, hmv, ?_, rfl, fun hgo => ?_⟩⟩
      · show (a₁.scheduler.detach t .indefinite).2.nextId = _
        rw [Scheduler.nextId_detach, hsched]
      · show (a₁.scheduler.detach t .indefinite).2.Rotates
        rw [hsched]
        exact Scheduler.detach_rotates h.rotates t .indefinite
      · show Option.Rel _ _ ((a₁.scheduler.detach t .indefinite).2.get? u)
        rw [hsched, Scheduler.get?_detach, if_neg (Ne.symm hu)]
        exact (Scheduler.Wakes.refl a.scheduler).record u
      · cases hn
      · show (a₁.scheduler.detach t .indefinite).2.get? t = _
        rw [hsched]
        exact hdetached
      · unfold Agrees
        show match r.pending with | none => _ | some p => _
        rw [hp]
        exact ⟨rfl, hthread, rfl, .inr hmem⟩
      · simp at hgo

end Sync

end ClassMachine
