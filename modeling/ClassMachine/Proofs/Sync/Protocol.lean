import ClassMachine.Proofs.Sync.Orderly

/-!
Threads on monitors in any order of steps. A session is what threads, the clock and the host can
bring about with monitors; its two main statements are that monitors, pending monitors and the
rotation never contradict each other, and that nobody is left asleep in the line of a monitor that
could be taken.
-/
namespace ClassMachine

/-- What a thread can ask of the monitor of an object. -/
inductive MonitorAction where
  | enter
  | exit
  | wait (timeout : Timeout)
  | notify
  | notifyAll
  deriving DecidableEq, Repr

/-- Takes the action and tells whether the thread goes on. -/
def MonitorAction.run {σ : Type} (thread : ThreadId) (object : Ref) : MonitorAction → SyncM σ Bool
  | enter => return (← Sync.enter thread object) = .acquired
  | exit => do Sync.exit thread object; return true
  | wait timeout => do Sync.wait thread object timeout; return false
  | notify => do let _ ← Sync.notify thread object; return true
  | notifyAll => do let _ ← Sync.notifyAll thread object; return true

/-- Objects and threads, with the threads that were picked, were let go on, and have neither been
parked nor ended since. -/
structure Session (σ : Type) where
  arena : Arena σ
  running : List ThreadId

namespace Session
open Sync

variable {σ : Type}

/-- The same objects and running threads under another scheduler. -/
def schedule (p : Session σ) (s : Scheduler σ) : Session σ :=
  { p with arena := { p.arena with scheduler := s } }

/-- One step of a thread, of the clock or of the host. A thread number is never given out twice. -/
inductive Step (p : Session σ) : Session σ → Prop
  | spawn (object : Ref) (stack : σ) (h : p.arena.scheduler.nextId ≠ 0xffffffff) :
      Step p (p.schedule (p.arena.scheduler.spawn object stack).2)
  | idle (h : p.arena.scheduler.next.1 = none) : Step p (p.schedule p.arena.scheduler.next.2)
  | pick {t : ThreadId} {result : Resume} {a : Arena σ} (h : p.arena.scheduler.next.1 = some t)
      (hr : resume t { p.arena with scheduler := p.arena.scheduler.next.2 } = .ok result a) :
      Step p ⟨a, if result = .blocked then p.running else t :: p.running⟩
  | act {t : ThreadId} (ht : t ∈ p.running) (o : Ref) (action : MonitorAction) {goesOn : Bool}
      {a : Arena σ} (ha : action.run t o p.arena = .ok goesOn a) :
      Step p ⟨a, if goesOn then p.running else p.running.filter (· ≠ t)⟩
  | refused {t : ThreadId} (ht : t ∈ p.running) (o : Ref) (action : MonitorAction) {e : SyncError}
      {a : Arena σ} (ha : action.run t o p.arena = .error e a) : Step p ⟨a, p.running⟩
  | detach {t : ThreadId} (ht : t ∈ p.running) (timeout : Timeout) :
      Step p (p.schedule (p.arena.scheduler.detach t timeout).2)
  | terminate {t : ThreadId} (ht : t ∈ p.running) :
      Step p { p.schedule (p.arena.scheduler.terminate t).2 with
        running := p.running.filter (· ≠ t) }
  | advance (millis : UInt64) : Step p (p.schedule (p.arena.scheduler.advance millis))
  | attach (id : ThreadId) : Step p (p.schedule (p.arena.scheduler.attach id).2)
  | interrupt (id : ThreadId) : Step p (p.schedule (p.arena.scheduler.interrupt id).2)

/-- Sessions that begin with untouched monitors and no threads. -/
inductive Reachable : Session σ → Prop
  | start (heap : Heap) (s : Scheduler σ) (hm : ∀ o x, heap.get? o = some x → x.monitor = {})
      (ht : s.threads = ∅) (hr : s.ready = []) : Reachable ⟨⟨heap, s⟩, []⟩
  | step {p p' : Session σ} (h : Reachable p) (hs : Step p p') : Reachable p'

/-- Order in the arena, and running threads free to take a turn. -/
structure Orderly (p : Session σ) : Prop where
  arena : p.arena.Orderly
  running : ∀ t ∈ p.running, ∃ r, Free p.arena t r

theorem orderly_start {heap : Heap} {s : Scheduler σ}
    (hm : ∀ o x, heap.get? o = some x → x.monitor = {}) (ht : s.threads = ∅) (hr : s.ready = []) :
    (⟨⟨heap, s⟩, []⟩ : Session σ).Orderly := by
  have hget : ∀ id, s.get? id = none := by
    intro id
    simp [Scheduler.get?, ht]
  have hfresh : ∀ o m, (⟨heap, s⟩ : Arena σ).monitor? o = some m → m = {} := by
    intro o m h
    obtain ⟨x, hx, rfl⟩ := Option.map_eq_some_iff.1 h
    exact hm o x hx
  refine ⟨⟨fun o m h => ?_, fun o m h token htoken => ?_, fun o m h token htoken => ?_,
    fun t r p h => ?_, fun t r h => ?_, fun t ht => ?_⟩, fun t ht => by cases ht⟩
  · rw [hfresh o m h]
    exact Monitor.sound_fresh
  · rw [hfresh o m h] at htoken
    cases htoken
  · rw [hfresh o m h] at htoken
    cases htoken
  · rw [hget] at h
    cases h
  · rw [hget] at h
    cases h
  · change t ∈ s.ready at ht
    rw [hr] at ht
    cases ht

/-- Waking threads lets the running ones run on. -/
theorem Orderly.wakes {p : Session σ} (h : p.Orderly) {s : Scheduler σ}
    (hw : p.arena.scheduler.Wakes s) (hr : s.Rotates) : (p.schedule s).Orderly := by
  refine ⟨h.arena.wakes hw hr, fun t ht => ?_⟩
  obtain ⟨r, hfree⟩ := h.running t ht
  obtain ⟨r', hr', hwoken⟩ := hw.exists_of_some hfree.record
  exact ⟨r', hr', hwoken.pending.trans hfree.pending, hwoken.isAlive hfree.alive⟩

/-- Others keep running through a turn of one thread. -/
theorem free_of_turn {a a' : Arena σ} {t u : ThreadId} {o : Ref} {goesOn : Bool}
    {next : Option WaitToken} {m m' : Monitor} {r r' : Thread σ} (hu : Free a u r)
    (hne : u ≠ t) (ht : Arena.Turn a a' t o goesOn next m m' r') : ∃ s, Free a' u s := by
  have hrel := ht.leaves.others u hne
  rw [hu.record] at hrel
  cases hs : a'.scheduler.get? u with
  | none => rw [hs] at hrel; cases hrel
  | some s =>
    rw [hs] at hrel
    cases hrel with
    | some hw => exact ⟨s, hs, hw.pending.trans hu.pending, hw.isAlive hu.alive⟩

/-- The thread that takes its turn runs on unless it was parked. -/
theorem Orderly.turn {p : Session σ} (h : p.Orderly) {a : Arena σ} {t : ThreadId} {o : Ref}
    {goesOn : Bool} {next : Option WaitToken} {m m' : Monitor} {r r' : Thread σ}
    (hr : Free p.arena t r) (ht : Arena.Turn p.arena a t o goesOn next m m' r') :
    (⟨a, if goesOn then p.running else p.running.filter (· ≠ t)⟩ : Session σ).Orderly := by
  refine ⟨h.arena.turn hr.record (fun q hq => ?_) ht, fun u hu => ?_⟩
  · rw [hr.pending] at hq
    cases hq
  · by_cases hut : u = t
    · subst hut
      cases goesOn with
      | true => exact ⟨r', ht.leaves.self, ht.unparked rfl, ht.alive⟩
      | false => simp at hu
    · have hmem : u ∈ p.running := by
        cases goesOn with
        | true => simpa using hu
        | false => exact (List.mem_filter.1 hu).1
      obtain ⟨s, hs⟩ := h.running u hmem
      exact free_of_turn hs hut ht

/-- Every action of a running thread is a turn at the object's monitor. -/
theorem run_turn {a a' : Arena σ} {t : ThreadId} {o : Ref} {r : Thread σ} {action : MonitorAction}
    {goesOn : Bool} (h : a.Orderly) (hr : Free a t r) (ha : action.run t o a = .ok goesOn a') :
    ∃ next m m' r', Arena.Turn a a' t o goesOn next m m' r' := by
  cases action with
  | enter =>
    obtain ⟨result, a₁, he, hrest⟩ := Stateful.bind_ok.1 ha
    cases hrest
    exact enter_turn h.claimed hr he
  | exit =>
    obtain ⟨_, a₁, he, hrest⟩ := Stateful.bind_ok.1 ha
    cases hrest
    exact exit_turn h.claimed hr he
  | wait timeout =>
    obtain ⟨_, a₁, he, hrest⟩ := Stateful.bind_ok.1 ha
    cases hrest
    exact wait_turn h.claimed hr he
  | notify =>
    obtain ⟨_, a₁, he, hrest⟩ := Stateful.bind_ok.1 ha
    cases hrest
    exact notify_turn h.claimed hr he
  | notifyAll =>
    obtain ⟨_, a₁, he, hrest⟩ := Stateful.bind_ok.1 ha
    cases hrest
    exact notifyAll_turn h.claimed hr he

/-- An action that is refused changes nothing. -/
theorem run_refused {a a' : Arena σ} {t : ThreadId} {o : Ref} {r : Thread σ}
    {action : MonitorAction} {e : SyncError} (hr : Free a t r)
    (ha : action.run t o a = .error e a') : a' = a := by
  -- after the monitor has answered nothing can fail: the record is there to be parked
  have hpark : ∀ (m : Monitor) (q : PendingMonitor) (e : SyncError) (a₁ : Arena σ),
      park t q (a.withMonitor o m) ≠ .error e a₁ := by
    intro m q e a₁ hp
    rw [park_eq (a := a.withMonitor o m) hr.record] at hp
    cases hp
  cases action with
  | enter =>
    rcases Stateful.bind_error.1 ha with he | ⟨_, _, _, hrest⟩
    · rcases Stateful.bind_error.1 he with hon | ⟨entry, a₁, hon, hrest⟩
      · exact onMonitor_error hon
      · obtain ⟨m, m', _, _, rfl⟩ := onMonitor_ok hon
        cases entry with
        | acquired => cases hrest
        | queued =>
          rcases Stateful.bind_error.1 hrest with hp | ⟨_, _, _, hrest⟩
          · exact absurd hp (hpark m' _ e a')
          · cases hrest
    · cases hrest
  | exit =>
    rcases Stateful.bind_error.1 ha with he | ⟨_, _, _, hrest⟩
    · rcases Stateful.bind_error.1 he with hon | ⟨next, a₁, _, hrest⟩
      · exact onMonitor_error hon
      · rw [handOver_eq] at hrest
        cases hrest
    · cases hrest
  | wait timeout =>
    rcases Stateful.bind_error.1 ha with he | ⟨_, _, _, hrest⟩
    · rcases Stateful.bind_error.1 he with hon | ⟨⟨token, next⟩, a₁, hon, hrest⟩
      · exact onMonitor_error hon
      · obtain ⟨m, m', _, _, rfl⟩ := onMonitor_ok hon
        rcases Stateful.bind_error.1 hrest with hp | ⟨_, _, _, hrest⟩
        · exact absurd hp (hpark m' _ e a')
        · rcases Stateful.bind_error.1 hrest with hd | ⟨_, _, _, hrest⟩
          · cases hd
          · rw [handOver_eq] at hrest
            cases hrest
    · cases hrest
  | notify =>
    rcases Stateful.bind_error.1 ha with he | ⟨_, _, _, hrest⟩
    · rcases Stateful.bind_error.1 he with hon | ⟨_, _, _, hrest⟩
      · exact onMonitor_error hon
      · cases hrest
    · cases hrest
  | notifyAll =>
    rcases Stateful.bind_error.1 ha with he | ⟨_, _, _, hrest⟩
    · rcases Stateful.bind_error.1 he with hon | ⟨_, _, _, hrest⟩
      · exact onMonitor_error hon
      · cases hrest
    · cases hrest

/-- A picked thread has a record that may run. -/
theorem next_ready {s : Scheduler σ} (hs : s.Rotates) {t : ThreadId} (ht : s.next.1 = some t) :
    ∃ r, s.next.2.get? t = some r ∧ r.state = .ready := by
  obtain ⟨hrot, hmem⟩ := Scheduler.next_rotates hs
  exact hrot t (hmem t ht)

theorem Orderly.pick {p : Session σ} (h : p.Orderly) {t : ThreadId} {result : Resume} {a : Arena σ}
    (ht : p.arena.scheduler.next.1 = some t)
    (hr : resume t { p.arena with scheduler := p.arena.scheduler.next.2 } = .ok result a) :
    (⟨a, if result = .blocked then p.running else t :: p.running⟩ : Session σ).Orderly := by
  have hnext : (p.schedule p.arena.scheduler.next.2).Orderly :=
    h.wakes p.arena.scheduler.next_wakes (Scheduler.next_rotates h.arena.rotates).1
  obtain ⟨r, hrec, hready⟩ := next_ready h.arena.rotates ht
  have halive : r.isAlive = true := by simp [Thread.isAlive, hready]
  obtain ⟨result', a', hr', hcases⟩ := resume_turn hnext.arena.claimed t
  change resume t { p.arena with scheduler := p.arena.scheduler.next.2 } = _ at hr'
  rw [hr] at hr'
  cases hr'
  rcases hcases with ⟨rfl, rfl, hnone⟩ | ⟨r₀, q, m, m', r', hr₀, hq, hresult, hturn⟩
  · refine ⟨hnext.arena, fun u hu => ?_⟩
    rcases List.mem_cons.1 hu with rfl | hu
    · exact ⟨r, hrec, hnone r hrec, halive⟩
    · exact hnext.running u hu
  · -- the picked thread was parked, so it is none of those that run
    have hfree : ∀ u ∈ p.running, ∃ s, Free a u s := by
      intro u hu
      obtain ⟨s, hs⟩ := hnext.running u hu
      refine free_of_turn hs (fun hut => ?_) hturn
      have := hs.record
      rw [hut, hr₀] at this
      cases this
      rw [hs.pending] at hq
      cases hq
    refine ⟨hnext.arena.turn hr₀ (fun q' hq' => ?_) hturn, fun u hu => ?_⟩
    · rw [hq] at hq'
      cases hq'
      rfl
    · rcases hresult with rfl | rfl
      · rcases List.mem_cons.1 hu with rfl | hu
        · exact ⟨r', hturn.leaves.self, hturn.unparked (by simp), hturn.alive⟩
        · exact hfree u hu
      · exact hfree u hu

/-- What one step preserves. -/
theorem Orderly.step {p p' : Session σ} (h : p.Orderly) (hs : Step p p') : p'.Orderly := by
  cases hs with
  | spawn object stack hn =>
    refine ⟨h.arena.spawn hn object stack, fun t ht => ?_⟩
    obtain ⟨r, hfree⟩ := h.running t ht
    refine ⟨r, ?_, hfree.pending, hfree.alive⟩
    show (p.arena.scheduler.spawn object stack).2.get? t = some r
    rw [Scheduler.get?_spawn, if_neg]
    · exact hfree.record
    · intro heq
      have hlt := h.arena.numbered t r hfree.record
      rw [heq] at hlt
      exact absurd hlt (UInt32.lt_irrefl t)
  | idle _ => exact h.wakes p.arena.scheduler.next_wakes (Scheduler.next_rotates h.arena.rotates).1
  | pick ht hr => exact h.pick ht hr
  | act ht o action ha =>
    obtain ⟨r, hfree⟩ := h.running _ ht
    obtain ⟨next, m, m', r', hturn⟩ := run_turn h.arena hfree ha
    exact h.turn hfree hturn
  | refused ht o action ha =>
    obtain ⟨r, hfree⟩ := h.running _ ht
    rw [run_refused hfree ha]
    exact h
  | @detach t ht timeout =>
    obtain ⟨r, hfree⟩ := h.running t ht
    have hcalm := Arena.detach_undisturbed hfree.record hfree.pending timeout
    refine ⟨h.arena.undisturbed hcalm (Scheduler.detach_rotates h.arena.rotates t timeout), ?_⟩
    intro u hu
    obtain ⟨s, hs⟩ := h.running u hu
    have hget := Scheduler.get?_detach p.arena.scheduler t u timeout
    rw [hs.record] at hget
    split at hget
    · simp only [Option.map_some, hs.alive, if_true] at hget
      exact ⟨_, hget, hs.pending, by cases timeout <;> rfl⟩
    · exact ⟨s, hget, hs.pending, hs.alive⟩
  | @terminate t ht =>
    obtain ⟨r, hfree⟩ := h.running t ht
    have hcalm := Arena.terminate_undisturbed hfree.record hfree.pending
    refine ⟨h.arena.undisturbed hcalm (Scheduler.terminate_rotates h.arena.rotates t), ?_⟩
    intro u hu
    obtain ⟨hmem, hne⟩ := List.mem_filter.1 hu
    have hut : t ≠ u := fun he => by simp [he] at hne
    obtain ⟨s, hs⟩ := h.running u hmem
    have hget : (p.arena.scheduler.update t Scheduler.ended).get? u = some s := by
      rw [Scheduler.get?_update, if_neg hut]
      exact hs.record
    obtain ⟨s', hs', hw⟩ := (p.arena.scheduler.terminate_wakes t).exists_of_some hget
    exact ⟨s', hs', hw.pending.trans hs.pending, hw.isAlive hs.alive⟩
  | advance millis =>
    exact h.wakes (Scheduler.pointwise_of_threads_eq Thread.Woken.refl rfl rfl) h.arena.rotates
  | attach id =>
    exact h.wakes (p.arena.scheduler.attach_wakes id) (Scheduler.attach_rotates h.arena.rotates id)
  | interrupt id =>
    exact h.wakes (p.arena.scheduler.interrupt_wakes id)
      (Scheduler.interrupt_rotates h.arena.rotates id)

theorem Reachable.orderly {p : Session σ} (h : Reachable p) : p.Orderly := by
  induction h with
  | start heap s hm ht hr => exact orderly_start hm ht hr
  | step _ hs ih => exact ih.step hs

/-- Monitors, pending monitors and the rotation agree. -/
structure Safe (p : Session σ) : Prop where
  /-- Whoever is resumed is resumed without a contradiction. -/
  resumes : ∀ t, ∃ result a, resume t p.arena = .ok result a
  picks : ∀ t, p.arena.scheduler.next.1 = some t → ∃ result a,
    resume t { p.arena with scheduler := p.arena.scheduler.next.2 } = .ok result a
  free : ∀ o m, p.arena.monitor? o = some m → m.owner = none → m.count = 0 ∧ m.entrants = []
  held : ∀ o m t, p.arena.monitor? o = some m → m.owner = some t → 1 ≤ m.count
  once : ∀ o m, p.arena.monitor? o = some m → m.threads.Nodup
  /-- Everybody in line has a record that says so. -/
  recorded : ∀ o m, p.arena.monitor? o = some m → ∀ token ∈ m.tokens, ∃ r reason,
    p.arena.scheduler.get? token.thread = some r ∧ r.pending = some ⟨o, token, reason⟩
  unparked : ∀ t r, p.arena.scheduler.get? t = some r → r.pending = none →
    ∀ o m, p.arena.monitor? o = some m → m.Absent t
  elsewhere : ∀ t r q, p.arena.scheduler.get? t = some r → r.pending = some q →
    ∀ o m, p.arena.monitor? o = some m → o ≠ q.object → m.Absent t
  /-- At the object of its pending monitor a thread owns the monitor as deeply as it is to, or has
  its one token there. -/
  parked : ∀ t r q, p.arena.scheduler.get? t = some r → r.pending = some q →
    q.token.thread = t ∧ ∃ m, p.arena.monitor? q.object = some m ∧
      (m.owner = some t ∧ m.count = q.token.reentrancy ∧ m.Absent t ∨
        m.owner ≠ some t ∧ q.reason = .wait ∧ q.token ∈ m.waiters ∧ q.token ∉ m.entrants ∨
        m.owner ≠ some t ∧ q.token ∈ m.entrants ∧ q.token ∉ m.waiters) ∧
      ∀ token ∈ m.tokens, token.thread = t → token = q.token

/-- A parked thread stands in one place. -/
theorem Orderly.parked {p : Session σ} (h : p.Orderly) {t : ThreadId} {r : Thread σ}
    {q : PendingMonitor} (hr : p.arena.scheduler.get? t = some r) (hq : r.pending = some q) :
    q.token.thread = t ∧ ∃ m, p.arena.monitor? q.object = some m ∧
      (m.owner = some t ∧ m.count = q.token.reentrancy ∧ m.Absent t ∨
        m.owner ≠ some t ∧ q.reason = .wait ∧ q.token ∈ m.waiters ∧ q.token ∉ m.entrants ∨
        m.owner ≠ some t ∧ q.token ∈ m.entrants ∧ q.token ∉ m.waiters) ∧
      ∀ token ∈ m.tokens, token.thread = t → token = q.token := by
  obtain ⟨hthread, _, m, hm, hst⟩ := h.arena.stands t r q hr hq
  have hs := h.arena.sound q.object m hm
  have howner : q.token ∈ m.tokens → m.owner ≠ some t := fun hmem ho =>
    hs.absent_owner ho q.token hmem hthread
  refine ⟨hthread, m, hm, ?_, ?_⟩
  · cases hst with
    | waiting hreason hw =>
      exact .inr (.inl ⟨howner (List.mem_append_left _ hw), hreason, hw, hs.not_both hw⟩)
    | queued he =>
      exact .inr (.inr ⟨howner (List.mem_append_right _ he), he, fun hw => hs.not_both hw he⟩)
    | handed ho hc _ => exact .inl ⟨ho, hc, hs.absent_owner ho⟩
  · intro token htoken heq
    cases hst with
    | waiting _ hw =>
      exact hs.eq_of_thread_eq htoken (List.mem_append_left _ hw) (heq.trans hthread.symm)
    | queued he =>
      exact hs.eq_of_thread_eq htoken (List.mem_append_right _ he) (heq.trans hthread.symm)
    | handed ho _ _ => exact absurd heq (hs.absent_owner ho token htoken)

theorem Orderly.resumes {p : Session σ} (h : p.Orderly) (t : ThreadId) :
    ∃ result a, resume t p.arena = .ok result a := by
  obtain ⟨result, a, hr, _⟩ := resume_turn h.arena.claimed t
  exact ⟨result, a, hr⟩

/-- Whatever the order of steps, no thread is resumed into a contradiction, nobody stands in a
monitor twice, and nobody stands in a monitor its record does not name. -/
theorem reachable_safe {p : Session σ} (h : Reachable p) : Safe p := by
  have ho := h.orderly
  have hnext : (p.schedule p.arena.scheduler.next.2).Orderly :=
    ho.wakes p.arena.scheduler.next_wakes (Scheduler.next_rotates ho.arena.rotates).1
  refine ⟨ho.resumes, fun t _ => hnext.resumes t, fun o m hm => (ho.arena.sound o m hm).free,
    fun o m t hm hown => ?_, fun o m hm => (ho.arena.sound o m hm).nodup,
    fun o m hm token htoken => ?_, fun t r hr hp o m hm => ?_, fun t r q hr hq o m hm hne => ?_,
    fun t r q hr hq => ho.parked hr hq⟩
  · have hpos := (ho.arena.sound o m hm).held t hown
    rw [UInt32.lt_iff_toNat_lt] at hpos
    rw [UInt32.le_iff_toNat_le]
    exact hpos
  · rcases List.mem_append.1 htoken with hw | hq
    · obtain ⟨r, hr, hp⟩ := ho.arena.waits o m hm token hw
      exact ⟨r, .wait, hr, hp⟩
    · exact ho.arena.queues o m hm token hq
  · exact ho.arena.absent hr hm fun q hq => by rw [hp] at hq; cases hq
  · refine ho.arena.absent hr hm fun q' hq' he => hne ?_
    rw [hq] at hq'
    cases hq'
    exact he.symm

/-- A heap with one object. -/
def oneObject : Heap :=
  { objects := (∅ : ObjectMap).insert 1 { type := 0, weight := 0 }, capacity := 0 }

theorem reachable_oneObject : Reachable (⟨⟨oneObject, {}⟩, []⟩ : Session Unit) := by
  refine .start oneObject {} (fun o x h => ?_) rfl rfl
  simp only [oneObject, Heap.get?, Maps.getElem?_insert_eq] at h
  split at h
  · cases h
    rfl
  · simp at h

/-- Thread 1 owns a monitor, and thread 2 is parked in its line. -/
theorem reachable_contest : ∃ p : Session Unit, Reachable p ∧ p.running = [1] ∧
    p.arena.monitor? ⟨1⟩ = some ⟨some 1, 1, [], [⟨2, 1⟩]⟩ := by
  have h₁ := reachable_oneObject.step (.spawn Ref.null () (by decide))
  have h₂ := h₁.step (.spawn Ref.null () (by decide))
  have h₃ := h₂.step (.pick (t := 1) (by decide) rfl)
  have h₄ := h₃.step (.act (t := 1) (by decide) ⟨1⟩ .enter rfl)
  have h₅ := h₄.step (.pick (t := 2) (by decide) rfl)
  have h₆ := h₅.step (.act (t := 2) (by decide) ⟨1⟩ .enter rfl)
  exact ⟨_, h₆, by decide, by decide⟩

theorem safe_contest : ∃ p : Session Unit, Reachable p ∧
    p.arena.monitor? ⟨1⟩ = some ⟨some 1, 1, [], [⟨2, 1⟩]⟩ ∧ Safe p := by
  obtain ⟨p, hp, _, hm⟩ := reachable_contest
  exact ⟨p, hp, hm, reachable_safe hp⟩

/-- The head of the line owns the monitor and may run; the others are in line as before. With
nobody in line the monitor is free. -/
def PassedOn (a : Arena σ) (o : Ref) (line : List WaitToken) : Prop :=
  ∃ m, a.monitor? o = some m ∧
    match line with
    | [] => m.owner = none ∧ m.entrants = []
    | first :: rest =>
      m.owner = some first.thread ∧ m.count = first.reentrancy ∧ m.entrants = rest ∧
        ∃ r, a.scheduler.get? first.thread = some r ∧ r.state = .ready

/-- Letting go of a monitor passes it to the head of the line, whom the change of hands wakes. -/
theorem Orderly.passedOn {p : Session σ} (h : p.Orderly) {o : Ref} {m : Monitor}
    (hm : p.arena.monitor? o = some m) {loose : Monitor} (ho : loose.owner = none)
    (he : loose.entrants = m.entrants) {s : Scheduler σ}
    (hs : ∀ token ∈ m.entrants, s.get? token.thread = p.arena.scheduler.get? token.thread) :
    PassedOn { p.arena.withMonitor o loose.handOff.2 with
      scheduler := Arena.passTo s loose.handOff.1 } o m.entrants := by
  refine ⟨loose.handOff.2, ?_, ?_⟩
  · have hmon := Arena.monitor?_withMonitor hm loose.handOff.2 o
    rw [if_pos rfl] at hmon
    exact hmon
  · cases hent : m.entrants with
    | nil =>
      rw [hent] at he
      simp [Monitor.handOff, he, ho]
    | cons first rest =>
      have hmem : first ∈ m.entrants := hent ▸ List.mem_cons_self
      obtain ⟨r, reason, hr, hq⟩ := h.arena.queues o m hm first hmem
      obtain ⟨_, halive, _⟩ := h.arena.stands first.thread r _ hr hq
      rw [hent] at he
      simp only [Monitor.handOff, he, true_and]
      refine ⟨r.woken, ?_, Thread.state_woken halive⟩
      show (s.attach first.thread).2.get? first.thread = _
      rw [Scheduler.get?_attach, if_pos rfl, hs first hmem, hr]
      rfl

theorem Orderly.exit_passes {p : Session σ} (h : p.Orderly) {t : ThreadId} {o : Ref} {m : Monitor}
    (hm : p.arena.monitor? o = some m) (ho : m.owner = some t) (hc : m.count = 1) :
    ∃ a, Sync.exit t o p.arena = .ok () a ∧ PassedOn a o m.entrants := by
  have hown : m.ownedBy t = true := Monitor.ownedBy_iff.2 ⟨ho, by rw [hc]; exact UInt32.zero_lt_one⟩
  let loose : Monitor := { m with owner := none, count := 0 }
  have hexit : m.exit t = .ok loose.handOff := by simp [Monitor.exit, hown, hc, loose]
  refine ⟨_, ?_, h.passedOn hm (rfl : loose.owner = none) rfl (s := p.arena.scheduler) fun _ _ => rfl⟩
  unfold Sync.exit
  rw [Stateful.bind_of_ok (onMonitor_of_ok hm hexit), handOver_eq]
  rfl

theorem Orderly.wait_passes {p : Session σ} (h : p.Orderly) {t : ThreadId} {r : Thread σ}
    (hr : Free p.arena t r) {o : Ref} {m : Monitor} (hm : p.arena.monitor? o = some m)
    (ho : m.owner = some t) (timeout : Timeout) :
    ∃ a, Sync.wait t o timeout p.arena = .ok () a ∧ PassedOn a o m.entrants := by
  have hs := h.arena.sound o m hm
  have hown : m.ownedBy t = true := Monitor.ownedBy_iff.2 ⟨ho, hs.held t ho⟩
  let loose : Monitor :=
    { m with owner := none, count := 0, waiters := m.waiters ++ [⟨t, m.count⟩] }
  have hwait : m.wait t = .ok ((⟨t, m.count⟩, loose.handOff.1), loose.handOff.2) := by
    simp [Monitor.wait, hown, loose]
  have hothers : ∀ token ∈ m.entrants,
      (Arena.parked p.arena.scheduler t ⟨o, ⟨t, m.count⟩, .wait⟩ timeout).get? token.thread =
        p.arena.scheduler.get? token.thread := by
    intro token htoken
    have hne := hs.absent_owner ho token (List.mem_append_right _ htoken)
    rw [Arena.get?_parked hr.record hr.alive, if_neg (Ne.symm hne)]
  refine ⟨_, ?_, h.passedOn hm (rfl : loose.owner = none) rfl hothers⟩
  unfold Sync.wait
  rw [Stateful.bind_of_ok (onMonitor_of_ok hm hwait)]
  dsimp only
  rw [Stateful.bind_of_ok (park_eq (a := p.arena.withMonitor o loose.handOff.2) hr.record _)]
  exact handOver_eq loose.handOff.1 _

/-- Nobody sleeps through a change of hands. A thread asleep for good over a monitor waits to be
notified or is in the line of a monitor somebody else owns; the owner that lets go, by leaving or
by waiting, passes the monitor to the head of the line and wakes it; a monitor nobody owns has
nobody in line. -/
theorem reachable_wakeful {p : Session σ} (h : Reachable p) :
    (∀ t r q, p.arena.scheduler.get? t = some r → r.state = .detached → r.pending = some q →
      ∃ m, p.arena.monitor? q.object = some m ∧
        (q.reason = .wait ∧ q.token ∈ m.waiters ∧ q.token.thread = t ∨
          q.token ∈ m.entrants ∧ q.token.thread = t ∧ ∃ u, u ≠ t ∧ m.owner = some u)) ∧
    (∀ t ∈ p.running, ∀ o m, p.arena.monitor? o = some m → m.owner = some t →
      (m.count = 1 → ∃ a, Sync.exit t o p.arena = .ok () a ∧ PassedOn a o m.entrants) ∧
      ∀ timeout, ∃ a, Sync.wait t o timeout p.arena = .ok () a ∧ PassedOn a o m.entrants) ∧
    ∀ o m, p.arena.monitor? o = some m → m.owner = none → m.entrants = [] := by
  have ho := h.orderly
  refine ⟨fun t r q hr hstate hq => ?_, fun t ht o m hm hown => ?_,
    fun o m hm hn => ((ho.arena.sound o m hm).free hn).2⟩
  · obtain ⟨hthread, _, m, hm, hst⟩ := ho.arena.stands t r q hr hq
    have hs := ho.arena.sound q.object m hm
    refine ⟨m, hm, ?_⟩
    cases hst with
    | waiting hreason hw => exact .inl ⟨hreason, hw, hthread⟩
    | queued he =>
      cases hown : m.owner with
      | none =>
        rw [(hs.free hown).2] at he
        cases he
      | some u =>
        refine .inr ⟨he, hthread, u, fun hut => ?_, rfl⟩
        exact hs.absent_owner (hut ▸ hown) q.token (List.mem_append_right _ he) hthread
    | handed _ _ hready =>
      rw [hstate] at hready
      cases hready
  · obtain ⟨r, hfree⟩ := ho.running t ht
    exact ⟨fun hc => ho.exit_passes hm hown hc, fun timeout => ho.wait_passes hfree hm hown timeout⟩

/-- The owner leaves, and the thread in line owns the monitor and may run. -/
theorem wakeful_contest : ∃ (p : Session Unit) (a : Arena Unit), Reachable p ∧
    p.arena.monitor? ⟨1⟩ = some ⟨some 1, 1, [], [⟨2, 1⟩]⟩ ∧
    Sync.exit 1 ⟨1⟩ p.arena = .ok () a ∧ PassedOn a ⟨1⟩ [⟨2, 1⟩] := by
  obtain ⟨p, hp, hrun, hm⟩ := reachable_contest
  have ht : (1 : ThreadId) ∈ p.running := by rw [hrun]; decide
  obtain ⟨a, hexit, hpassed⟩ := ((reachable_wakeful hp).2.1 1 ht ⟨1⟩ _ hm rfl).1 rfl
  exact ⟨p, a, hp, hm, hexit, hpassed⟩

end Session

end ClassMachine
