import ClassMachine.Proofs.Sync.Protocol

/-!
Who gets a notification. A waiter stays in the list of waiters until it is notified or picked, also
after an interrupt, its deadline or the host has put it back into the rotation; what can be said of
the thread that `notify` takes depends on whether it has been called on already.
-/
namespace ClassMachine.Session

open Sync

variable {σ : Type} {p p' : Session σ} {w : ThreadId} {o : Ref} {token : WaitToken}

/-- Out of the rotation. -/
def Asleep (p : Session σ) (w : ThreadId) : Prop :=
  ∃ r, p.arena.scheduler.get? w = some r ∧ r.isDetached = true

/-- A thread in `wait` on `o` that was notified or put back into the rotation. -/
def Roused (p : Session σ) (token : WaitToken) (o : Ref) : Prop :=
  ∃ r m, p.arena.scheduler.get? token.thread = some r ∧ r.pending = some ⟨o, token, .wait⟩ ∧
    p.arena.monitor? o = some m ∧ (r.state = .ready ∨ token ∉ m.waiters)

/-- Steps in which `w` is not let go on. -/
inductive Meanwhile (w : ThreadId) (p : Session σ) : Session σ → Prop
  | here : Meanwhile w p p
  | step {p' p'' : Session σ} (h : Meanwhile w p p') (hs : Step p' p'') (hw : w ∉ p''.running) :
      Meanwhile w p p''

theorem isDetached_or_ready {r : Thread σ} (h : r.isAlive = true) :
    r.isDetached = true ∨ r.state = .ready := by
  unfold Thread.isAlive at h
  unfold Thread.isDetached
  cases hs : r.state <;> simp_all

theorem Asleep.not_ready {r : Thread σ} (h : p.Asleep w) (hr : p.arena.scheduler.get? w = some r) :
    r.state ≠ .ready := by
  obtain ⟨r', hr', hd⟩ := h
  cases hr.symm.trans hr'
  intro hready
  simp [Thread.isDetached, hready] at hd

/-- A waiter is asleep, or it was put back into the rotation. -/
theorem Orderly.asleep_or_roused (h : p.Orderly) {m : Monitor} (hm : p.arena.monitor? o = some m)
    (htoken : token ∈ m.waiters) : p.Asleep token.thread ∨ p.Roused token o := by
  obtain ⟨r, hr, hq⟩ := h.arena.waits o m hm token htoken
  obtain ⟨_, halive, _⟩ := h.arena.stands _ r _ hr hq
  rcases isDetached_or_ready halive with hd | hready
  · exact .inl ⟨r, hr, hd⟩
  · exact .inr ⟨r, m, hr, hq, hm, .inl hready⟩

/-- A thread with a monitor pending is none of those that run. -/
theorem Orderly.not_running (h : p.Orderly) {r : Thread σ} {q : PendingMonitor}
    (hr : p.arena.scheduler.get? w = some r) (hq : r.pending = some q) : w ∉ p.running := by
  intro hw
  obtain ⟨s, hs⟩ := h.running w hw
  cases hr.symm.trans hs.record
  cases hs.pending.symm.trans hq

/-- Changes of the scheduler that leave a thread where it is, or wake it, leave it roused. -/
theorem Roused.schedule (h : p.Roused token o) {s : Scheduler σ}
    (hs : ∀ r, p.arena.scheduler.get? token.thread = some r →
      ∃ r', s.get? token.thread = some r' ∧ r.Woken r') : (p.schedule s).Roused token o := by
  obtain ⟨r, m, hr, hq, hm, hcalled⟩ := h
  obtain ⟨r', hr', hw⟩ := hs r hr
  refine ⟨r', m, hr', hw.pending.trans hq, hm, hcalled.imp_left fun hready => ?_⟩
  rcases hw.state with he | ⟨_, he⟩
  · exact he.trans hready
  · exact he

theorem Roused.wakes (h : p.Roused token o) {s : Scheduler σ} (hw : p.arena.scheduler.Wakes s) :
    (p.schedule s).Roused token o :=
  h.schedule fun _ hr => hw.exists_of_some hr

/-- The turn of another thread makes nobody wait. -/
theorem Roused.turn (h : p.Roused token o) {t : ThreadId} (ht : t ≠ token.thread) {a : Arena σ}
    {j : Ref} {goesOn : Bool} {next : Option WaitToken} {m m' : Monitor} {r' : Thread σ}
    (hturn : Arena.Turn p.arena a t j goesOn next m m' r') (running : List ThreadId) :
    (⟨a, running⟩ : Session σ).Roused token o := by
  obtain ⟨r, n, hr, hq, hn, hcalled⟩ := h
  obtain ⟨s, hs, hw⟩ := hturn.leaves.exists_after (Ne.symm ht) hr
  have hready : r.state = .ready → s.state = .ready := by
    intro hready
    rcases hw.state with he | ⟨_, he⟩
    · exact he.trans hready
    · exact he
  have hmon := hturn.leaves.monitors o
  by_cases hj : j = o
  · subst hj
    rw [if_pos rfl] at hmon
    cases hn.symm.trans hturn.before
    refine ⟨s, m', hs, hw.pending.trans hq, hmon, hcalled.imp hready fun hout hmem => hout ?_⟩
    exact hturn.moves.waiting token hmem (Ne.symm ht)
  · rw [if_neg hj] at hmon
    exact ⟨s, n, hs, hw.pending.trans hq, hmon.trans hn, hcalled.imp_left hready⟩

/-- A thread that is picked and parked again stands in the line of the monitor it comes back for. -/
theorem resume_blocked {a a' : Arena σ} {t : ThreadId} {r : Thread σ} {q : PendingMonitor}
    (ho : a.Orderly) (hr : a.scheduler.get? t = some r) (hq : r.pending = some q)
    (h : resume t a = .ok .blocked a') :
    ∃ r' m', a'.scheduler.get? t = some r' ∧ r'.pending = some q ∧
      a'.monitor? q.object = some m' ∧ q.token ∉ m'.waiters := by
  obtain ⟨entry, a₁, m, m', htake, hsched, hm, hmon, hs, _, hplace⟩ := takeMonitor_spec ho.claimed hr hq
  have hpend : (a.scheduler.get? t).bind (·.pending) = some q := by rw [hr]; exact hq
  unfold resume at h
  rw [Stateful.bind_get, hpend] at h
  dsimp only at h
  rw [Stateful.bind_of_ok htake] at h
  rcases hplace with ⟨rfl, _⟩ | ⟨rfl, hmem⟩
  · cases h
  · cases h
    obtain ⟨_, halive, _⟩ := ho.stands t r q hr hq
    refine ⟨{ r with state := .detached }, m', ?_, hq, ?_, fun hw => hs.not_both hw hmem⟩
    · show (a₁.scheduler.detach t .indefinite).2.get? t = _
      rw [hsched, Scheduler.get?_detach, if_pos rfl, hr]
      simp only [Option.map_some, halive, if_true]
      rfl
    · have hmon := hmon q.object
      rw [if_pos rfl] at hmon
      exact hmon

/-- A roused thread stays roused until it is let go on. -/
theorem Roused.step (ho : p.Orderly) (h : p.Roused token o) (hs : Step p p')
    (hw : token.thread ∉ p'.running) : p'.Roused token o := by
  obtain ⟨r, m, hr, hq, hm, _⟩ := id h
  have hself : ∀ t ∈ p.running, t ≠ token.thread := fun t ht heq =>
    ho.not_running hr hq (heq ▸ ht)
  cases hs with
  | spawn object stack hn =>
    refine h.schedule fun r hr => ⟨r, ?_, .refl r⟩
    rw [Scheduler.get?_spawn, if_neg]
    · exact hr
    · intro heq
      have hlt := ho.arena.numbered _ r hr
      rw [heq] at hlt
      exact absurd hlt (UInt32.lt_irrefl _)
  | idle _ => exact h.wakes p.arena.scheduler.next_wakes
  | @pick t result a hpick hresume =>
    have hwakes := p.arena.scheduler.next_wakes
    have hnext : (p.schedule p.arena.scheduler.next.2).Orderly :=
      ho.wakes hwakes (Scheduler.next_rotates ho.arena.rotates).1
    have hafter := h.wakes hwakes
    by_cases ht : t = token.thread
    · subst ht
      cases result with
      | blocked =>
        obtain ⟨r₁, _, hr₁, hq₁, _⟩ := hafter
        obtain ⟨r', m', hr', hq', hm', hout⟩ := resume_blocked hnext.arena hr₁ hq₁ hresume
        exact ⟨r', m', hr', hq', hm', .inr hout⟩
      | running => exact absurd List.mem_cons_self hw
      | reacquired reason => exact absurd List.mem_cons_self hw
    · obtain ⟨result', a', hresume', hcases⟩ := resume_turn hnext.arena.claimed t
      cases hresume.symm.trans hresume'
      rcases hcases with ⟨rfl, rfl, -⟩ | ⟨_, _, _, _, _, _, _, _, hturn⟩
      · exact hafter
      · exact hafter.turn ht hturn _
  | act ht j action ha =>
    obtain ⟨s, hfree⟩ := ho.running _ ht
    obtain ⟨_, _, _, _, hturn⟩ := run_turn ho.arena hfree ha
    exact h.turn (hself _ ht) hturn _
  | refused ht j action ha =>
    obtain ⟨s, hfree⟩ := ho.running _ ht
    rw [run_refused hfree ha]
    exact h
  | @detach t ht timeout =>
    refine h.schedule fun r hr => ⟨r, ?_, .refl r⟩
    rw [Scheduler.get?_detach, if_neg (hself t ht)]
    exact hr
  | @terminate t ht =>
    exact h.schedule fun r hr => Scheduler.terminate_others _ (Ne.symm (hself t ht)) hr
  | advance millis =>
    exact h.wakes (Scheduler.pointwise_of_threads_eq Thread.Woken.refl rfl rfl)
  | attach id => exact h.wakes (p.arena.scheduler.attach_wakes id)
  | interrupt id => exact h.wakes (p.arena.scheduler.interrupt_wakes id)

theorem Roused.meanwhile (ho : p.Orderly) (h : p.Roused token o) (hm : Meanwhile token.thread p p') :
    p'.Roused token o := by
  have hboth : p'.Orderly ∧ p'.Roused token o := by
    induction hm with
    | here => exact ⟨ho, h⟩
    | step _ hs hw ih => exact ⟨ih.1.step hs, ih.2.step ih.1 hs hw⟩
  exact hboth.2

/-- `notify` moves the first waiter to the line and leaves the threads as they are. -/
theorem Orderly.notify_first (h : p.Orderly) {t : ThreadId} {m : Monitor}
    (hm : p.arena.monitor? o = some m) (hown : m.owner = some t) {first : WaitToken}
    {rest : List WaitToken} (hw : m.waiters = first :: rest) :
    Sync.notify t o p.arena = .ok (some first.thread)
      (p.arena.withMonitor o { m with waiters := rest, entrants := m.entrants ++ [first] }) := by
  have hs := h.arena.sound o m hm
  have hmem : first ∈ m.waiters := hw ▸ List.mem_cons_self
  have howned : m.ownedBy t = true := Monitor.ownedBy_iff.2 ⟨hown, hs.held t hown⟩
  -- nobody stands in the line twice, so the waiter is put behind it
  have habs : ∀ e ∈ ({ m with waiters := rest } : Monitor).entrants, e.thread ≠ first.thread := by
    intro e he heq
    have hsame := hs.eq_of_thread_eq (List.mem_append_right _ he) (List.mem_append_left _ hmem) heq
    exact hs.not_both hmem (hsame ▸ he)
  have hmove : m.notify t =
      .ok (some first, { m with waiters := rest, entrants := m.entrants ++ [first] }) := by
    simp only [Monitor.notify, howned, if_true, hw]
    rw [Monitor.queue_of_absent habs]
  unfold Sync.notify
  rw [Stateful.bind_of_ok (onMonitor_of_ok hm hmove)]
  rfl

/-- Who is notified. A waiter sleeps or has been roused since it began to wait, and a roused one does
not go back to sleep among the waiters before it is let go on. `notify` takes the first waiter. Where
that one has not been roused, it is asleep, stays asleep, and is roused from now on until it is let
go on: it stands in the line, or the monitor was passed to it. -/
theorem reachable_notifies {p : Session σ} (h : Reachable p) {o : Ref} {m : Monitor}
    (hm : p.arena.monitor? o = some m) :
    (∀ token ∈ m.waiters, p.Asleep token.thread ∨ p.Roused token o) ∧
    (∀ token, p.Roused token o → ∀ p', Meanwhile token.thread p p' → p'.Roused token o) ∧
    (∀ t ∈ p.running, ∀ token ∈ m.waiters, token.thread ≠ t) ∧
    ∀ t ∈ p.running, m.owner = some t → ∀ first rest, m.waiters = first :: rest →
      ¬ p.Roused first o → ∃ a, Sync.notify t o p.arena = .ok (some first.thread) a ∧
        a.monitor? o = some { m with waiters := rest, entrants := m.entrants ++ [first] } ∧
        a.scheduler = p.arena.scheduler ∧ p.Asleep first.thread ∧
        ∀ p', Meanwhile first.thread ⟨a, p.running⟩ p' → p'.Roused first o := by
  have ho := h.orderly
  refine ⟨fun token htoken => ho.asleep_or_roused hm htoken, fun token hroused p' hmean =>
    hroused.meanwhile ho hmean, fun t ht token htoken heq => ?_, fun t ht hown first rest hw hfresh => ?_⟩
  · obtain ⟨r, hr, hq⟩ := ho.arena.waits o m hm token htoken
    exact ho.not_running hr hq (heq ▸ ht)
  · have hmem : first ∈ m.waiters := hw ▸ List.mem_cons_self
    have hnotify := ho.notify_first hm hown hw
    have hmon := Arena.monitor?_withMonitor hm { m with waiters := rest, entrants := m.entrants ++ [first] } o
    rw [if_pos rfl] at hmon
    refine ⟨_, hnotify, hmon, rfl, (ho.asleep_or_roused hm hmem).resolve_right hfresh, fun p' hmean => ?_⟩
    have hact : MonitorAction.notify.run t o p.arena = .ok true
        (p.arena.withMonitor o { m with waiters := rest, entrants := m.entrants ++ [first] }) := by
      show (Sync.notify t o >>= fun _ => pure true) p.arena = _
      rw [Stateful.bind_of_ok hnotify]
      rfl
    have hstep : Orderly ⟨_, p.running⟩ := ho.step (.act ht o .notify hact)
    obtain ⟨r, hr, hq⟩ := ho.arena.waits o m hm first hmem
    refine Roused.meanwhile hstep ⟨r, _, hr, hq, hmon, .inr fun hrest => ?_⟩ hmean
    have hpromoted := ((ho.arena.sound o m hm).promote hown (show m.waiters = [first] ++ rest from hw)).1
    exact hpromoted.not_both hrest (List.mem_append_right _ (List.mem_singleton_self first))

/-- Thread 1 waits for a notification, and thread 2 owns the monitor. -/
theorem reachable_awaiting : ∃ p : Session Unit, Reachable p ∧ p.running = [2] ∧
    p.arena.monitor? ⟨1⟩ = some ⟨some 2, 1, [⟨1, 1⟩], []⟩ ∧ p.Asleep 1 := by
  have h₁ := reachable_oneObject.step (.spawn Ref.null () (by decide))
  have h₂ := h₁.step (.spawn Ref.null () (by decide))
  have h₃ := h₂.step (.pick (t := 1) (by decide) rfl)
  have h₄ := h₃.step (.act (t := 1) (by decide) ⟨1⟩ .enter rfl)
  have h₅ := h₄.step (.act (t := 1) (by decide) ⟨1⟩ (.wait .indefinite) rfl)
  have h₆ := h₅.step (.pick (t := 2) (by decide) rfl)
  have h₇ := h₆.step (.act (t := 2) (by decide) ⟨1⟩ .enter rfl)
  exact ⟨_, h₇, by decide, by decide, _, rfl, rfl⟩

/-- The sleeping waiter is notified and stands in the line. -/
theorem notifies_awaiting : ∃ (p : Session Unit) (a : Arena Unit), Reachable p ∧ p.Asleep 1 ∧
    Sync.notify 2 ⟨1⟩ p.arena = .ok (some 1) a ∧
    a.monitor? ⟨1⟩ = some ⟨some 2, 1, [], [⟨1, 1⟩]⟩ ∧ Roused ⟨a, p.running⟩ ⟨1, 1⟩ ⟨1⟩ := by
  obtain ⟨p, hp, hrun, hm, hasleep⟩ := reachable_awaiting
  have ht : (2 : ThreadId) ∈ p.running := by rw [hrun]; decide
  have hfresh : ¬ p.Roused ⟨1, 1⟩ ⟨1⟩ := by
    rintro ⟨r, m, hr, -, hm', hready | hout⟩
    · exact hasleep.not_ready hr hready
    · cases hm.symm.trans hm'
      exact hout List.mem_cons_self
  obtain ⟨a, hnotify, hmon, -, -, hroused⟩ :=
    (reachable_notifies hp hm).2.2.2 2 ht rfl _ _ rfl hfresh
  exact ⟨p, a, hp, hasleep, hnotify, hmon, hroused _ .here⟩

/-- Threads 1 and 2 wait, and an interrupt has put thread 1 back into the rotation. Before it is
picked, thread 3 notifies: the notification goes to thread 1, and thread 2 sleeps on. -/
theorem notify_spent : ∃ (p : Session Unit) (a : Arena Unit), Reachable p ∧ p.running = [3] ∧
    p.arena.monitor? ⟨1⟩ = some ⟨some 3, 1, [⟨1, 1⟩, ⟨2, 1⟩], []⟩ ∧ ¬ p.Asleep 1 ∧ p.Asleep 2 ∧
    Sync.notify 3 ⟨1⟩ p.arena = .ok (some 1) a ∧
    a.monitor? ⟨1⟩ = some ⟨some 3, 1, [⟨2, 1⟩], [⟨1, 1⟩]⟩ := by
  have h₁ := reachable_oneObject.step (.spawn Ref.null () (by decide))
  have h₂ := h₁.step (.spawn Ref.null () (by decide))
  have h₃ := h₂.step (.spawn Ref.null () (by decide))
  have h₄ := h₃.step (.pick (t := 1) (by decide) rfl)
  have h₅ := h₄.step (.act (t := 1) (by decide) ⟨1⟩ .enter rfl)
  have h₆ := h₅.step (.act (t := 1) (by decide) ⟨1⟩ (.wait .indefinite) rfl)
  have h₇ := h₆.step (.pick (t := 2) (by decide) rfl)
  have h₈ := h₇.step (.act (t := 2) (by decide) ⟨1⟩ .enter rfl)
  have h₉ := h₈.step (.act (t := 2) (by decide) ⟨1⟩ (.wait .indefinite) rfl)
  have h₁₀ := h₉.step (.pick (t := 3) (by decide) rfl)
  have h₁₁ := h₁₀.step (.interrupt 1)
  have h₁₂ := h₁₁.step (.act (t := 3) (by decide) ⟨1⟩ .enter rfl)
  refine ⟨_, _, h₁₂, by decide, by decide, fun hasleep => ?_, ⟨_, rfl, rfl⟩, rfl, by decide⟩
  exact hasleep.not_ready rfl rfl

end ClassMachine.Session
