import ClassMachine.Proofs.Heap.Monitors

/-!
Threads that nobody holds up. A thread without a token in any monitor cannot be handed one, and while it
may run and waits for nothing, whatever others do leaves it as it is. So a thread knows where it stands
after each of its own operations: it goes on, or it is parked, and then for the one monitor it asked for.
-/
namespace ClassMachine

namespace Monitor

variable {m m' : Monitor} {t : ThreadId}

/-- Every token was there before, or is one of `thread`. -/
def Adds (thread : ThreadId) (m m' : Monitor) : Prop :=
  ∀ token ∈ m'.tokens, token ∈ m.tokens ∨ token.thread = thread

theorem Absent.subset (h : m.Absent t) (hs : m'.tokens ⊆ m.tokens) : m'.Absent t :=
  fun token htoken => h token (hs htoken)

theorem mem_tokens_queue {token e : WaitToken} (h : e ∈ (m.queue token).tokens) :
    e ∈ m.tokens ∨ e = token := by
  unfold queue at h
  split at h
  · exact .inl h
  · rcases List.mem_append.1 h with hw | he
    · exact .inl (List.mem_append_left _ hw)
    · rcases List.mem_append.1 he with he | he
      · exact .inl (List.mem_append_right _ he)
      · exact .inr (List.mem_singleton.1 he)

theorem mem_tokens_foldl_queue {moved : List WaitToken} {e : WaitToken}
    (h : e ∈ (moved.foldl queue m).tokens) : e ∈ m.tokens ∨ e ∈ moved := by
  induction moved generalizing m with
  | nil => exact .inl h
  | cons token rest ih =>
    rcases ih h with hq | hr
    · rcases mem_tokens_queue hq with hm | rfl
      · exact .inl hm
      · exact .inr List.mem_cons_self
    · exact .inr (List.mem_cons_of_mem _ hr)

/-- A thread that does not get a monitor stands in line behind an owner. -/
theorem enter_tokens {entry : Entry} (h : m.enter t = .ok (entry, m')) :
    entry = .acquired ∧ m'.tokens ⊆ m.tokens ∨
      entry = .queued ∧ m.Adds t m' ∧ m'.owner ≠ some t := by
  unfold enter at h
  cases ho : m.owner with
  | none =>
    rw [ho] at h
    cases h
    exact .inl ⟨rfl, List.Subset.refl _⟩
  | some owner =>
    rw [ho] at h
    dsimp only at h
    split at h
    · split at h
      · cases h
      · cases h
        exact .inl ⟨rfl, List.Subset.refl _⟩
    · next hne =>
      cases h
      refine .inr ⟨rfl, fun e he => (mem_tokens_queue he).imp_right fun heq => (by rw [heq]),
        fun howner => ?_⟩
      have hsame : (m.queue ⟨t, 1⟩).owner = m.owner := by
        unfold queue
        split <;> rfl
      rw [hsame, ho] at howner
      exact hne (Option.some.inj howner)

theorem exit_tokens {next : Option WaitToken} (h : m.exit t = .ok (next, m')) :
    m'.tokens ⊆ m.tokens := by
  unfold exit at h
  split at h
  · split at h
    · cases h
      exact List.Subset.refl _
    · simp only [Except.ok.injEq, Prod.ext_iff] at h
      obtain ⟨_, rfl⟩ := h
      intro e he
      have hmem := handOff_tokens he
      exact hmem
  · cases h

/-- Whoever waits has let go of the monitor, and hands it to somebody in line. -/
theorem wait_tokens {token : WaitToken} {next : Option WaitToken} (ha : m.Absent t)
    (h : m.wait t = .ok ((token, next), m')) :
    m.Adds t m' ∧ token.thread = t ∧ m'.owner ≠ some t ∧ ∀ n, next = some n → n.thread ≠ t := by
  unfold wait at h
  split at h
  · simp only [Except.ok.injEq, Prod.ext_iff] at h
    obtain ⟨⟨rfl, rfl⟩, rfl⟩ := h
    have hline : ∀ n ∈ m.entrants, n.thread ≠ t := fun n hn => ha n (List.mem_append_right _ hn)
    refine ⟨fun e he => ?_, rfl, ?_, fun n hn => ?_⟩
    · rcases List.mem_append.1 (handOff_tokens he) with hw | hr
      · rcases List.mem_append.1 hw with hw | hs
        · exact .inl (List.mem_append_left _ hw)
        · exact .inr (by rw [List.mem_singleton.1 hs])
      · exact .inl (List.mem_append_right _ hr)
    · unfold handOff
      cases he : m.entrants with
      | nil => simp
      | cons n rest =>
        have hne := hline n (he ▸ List.mem_cons_self)
        simpa using hne
    · have hmem := handOff_mem hn
      exact hline n hmem
  · cases h

theorem notify_tokens {woken : Option WaitToken} (h : m.notify t = .ok (woken, m')) :
    m'.tokens ⊆ m.tokens := by
  unfold notify at h
  split at h
  · cases hw : m.waiters with
    | nil =>
      simp only [hw, Except.ok.injEq, Prod.mk.injEq] at h
      rw [← h.2]
      exact List.Subset.refl _
    | cons token rest =>
      simp only [hw, Except.ok.injEq, Prod.mk.injEq] at h
      rw [← h.2]
      intro e he
      rcases mem_tokens_queue he with hm | rfl
      · rcases List.mem_append.1 hm with hr | hq
        · exact List.mem_append_left _ (hw ▸ List.mem_cons_of_mem _ hr)
        · exact List.mem_append_right _ hq
      · exact List.mem_append_left _ (hw ▸ List.mem_cons_self)
  · cases h

theorem notifyAll_tokens {woken : List WaitToken} (h : m.notifyAll t = .ok (woken, m')) :
    m'.tokens ⊆ m.tokens := by
  unfold notifyAll at h
  split at h
  · simp only [Except.ok.injEq, Prod.mk.injEq] at h
    rw [← h.2]
    intro e he
    rcases mem_tokens_foldl_queue he with hm | hw
    · exact List.mem_append_right _ (by simpa [tokens] using hm)
    · exact List.mem_append_left _ hw
  · cases h

/-- A thread that takes the monitor it came back for has no token left there. -/
theorem reacquire_tokens {token : WaitToken} (ho : m.owner ≠ some token.thread) :
    (m.reacquire token).1 = .acquired ∧ (m.reacquire token).2.Absent token.thread ∧
        m.Adds token.thread (m.reacquire token).2 ∨
      (m.reacquire token).1 = .queued ∧ m.Adds token.thread (m.reacquire token).2 ∧
        (m.reacquire token).2.owner ≠ some token.thread := by
  have hleft : ∀ e ∈ (m.withoutWaiter token.thread).tokens, e ∈ m.tokens := fun e he => by
    rcases List.mem_append.1 he with hw | hr
    · exact List.mem_append_left _ (mem_waiters_withoutWaiter.1 hw).1
    · exact List.mem_append_right _ hr
  unfold reacquire
  dsimp only
  rw [if_neg (show (m.withoutWaiter token.thread).owner ≠ some token.thread from ho)]
  split
  · refine .inl ⟨rfl, fun e he => ?_, fun e he => ?_⟩ <;>
      rcases List.mem_append.1 he with hw | hr
    · exact (mem_waiters_withoutWaiter.1 hw).2
    · cases hr
    · exact .inl (hleft e (List.mem_append_left _ hw))
    · cases hr
  · refine .inr ⟨rfl, fun e he => ?_, fun howner => ho ?_⟩
    · exact (mem_tokens_queue he).imp (hleft e) fun heq => (by rw [heq])
    · have hsame : ((m.withoutWaiter token.thread).queue token).owner = m.owner := by
        unfold queue
        split <;> rfl
      rwa [hsame] at howner

end Monitor

namespace Thread

variable {σ : Type}

/-- A live thread that is woken or marked at most. -/
structure Still (r r' : Thread σ) : Prop where
  stack : r'.stack = r.stack
  pending : r'.pending = r.pending
  interruptible : r'.interruptible = r.interruptible
  isAlive : r.isAlive = true → r'.isAlive = true

theorem Still.refl (r : Thread σ) : r.Still r := ⟨rfl, rfl, rfl, fun hr => hr⟩

theorem Still.trans {r r' r'' : Thread σ} (h : r.Still r') (h' : r'.Still r'') : r.Still r'' :=
  ⟨h'.stack.trans h.stack, h'.pending.trans h.pending, h'.interruptible.trans h.interruptible,
    fun hr => h'.isAlive (h.isAlive hr)⟩

theorem still_woken (r : Thread σ) : r.Still r.woken := by
  unfold woken
  split
  · exact ⟨rfl, rfl, rfl, fun _ => rfl⟩
  · exact .refl r

end Thread

namespace Scheduler

variable {σ : Type} {s s' s'' : Scheduler σ} {Q : ThreadId → Prop}

/-- No thread is made or removed, and those in `Q` go on as they would have. -/
structure PassesBy (Q : ThreadId → Prop) (s s' : Scheduler σ) : Prop where
  nextId : s'.nextId = s.nextId
  known : ∀ u, (s'.get? u).isSome = (s.get? u).isSome
  record : ∀ u r, Q u → s.get? u = some r → ∃ r', s'.get? u = some r' ∧ r.Still r'

theorem PassesBy.refl (s : Scheduler σ) : s.PassesBy Q s := ⟨rfl, fun _ => rfl, fun _ r _ hr => ⟨r, hr, .refl r⟩⟩

theorem PassesBy.trans (h : s.PassesBy Q s') (h' : s'.PassesBy Q s'') : s.PassesBy Q s'' := by
  refine ⟨h'.nextId.trans h.nextId, fun u => (h'.known u).trans (h.known u), fun u r hu hr => ?_⟩
  obtain ⟨r', hr', hstill⟩ := h.record u r hu hr
  obtain ⟨r'', hr'', hstill'⟩ := h'.record u r' hu hr'
  exact ⟨r'', hr'', hstill.trans hstill'⟩

theorem PassesBy.mono {P : ThreadId → Prop} (h : s.PassesBy Q s') (hPQ : ∀ u, P u → Q u) : s.PassesBy P s' :=
  ⟨h.nextId, h.known, fun u r hu => h.record u r (hPQ u hu)⟩

theorem PassesBy.numbered (h : s.PassesBy Q s') (hs : s.Numbered) : s'.Numbered := by
  intro u r hr
  have hknown := h.known u
  rw [hr] at hknown
  obtain ⟨r₀, hr₀⟩ := Option.isSome_iff_exists.1 hknown.symm
  rw [h.nextId]
  exact hs u r₀ hr₀

theorem passesBy_of_pointwise (h : s.Pointwise Thread.Still s') : s.PassesBy Q s' := by
  refine ⟨h.nextId, fun u => ?_, fun u r _ hr => h.exists_of_some hr⟩
  have hrel := h.record u
  generalize s.get? u = before, s'.get? u = after at hrel
  cases hrel <;> rfl

theorem passesBy_of_threads_eq (ht : s'.threads = s.threads) (hn : s'.nextId = s.nextId) : s.PassesBy Q s' :=
  passesBy_of_pointwise (pointwise_of_threads_eq Thread.Still.refl ht hn)

theorem update_passesBy (s : Scheduler σ) (id : ThreadId) {f : Thread σ → Thread σ}
    (hf : ∀ r, Thread.Still r (f r)) : s.PassesBy Q (s.update id f) :=
  passesBy_of_pointwise (s.update_pointwise Thread.Still.refl id hf)

/-- Nobody else is concerned when one record changes. -/
theorem update_passesBy_others (s : Scheduler σ) {id : ThreadId} (hid : ¬ Q id) (f : Thread σ → Thread σ) :
    s.PassesBy Q (s.update id f) := by
  refine ⟨rfl, fun u => ?_, fun u r hu hr => ⟨r, ?_, .refl r⟩⟩
  · rw [get?_update]
    split
    · exact Option.isSome_map
    · rfl
  · rw [get?_update, if_neg (by rintro rfl; exact hid hu)]
    exact hr

theorem attach_passesBy (s : Scheduler σ) (id : ThreadId) : s.PassesBy Q (s.attach id).2 := by
  refine passesBy_of_pointwise ⟨nextId_attach s id, fun u => ?_⟩
  rw [get?_attach]
  cases s.get? u with
  | none => simp
  | some r =>
    split
    · exact .some r.still_woken
    · exact .some (.refl r)

theorem attachAll_passesBy (ids : List ThreadId) (s : Scheduler σ) : s.PassesBy Q (s.attachAll ids) := by
  induction ids generalizing s with
  | nil => exact .refl s
  | cons id ids ih => exact (s.attach_passesBy id).trans (ih (s.attach id).2)

theorem forgetJoin_passesBy (s : Scheduler σ) (waiter : ThreadId) : s.PassesBy Q (s.forgetJoin waiter) := by
  refine passesBy_of_pointwise ⟨rfl, fun u => ?_⟩
  rw [get?_forgetJoin]
  cases s.get? u with
  | none => exact .none
  | some r => exact .some ⟨rfl, rfl, rfl, fun hr => hr⟩

theorem interrupt_passesBy (s : Scheduler σ) (id : ThreadId) : s.PassesBy Q (s.interrupt id).2 := by
  have hmark : s.PassesBy Q (s.update id fun r => { r with interrupted := true }) :=
    s.update_passesBy id fun _ => ⟨rfl, rfl, rfl, fun hr => hr⟩
  unfold interrupt
  split
  · split
    · dsimp only
      split
      · exact hmark.trans ((forgetJoin_passesBy _ id).trans (attach_passesBy _ id))
      · exact hmark
    · exact .refl s
  · exact .refl s

theorem takeInterrupt_passesBy (s : Scheduler σ) (id : ThreadId) : s.PassesBy Q (s.takeInterrupt id).2 :=
  s.update_passesBy id fun _ => ⟨rfl, rfl, rfl, fun hr => hr⟩

theorem detach_passesBy (s : Scheduler σ) {id : ThreadId} (hid : ¬ Q id) (timeout : Timeout) :
    s.PassesBy Q (s.detach id timeout).2 := by
  unfold detach
  split
  · split
    · have hmarked := s.update_passesBy_others hid fun r => { r with state := detachedState s.now timeout }
      exact hmarked.trans (passesBy_of_threads_eq rfl rfl)
    · exact .refl s
  · exact .refl s

theorem terminate_passesBy (s : Scheduler σ) {id : ThreadId} (hid : ¬ Q id) :
    s.PassesBy Q (s.terminate id).2 := by
  unfold terminate
  split
  · next r _ =>
    have hended := s.update_passesBy_others hid fun r =>
      { r with state := .terminated, pending := none, joiners := [] }
    refine (hended.trans ?_).trans ((forgetJoin_passesBy _ id).trans (attachAll_passesBy r.joiners _))
    exact passesBy_of_threads_eq rfl rfl
  · exact .refl s

end Scheduler

namespace Arena
open Stateful

variable {σ : Type} {a a' a'' : Arena σ} {Q : ThreadId → Prop} {t u : ThreadId} {stack : σ} {o : Ref}

/-- A thread has no token anywhere. -/
def Absent (a : Arena σ) (t : ThreadId) : Prop := ∀ o n, a.monitor? o = some n → n.Absent t

/-- Only threads that have been numbered have tokens. -/
def Ticketed (a : Arena σ) : Prop :=
  ∀ o n, a.monitor? o = some n → ∀ token ∈ n.tokens, token.thread < a.scheduler.nextId

/-- A thread waits for nothing, and nobody has a way to hand it anything. -/
structure Idle (a : Arena σ) (t : ThreadId) (stack : σ) : Prop where
  record : ∃ r, a.scheduler.get? t = some r ∧ r.isAlive = true ∧ r.pending = none ∧
    r.interruptible = false ∧ r.stack = stack
  absent : a.Absent t

/-- The one monitor a thread is after is the only one where it may have tokens, and somebody else has it. -/
def Seeks (a : Arena σ) (t : ThreadId) : Option PendingMonitor → Prop
  | none => a.Absent t
  | some p => p.token.thread = t ∧ (∀ o n, a.monitor? o = some n → o ≠ p.object → n.Absent t) ∧
      ∀ n, a.monitor? p.object = some n → n.owner ≠ some t

/-- A live thread is where it can be resumed. -/
def Rests (a : Arena σ) (t : ThreadId) (stack : σ) : Prop :=
  ∃ r, a.scheduler.get? t = some r ∧ r.isAlive = true ∧ r.stack = stack ∧ a.Seeks t r.pending

theorem Idle.rests (h : a.Idle t stack) : a.Rests t stack := by
  obtain ⟨⟨r, hr, halive, hpending, _, hstack⟩, habsent⟩ := h
  refine ⟨r, hr, halive, hstack, ?_⟩
  rw [hpending]
  exact habsent

/-- Threads in `Q` are left alone: they go on as they would have, and get no token. -/
structure PassesBy (Q : ThreadId → Prop) (a a' : Arena σ) : Prop where
  scheduler : a.scheduler.PassesBy Q a'.scheduler
  tokens : ∀ o n', a'.monitor? o = some n' → ∀ token ∈ n'.tokens,
    (∃ n, a.monitor? o = some n ∧ token ∈ n.tokens) ∨
      ¬ Q token.thread ∧ (a.scheduler.get? token.thread).isSome = true

theorem PassesBy.refl (a : Arena σ) : a.PassesBy Q a := ⟨.refl _, fun _ n' hn' _ htoken => .inl ⟨n', hn', htoken⟩⟩

theorem PassesBy.trans (h : a.PassesBy Q a') (h' : a'.PassesBy Q a'') : a.PassesBy Q a'' := by
  refine ⟨h.scheduler.trans h'.scheduler, fun o n'' hn'' token htoken => ?_⟩
  rcases h'.tokens o n'' hn'' token htoken with ⟨n', hn', htoken'⟩ | ⟨hQ, hknown⟩
  · exact h.tokens o n' hn' token htoken'
  · exact .inr ⟨hQ, by rw [← h.scheduler.known]; exact hknown⟩

theorem PassesBy.mono {P : ThreadId → Prop} (h : a.PassesBy Q a') (hPQ : ∀ u, P u → Q u) : a.PassesBy P a' :=
  ⟨h.scheduler.mono hPQ, fun o n' hn' token htoken =>
    (h.tokens o n' hn' token htoken).imp_right fun ⟨hQ, hknown⟩ => ⟨fun hP => hQ (hPQ _ hP), hknown⟩⟩

theorem passesBy_of_scheduler {s : Scheduler σ} (h : a.scheduler.PassesBy Q s) :
    a.PassesBy Q { a with scheduler := s } := ⟨h, (PassesBy.refl a).tokens⟩

theorem PassesBy.ticketed (h : a.PassesBy Q a') (hn : a.scheduler.Numbered) (ht : a.Ticketed) :
    a'.Ticketed := by
  intro o n' hn' token htoken
  rw [h.scheduler.nextId]
  rcases h.tokens o n' hn' token htoken with ⟨n, hmonitor, hmem⟩ | ⟨_, hknown⟩
  · exact ht o n hmonitor token hmem
  · obtain ⟨r, hr⟩ := Option.isSome_iff_exists.1 hknown
    exact hn token.thread r hr

theorem PassesBy.absent (h : a.PassesBy Q a') (hu : Q u) (ha : a.Absent u) : a'.Absent u := by
  intro o n' hn' token htoken heq
  rcases h.tokens o n' hn' token htoken with ⟨n, hmonitor, hmem⟩ | ⟨hQ, _⟩
  · exact ha o n hmonitor token hmem heq
  · exact hQ (heq ▸ hu)

theorem PassesBy.idle (h : a.PassesBy Q a') (hu : Q u) (hi : a.Idle u stack) : a'.Idle u stack := by
  obtain ⟨⟨r, hr, halive, hpending, hmark, hstack⟩, habsent⟩ := hi
  obtain ⟨r', hr', hstill⟩ := h.scheduler.record u r hu hr
  exact ⟨⟨r', hr', hstill.isAlive halive, hstill.pending.trans hpending, hstill.interruptible.trans hmark,
    hstill.stack.trans hstack⟩, h.absent hu habsent⟩

theorem cases_withMonitor {n n' m : Monitor} (hn : a.monitor? o = some n) {j : Ref}
    (hm : (a.withMonitor o n').monitor? j = some m) : j ≠ o ∧ a.monitor? j = some m ∨ j = o ∧ m = n' := by
  rw [monitor?_withMonitor hn n'] at hm
  split at hm
  · next heq => exact .inr ⟨heq.symm, (Option.some.inj hm).symm⟩
  · next hne => exact .inl ⟨Ne.symm hne, hm⟩

/-- Nobody in `Q` gets a token by a change that adds tokens of others alone. -/
theorem passesBy_withMonitor {n n' : Monitor} (hn : a.monitor? o = some n)
    (hadds : ∀ token ∈ n'.tokens, token ∈ n.tokens ∨
      ¬ Q token.thread ∧ (a.scheduler.get? token.thread).isSome = true) :
    a.PassesBy Q (a.withMonitor o n') := by
  refine ⟨.refl _, fun j m hm token htoken => ?_⟩
  rcases cases_withMonitor hn hm with ⟨_, hbefore⟩ | ⟨rfl, rfl⟩
  · exact .inl ⟨m, hbefore, htoken⟩
  · exact (hadds token htoken).imp_left fun hmem => ⟨n, hn, hmem⟩

/-- Making and removing objects leaves tokens as they are. -/
theorem passesBy_of_respects {roots : List Ref} {h : Heap} (hr : a.heap.Respects roots h) :
    a.PassesBy Q { a with heap := h } := by
  refine ⟨.refl _, fun o n' hn' token htoken => ?_⟩
  rcases hr.others o n' hn' with hbefore | ⟨_, rfl⟩
  · exact .inl ⟨n', hbefore, htoken⟩
  · cases htoken

section Coming

variable {object : Ref}

/-- Nobody has a token for a thread that is yet to be made. -/
theorem Ticketed.absent_next (h : a.Ticketed) : a.Absent a.scheduler.nextId :=
  fun o n hn token htoken heq => absurd (h o n hn token htoken) (by rw [heq]; exact UInt32.lt_irrefl _)

theorem Ticketed.spawn (h : a.Ticketed) (hs : a.scheduler.nextId ≠ 0xffffffff) :
    ({ a with scheduler := (a.scheduler.spawn object stack).2 } : Arena σ).Ticketed :=
  fun o n hn token htoken => UInt32.lt_trans (h o n hn token htoken) (Scheduler.lt_nextId_spawn hs object stack)

theorem Idle.lt_nextId (h : a.Idle u stack) (hn : a.scheduler.Numbered) : u < a.scheduler.nextId := by
  obtain ⟨⟨r, hr, _⟩, _⟩ := h
  exact hn u r hr

theorem Idle.spawn (h : a.Idle u stack) (hn : a.scheduler.Numbered) {stack' : σ} :
    ({ a with scheduler := (a.scheduler.spawn object stack').2 } : Arena σ).Idle u stack := by
  have hne : a.scheduler.nextId ≠ u := fun heq => UInt32.lt_irrefl u (heq ▸ h.lt_nextId hn)
  obtain ⟨⟨r, hr, hrest⟩, habsent⟩ := h
  refine ⟨⟨r, ?_, hrest⟩, habsent⟩
  rw [Scheduler.get?_spawn, if_neg hne]
  exact hr

/-- A new thread waits for nothing. -/
theorem Ticketed.idle_spawn (h : a.Ticketed) :
    ({ a with scheduler := (a.scheduler.spawn object stack).2 } : Arena σ).Idle a.scheduler.nextId stack := by
  refine ⟨⟨{ id := a.scheduler.nextId, object := object, stack := stack }, ?_, rfl, rfl, rfl, rfl⟩,
    h.absent_next⟩
  rw [Scheduler.get?_spawn, if_pos rfl]

theorem Idle.remove (h : a.Idle u stack) (hu : u ≠ t) :
    ({ a with scheduler := (a.scheduler.remove t).2 } : Arena σ).Idle u stack := by
  obtain ⟨⟨r, hr, hrest⟩, habsent⟩ := h
  refine ⟨⟨r, ?_, hrest⟩, habsent⟩
  rw [Scheduler.get?_remove, if_neg (Ne.symm hu)]
  exact hr

theorem numbered_remove {s : Scheduler σ} (h : s.Numbered) (t : ThreadId) : (s.remove t).2.Numbered := by
  intro u r hr
  rw [Scheduler.get?_remove] at hr
  split at hr
  · cases hr
  · exact h u r hr

end Coming
end Arena

namespace Sync
open Stateful Arena

variable {σ : Type} {a a' : Arena σ} {Q : ThreadId → Prop} {t : ThreadId} {stack : σ} {o : Ref}

theorem passesBy_passTo (s : Scheduler σ) (next : Option WaitToken) : s.PassesBy Q (passTo s next) := by
  cases next with
  | none => exact .refl s
  | some token => exact s.attach_passesBy token.thread

/-- An operation that was refused has changed nothing. -/
theorem onMonitor_ends {α : Type} (o : Ref) (f : Monitor → Except MonitorError (α × Monitor))
    (a : Arena σ) :
    Ends (onMonitor o f a) (fun x a' => ∃ n n', a.monitor? o = some n ∧ f n = .ok (x, n') ∧
      a' = a.withMonitor o n') fun _ a' => a' = a := by
  cases h : onMonitor o f a with
  | ok x a' => exact onMonitor_ok h
  | error e a' => exact onMonitor_error h

theorem exit_passesBy (t : ThreadId) (o : Ref) (a : Arena σ) :
    Ends (exit t o a) (fun _ a' => a.PassesBy Q a') fun _ a' => a' = a := by
  refine (onMonitor_ends o (·.exit t) a).bind fun next a₁ ⟨n, n', hn, hf, ha₁⟩ => ?_
  subst ha₁
  rw [handOver_eq]
  have hshed : a.PassesBy Q (a.withMonitor o n') :=
    passesBy_withMonitor hn fun token htoken => .inl (Monitor.exit_tokens hf htoken)
  exact hshed.trans (passesBy_of_scheduler (passesBy_passTo _ next))

theorem notify_passesBy (t : ThreadId) (o : Ref) (a : Arena σ) :
    Ends (notify t o a) (fun _ a' => a.PassesBy Q a') fun _ a' => a' = a := by
  refine (onMonitor_ends o (·.notify t) a).bind fun token a₁ ⟨n, n', hn, hf, ha₁⟩ => ?_
  subst ha₁
  exact passesBy_withMonitor hn fun token htoken => .inl (Monitor.notify_tokens hf htoken)

theorem notifyAll_passesBy (t : ThreadId) (o : Ref) (a : Arena σ) :
    Ends (notifyAll t o a) (fun _ a' => a.PassesBy Q a') fun _ a' => a' = a := by
  refine (onMonitor_ends o (·.notifyAll t) a).bind fun tokens a₁ ⟨n, n', hn, hf, ha₁⟩ => ?_
  subst ha₁
  exact passesBy_withMonitor hn fun token htoken => .inl (Monitor.notifyAll_tokens hf htoken)

/-- Parking a thread after a monitor that somebody else gets meanwhile. -/
theorem parks {r : Thread σ} (hr : a.scheduler.get? t = some r) (halive : r.isAlive = true)
    (habsent : a.Absent t) {n n' : Monitor} (hn : a.monitor? o = some n) (hadds : n.Adds t n')
    (howner : n'.owner ≠ some t) {p : PendingMonitor} (hobject : p.object = o)
    (htoken : p.token.thread = t) (timeout : Timeout) {next : Option WaitToken}
    (hnext : ∀ x, next = some x → x.thread ≠ t)
    (ha' : a' = { a.withMonitor o n' with scheduler := passTo (parked a.scheduler t p timeout) next }) :
    a.PassesBy (· ≠ t) a' ∧ a'.Rests t r.stack ∧
      ∀ r', a'.scheduler.get? t = some r' → r'.isDetached = true := by
  have hself : a'.scheduler.get? t = some (parkedRecord a.scheduler r p timeout) := by
    have hparked := get?_parked hr halive p timeout t
    rw [if_pos rfl] at hparked
    rw [ha']
    cases next with
    | none => exact hparked
    | some x =>
      show ((parked a.scheduler t p timeout).attach x.thread).2.get? t = _
      rw [Scheduler.get?_attach, if_neg (hnext x rfl)]
      exact hparked
  have hmonitors : ∀ j m, a'.monitor? j = some m → j ≠ o ∧ a.monitor? j = some m ∨ j = o ∧ m = n' :=
    fun j m hm => cases_withMonitor hn (by rw [ha'] at hm; exact hm)
  refine ⟨?_, ⟨_, hself, isAlive_parkedRecord a.scheduler r p timeout, rfl, htoken, ?_, ?_⟩, ?_⟩
  · have hmarked : a.scheduler.PassesBy (· ≠ t) (parked a.scheduler t p timeout) :=
      (a.scheduler.update_passesBy_others (fun h => h rfl) _).trans
        (Scheduler.detach_passesBy _ (fun h => h rfl) timeout)
    have hshed : a.PassesBy (· ≠ t) (a.withMonitor o n') := passesBy_withMonitor hn fun token hmem =>
      (hadds token hmem).imp_right fun heq => ⟨fun hne => hne heq, by rw [heq, hr]; rfl⟩
    rw [ha']
    exact hshed.trans (passesBy_of_scheduler (hmarked.trans (passesBy_passTo _ next)))
  · intro j m hm hj
    rcases hmonitors j m hm with ⟨_, hbefore⟩ | ⟨heq, _⟩
    · exact habsent j m hbefore
    · exact absurd (heq.trans hobject.symm) hj
  · intro m hm
    rcases hmonitors p.object m hm with ⟨hne, _⟩ | ⟨_, rfl⟩
    · exact absurd hobject hne
    · exact howner
  · intro r' hr'
    rw [hself] at hr'
    obtain rfl := Option.some.inj hr'
    cases timeout <;> rfl

/-- A thread enters a monitor, or it is parked for it. -/
theorem enter_idle (h : a.Idle t stack) (o : Ref) :
    Ends (enter t o a) (fun result a' => a.PassesBy (· ≠ t) a' ∧ a'.Rests t stack ∧
      (result = .acquired → a'.Idle t stack)) fun _ a' => a' = a := by
  obtain ⟨⟨r, hr, halive, hpending, hmark, hstack⟩, habsent⟩ := id h
  refine (onMonitor_ends o (·.enter t) a).bind fun entry a₁ ⟨n, n', hn, hf, ha₁⟩ => ?_
  subst ha₁
  rcases Monitor.enter_tokens hf with ⟨rfl, hsubset⟩ | ⟨rfl, hadds, howner⟩
  · have hby : a.PassesBy (fun _ => True) (a.withMonitor o n') :=
      passesBy_withMonitor hn fun token hmem => .inl (hsubset hmem)
    have hidle := hby.idle trivial h
    exact ⟨hby.mono fun _ _ => trivial, hidle.rests, fun _ => hidle⟩
  · dsimp only
    rw [bind_of_ok (park_eq (a := a.withMonitor o n') hr _)]
    let a' : Arena σ := { a.withMonitor o n' with
      scheduler := passTo (parked a.scheduler t ⟨o, ⟨t, 1⟩, .enter⟩ .indefinite) none }
    have ha' : a' = { a.withMonitor o n' with
        scheduler := passTo (parked a.scheduler t ⟨o, ⟨t, 1⟩, .enter⟩ .indefinite) none } := rfl
    obtain ⟨hby, hrests, _⟩ := parks hr halive habsent hn hadds howner rfl rfl .indefinite
      (fun _ hx => by cases hx) ha'
    exact ⟨hby, hstack ▸ hrests, fun hacquired => by cases hacquired⟩

/-- A thread that waits is parked. -/
theorem wait_idle (h : a.Idle t stack) (o : Ref) (timeout : Timeout) :
    Ends (wait t o timeout a) (fun _ a' => a.PassesBy (· ≠ t) a' ∧ a'.Rests t stack ∧
      ∀ r, a'.scheduler.get? t = some r → r.isDetached = true) fun _ a' => a' = a := by
  obtain ⟨⟨r, hr, halive, hpending, hmark, hstack⟩, habsent⟩ := h
  refine (onMonitor_ends o (·.wait t) a).bind fun ⟨token, next⟩ a₁ ⟨n, n', hn, hf, ha₁⟩ => ?_
  subst ha₁
  obtain ⟨hadds, htoken, howner, hnext⟩ := Monitor.wait_tokens (habsent o n hn) hf
  dsimp only
  rw [bind_of_ok (park_eq (a := a.withMonitor o n') hr _)]
  subst hstack
  show Ends (handOver next _) _ _
  rw [handOver_eq]
  exact parks (p := ⟨o, token, .wait⟩) hr halive habsent hn hadds howner rfl htoken timeout hnext rfl

/-- The monitor a thread seeks is taken, or the thread is in line for it. -/
theorem takeMonitor_seeks {r : Thread σ} {p : PendingMonitor} (hr : a.scheduler.get? t = some r)
    (h : a.Seeks t (some p)) :
    Ends (takeMonitor t p a) (fun entry a' => a'.scheduler = a.scheduler ∧ a.PassesBy (· ≠ t) a' ∧
      (entry = .acquired → a'.Absent t) ∧ (entry = .queued → a'.Seeks t (some p)))
      fun e _ => ∃ fatal, e = .fatal fatal := by
  obtain ⟨htoken, helsewhere, howner⟩ := h
  have hmonitor : Ends (monitorOf p.object a) (fun n a' => a' = a ∧ a.monitor? p.object = some n)
      fun e _ => ∃ fatal, e = .fatal fatal := by
    unfold monitorOf
    rw [bind_get]
    cases hx : a.heap.get? p.object with
    | none => exact ⟨_, rfl⟩
    | some x => exact ⟨rfl, by unfold monitor?; rw [hx]; rfl⟩
  unfold takeMonitor
  refine hmonitor.bind fun n a₁ ⟨ha₁, hn⟩ => ?_
  subst ha₁
  have hne := howner n hn
  rw [if_neg hne]
  have hreacquired := n.reacquire_tokens (show n.owner ≠ some p.token.thread by rwa [htoken])
  rw [htoken] at hreacquired
  generalize n.reacquire p.token = outcome at hreacquired ⊢
  obtain ⟨entry, n'⟩ := outcome
  dsimp only at hreacquired ⊢
  have hadds : n.Adds t n' := by rcases hreacquired with ⟨_, _, hadds⟩ | ⟨_, hadds, _⟩ <;> exact hadds
  refine ⟨rfl, passesBy_withMonitor hn fun token hmem => (hadds token hmem).imp_right fun heq =>
    ⟨fun hne => hne heq, by rw [heq, hr]; rfl⟩, fun hentry j m hm => ?_, fun hentry => ⟨htoken, ?_, ?_⟩⟩
  · subst hentry
    rcases cases_withMonitor hn hm with ⟨hj, hbefore⟩ | ⟨_, rfl⟩
    · exact helsewhere j m hbefore hj
    · rcases hreacquired with ⟨_, habsent, _⟩ | ⟨hqueued, _⟩
      · exact habsent
      · cases hqueued
  · intro j m hm hj
    rcases cases_withMonitor hn hm with ⟨_, hbefore⟩ | ⟨heq, _⟩
    · exact helsewhere j m hbefore hj
    · exact absurd heq hj
  · subst hentry
    intro m hm
    rcases cases_withMonitor hn hm with ⟨hother, _⟩ | ⟨_, rfl⟩
    · exact absurd rfl hother
    · rcases hreacquired with ⟨hacquired, _⟩ | ⟨_, _, howner'⟩
      · cases hacquired
      · exact howner'

/-- A thread that rests goes on with what it asked for, or rests again. -/
theorem resume_rests (h : a.Rests t stack) :
    Ends (resume t a) (fun result a' => a.PassesBy (· ≠ t) a' ∧ a'.Rests t stack ∧
      (result ≠ .blocked → ∀ r, a'.scheduler.get? t = some r → r.pending = none))
      fun e _ => ∃ fatal, e = .fatal fatal := by
  obtain ⟨r, hr, halive, hstack, hseeks⟩ := id h
  unfold resume
  rw [bind_get, hr, Option.bind_some]
  cases hpending : r.pending with
  | none =>
    refine ⟨.refl a, h, fun _ r' hr' => ?_⟩
    rw [hr] at hr'
    rw [← Option.some.inj hr', hpending]
  | some p =>
    rw [hpending] at hseeks
    refine (takeMonitor_seeks hr hseeks).bind fun entry a₁ ⟨hscheduler, hby, hacquired, hqueued⟩ => ?_
    have hr₁ : a₁.scheduler.get? t = some r := by rw [hscheduler, hr]
    cases entry with
    | queued =>
      have hself : (a₁.scheduler.detach t .indefinite).2.get? t = some { r with state := .detached } := by
        rw [Scheduler.get?_detach, if_pos rfl, hr₁, Option.map_some, if_pos halive]
        rfl
      refine ⟨hby.trans (passesBy_of_scheduler (Scheduler.detach_passesBy _ (fun h => h rfl) _)),
        ⟨_, hself, rfl, hstack, ?_⟩, fun hblocked => absurd rfl hblocked⟩
      rw [hpending]
      exact hqueued rfl
    | acquired =>
      have hself : (a₁.scheduler.update t fun u => { u with pending := none }).get? t =
          some { r with pending := none } := by
        rw [Scheduler.get?_update, if_pos rfl, hr₁]
        rfl
      refine ⟨hby.trans (passesBy_of_scheduler (Scheduler.update_passesBy_others _ (fun h => h rfl) _)),
        ⟨_, hself, halive, hstack, hacquired rfl⟩, fun _ r' hr' => ?_⟩
      rw [show Scheduler.get? _ t = _ from hself] at hr'
      rw [← Option.some.inj hr']

end Sync

end ClassMachine
