import ClassMachine.Proofs.Sync.Absence

/-!
The claims of threads on monitors. Whatever becomes of threads, a live one has a token only in the monitor
it asks for, so a thread that asks for none cannot be handed one. This outlasts threads that end with a
monitor pending, or are taken away, which the whole order between monitors and threads does not.
-/
namespace ClassMachine
namespace Arena

variable {σ : Type} {a a' : Arena σ} {s : Scheduler σ} {t : ThreadId} {o : Ref} {next : Option WaitToken}
  {m m' : Monitor} {r r' : Thread σ}

/-- A thread owns the monitor it asks for, as deeply as it asks for it. -/
def Owns (a : Arena σ) (t : ThreadId) (p : PendingMonitor) : Prop :=
  ∃ m, a.monitor? p.object = some m ∧ m.owner = some t ∧ m.count = p.token.reentrancy

section Records

/-- Records change in ways the order does not see. -/
theorem Claimed.heeds (h : a.Claimed) (hs : a.scheduler.Pointwise Thread.Heeds s) (hr : s.Rotates) :
    ({ a with scheduler := s } : Arena σ).Claimed where
  sound := h.sound
  given o m hm token htoken := lt_of_lt_of_eq (h.given o m hm token htoken) hs.nextId.symm
  asks o m hm token htoken r' hr' halive := by
    obtain ⟨r, hr, hheeds⟩ := hs.exists_of_some' hr'
    obtain ⟨reason, hp⟩ := h.asks o m hm token htoken r hr (hheeds.alive ▸ halive)
    exact ⟨reason, hheeds.pending.trans hp⟩
  stands t r' p hr' hp := by
    obtain ⟨r, hr, hheeds⟩ := hs.exists_of_some' hr'
    have hp₀ := hheeds.pending.symm.trans hp
    obtain ⟨ht, halive, m, hm, hst⟩ := h.stands t r p hr hp₀
    refine ⟨ht, hheeds.alive.trans halive, m, hm, ?_⟩
    cases hst with
    | waiting hreason hwait => exact .waiting hreason hwait
    | queued hqueue => exact .queued hqueue
    | handed howner hcount hready =>
      exact .handed howner hcount (hheeds.ready (by rw [hp₀]; exact Option.some_ne_none p) hready)
  numbered := hs.numbered h.numbered
  rotates := hr

/-- One thread ends, or is taken away; the others are woken at most. -/
theorem Claimed.without (h : a.Claimed) (hn : s.nextId = a.scheduler.nextId)
    (hothers : ∀ u r', u ≠ t → s.get? u = some r' → ∃ r, a.scheduler.get? u = some r ∧ r.Woken r')
    (hself : ∀ r', s.get? t = some r' →
      (a.scheduler.get? t).isSome ∧ r'.isAlive = false ∧ r'.pending = none) (hr : s.Rotates) :
    ({ a with scheduler := s } : Arena σ).Claimed where
  sound := h.sound
  given o m hm token htoken := lt_of_lt_of_eq (h.given o m hm token htoken) hn.symm
  asks o m hm token htoken r' hr' halive := by
    by_cases ht : token.thread = t
    · obtain ⟨-, hdead, -⟩ := hself r' (ht ▸ hr')
      rw [hdead] at halive
      cases halive
    · obtain ⟨r, hr, hwoken⟩ := hothers token.thread r' ht hr'
      obtain ⟨reason, hp⟩ := h.asks o m hm token htoken r hr (hwoken.heeds.alive ▸ halive)
      exact ⟨reason, hwoken.pending.trans hp⟩
  stands u r' p hr' hp := by
    by_cases hu : u = t
    · subst hu
      obtain ⟨-, -, hnone⟩ := hself r' hr'
      rw [hnone] at hp
      cases hp
    · obtain ⟨r, hr, hwoken⟩ := hothers u r' hu hr'
      obtain ⟨hthread, halive, m, hm, hst⟩ := h.stands u r p hr (hwoken.pending.symm.trans hp)
      exact ⟨hthread, hwoken.isAlive halive, m, hm, hst.woken hwoken⟩
  numbered u r' hr' := by
    show u < s.nextId
    rw [hn]
    by_cases hu : u = t
    · subst hu
      obtain ⟨r, hr⟩ := Option.isSome_iff_exists.1 (hself r' hr').1
      exact h.numbered u r hr
    · obtain ⟨r, hr, _⟩ := hothers u r' hu hr'
      exact h.numbered u r hr
  rotates := hr

theorem Claimed.terminate (h : a.Claimed) (t : ThreadId) :
    ({ a with scheduler := (a.scheduler.terminate t).2 } : Arena σ).Claimed := by
  have hwakes := a.scheduler.terminate_wakes t
  refine h.without (t := t) hwakes.nextId (fun u r' hu hr' => Scheduler.terminate_others' _ hu hr')
    (fun r' hr' => ?_) (Scheduler.terminate_rotates h.rotates t)
  obtain ⟨v, hv, hwoken⟩ := hwakes.exists_of_some' hr'
  rw [Scheduler.get?_update, if_pos rfl] at hv
  obtain ⟨r, hr, rfl⟩ := Option.map_eq_some_iff.1 hv
  exact ⟨by rw [hr]; rfl, hwoken.heeds.alive, hwoken.pending⟩

theorem Claimed.remove (h : a.Claimed) (t : ThreadId) :
    ({ a with scheduler := (a.scheduler.remove t).2 } : Arena σ).Claimed := by
  have hget : ∀ u, (a.scheduler.remove t).2.get? u = if t = u then none else a.scheduler.get? u :=
    fun u => Scheduler.get?_remove ..
  refine h.without (t := t) rfl (fun u r' hu hr' => ⟨r', ?_, .refl r'⟩) (fun r' hr' => ?_)
    (Scheduler.rotates_of_withoutReady h.rotates t rfl fun u hu => by rw [hget, if_neg hu])
  · rwa [hget, if_neg (Ne.symm hu)] at hr'
  · rw [hget, if_pos rfl] at hr'
    cases hr'

/-- A new thread has no token, for nobody has given one with its number. -/
theorem Claimed.spawn (h : a.Claimed) (hn : a.scheduler.nextId ≠ 0xffffffff) (object : Ref) (stack : σ) :
    ({ a with scheduler := (a.scheduler.spawn object stack).2 } : Arena σ).Claimed where
  sound := h.sound
  given o m hm token htoken :=
    UInt32.lt_trans (h.given o m hm token htoken) (Scheduler.lt_nextId_spawn hn object stack)
  asks o m hm token htoken r hr halive := by
    rw [Scheduler.get?_spawn] at hr
    split at hr
    · next heq => exact absurd (h.given o m hm token htoken) (heq ▸ UInt32.lt_irrefl _)
    · exact h.asks o m hm token htoken r hr halive
  stands u r p hr hp := by
    rw [Scheduler.get?_spawn] at hr
    split at hr
    · cases hr
      cases hp
    · exact h.stands u r p hr hp
  numbered := Scheduler.spawn_numbered h.numbered hn object stack
  rotates := Scheduler.spawn_rotates h.rotates object stack

end Records

/-- The heap changes, but not for what threads wait for. -/
theorem Claimed.respects (h : a.Claimed) {roots : List Ref} {heap : Heap} (hr : a.heap.Respects roots heap)
    (hroots : ∀ t r p, a.scheduler.get? t = some r → r.pending = some p →
      (a.monitor? p.object).isSome → p.object ∈ roots) : ({ a with heap := heap } : Arena σ).Claimed := by
  have hsame : ∀ o n, heap.monitor? o = some n → a.monitor? o = some n ∨ n = {} := fun o n hn =>
    (hr.others o n hn).imp_right And.right
  refine ⟨fun o n hn => ?_, fun o n hn token htoken => ?_, fun o n hn token htoken => ?_,
    fun t r p hrecord hp => ?_, h.numbered, h.rotates⟩
  · rcases hsame o n hn with hbefore | rfl
    · exact h.sound o n hbefore
    · exact Monitor.sound_fresh
  · rcases hsame o n hn with hbefore | rfl
    · exact h.given o n hbefore token htoken
    · cases htoken
  · rcases hsame o n hn with hbefore | rfl
    · exact h.asks o n hbefore token htoken
    · cases htoken
  · obtain ⟨hthread, halive, n, hn, hst⟩ := h.stands t r p hrecord hp
    have hroot := hroots t r p hrecord hp (by rw [hn]; rfl)
    exact ⟨hthread, halive, n, hr.kept p.object hroot n hn, hst⟩

/-- A turn of a live thread at the one monitor it may ask for. -/
theorem Claimed.turn {goesOn : Bool} (h : a.Claimed) (hr : a.scheduler.get? t = some r)
    (halive : r.isAlive = true) (hp : ∀ p, r.pending = some p → p.object = o)
    (ht : Turn a a' t o goesOn next m m' r') : a'.Claimed := by
  have hl := ht.leaves
  obtain ⟨hsound, hstands, hnumbered⟩ := h.leaves_settled hr ht.before hl ht.sound ht.moves ht.agrees
  have hown : ∀ token ∈ m'.tokens, token.thread ≠ t → token ∈ m.tokens := fun token htoken hne => by
    rcases List.mem_append.1 htoken with hw | hq
    · exact List.mem_append_left _ (ht.moves.waiting token hw hne)
    · exact ht.moves.queued token hq hne
  -- a token is one of the thread itself, or it was there before
  have hold : ∀ j n, a'.monitor? j = some n → ∀ token ∈ n.tokens, token.thread ≠ t →
      ∃ n₀, a.monitor? j = some n₀ ∧ token ∈ n₀.tokens := by
    intro j n hn token htoken hne
    rw [hl.monitors] at hn
    split at hn
    · next hoj =>
      cases hn
      exact ⟨m, hoj ▸ ht.before, hown token htoken hne⟩
    · exact ⟨n, hn, htoken⟩
  refine ⟨hsound, fun j n hn token htoken => ?_, fun j n hn token htoken s hs hlive => ?_, hstands, hnumbered,
    hl.rotates⟩
  · rw [hl.nextId]
    by_cases hself : token.thread = t
    · exact hself ▸ h.numbered t r hr
    · obtain ⟨n₀, hn₀, hmem⟩ := hold j n hn token htoken hself
      exact h.given j n₀ hn₀ token hmem
  · by_cases hself : token.thread = t
    · rw [hself, hl.self] at hs
      cases hs
      rw [hl.monitors] at hn
      split at hn
      · next hoj =>
        cases hn
        subst hoj
        obtain ⟨reason, hpending, -⟩ := ht.agrees.pending_eq ht.sound.toPlaced htoken hself
        exact ⟨reason, hpending⟩
      · next hoj =>
        exact absurd hself (h.absent hr halive hn (fun p hpp heq => hoj ((hp p hpp).symm.trans heq)) token htoken)
    · obtain ⟨n₀, hn₀, hmem⟩ := hold j n hn token htoken hself
      obtain ⟨s₀, hs₀, hwoken⟩ := hl.exists_before hself hs
      obtain ⟨reason, hpending⟩ := h.asks j n₀ hn₀ token hmem s₀ hs₀ (hwoken.heeds.alive ▸ hlive)
      exact ⟨reason, hwoken.pending.trans hpending⟩

/-- A turn gives out no handle, and nothing comes to be found under null. -/
theorem Turn.addressed {goesOn : Bool} (h : Turn a a' t o goesOn next m m' r') (ha : a.heap.Addressed)
    (hnext : a'.heap.nextHandle = a.heap.nextHandle) : a'.heap.Addressed := by
  refine ⟨by rw [hnext]; exact ha.next, ?_⟩
  have hmonitor := h.leaves.monitors .null
  have hbefore : a.monitor? .null = none := by
    unfold monitor?
    rw [ha.null]
    rfl
  rw [if_neg, hbefore] at hmonitor
  · exact Option.map_eq_none_iff.1 hmonitor
  · rintro rfl
    exact absurd h.before (by rw [hbefore]; simp)

end Arena

namespace Sync
open Stateful Arena

variable {σ α β : Type} {a a' : Arena σ} {t : ThreadId} {o : Ref} {r : Thread σ}

section Handles

/-- Fails only where the machine cannot go on, and gives out no handle. -/
def Firm (x : SyncM σ α) : Prop :=
  ∀ a, Ends (x a) (fun _ a' => a'.heap.nextHandle = a.heap.nextHandle) fun e _ => ∃ error, e = .fatal error

theorem Firm.pure (v : α) : Firm (Pure.pure v : SyncM σ α) := fun _ => rfl

theorem Firm.bind {x : SyncM σ α} {f : α → SyncM σ β} (hx : Firm x)
    (hf : ∀ v, Firm (f v)) : Firm (x >>= f) := fun a =>
  (hx a).bind fun v a' h => (hf v a').mono (fun _ _ h' => h'.trans h) fun _ _ h' => h'

theorem Firm.inconsistent (what : Inconsistency) : Firm (inconsistent what : SyncM σ α) :=
  fun _ => ⟨_, rfl⟩

theorem Firm.schedule (f : Scheduler σ → Scheduler σ) : Firm (schedule f) :=
  fun _ => rfl

theorem monitorOf_firm (object : Ref) : Firm (monitorOf object : SyncM σ Monitor) := by
  intro a
  unfold monitorOf
  rw [bind_get]
  cases a.heap.get? object with
  | none => exact ⟨_, rfl⟩
  | some o => rfl

theorem setMonitor_firm (object : Ref) (monitor : Monitor) : Firm (setMonitor object monitor : SyncM σ Unit) :=
  fun _ => rfl

theorem handOver_firm (next : Option WaitToken) : Firm (handOver next : SyncM σ Unit) := by
  cases next with
  | none => exact .pure ()
  | some token => exact .schedule fun s => (s.attach token.thread).2

theorem park_firm (thread : ThreadId) (p : PendingMonitor) : Firm (park thread p : SyncM σ Unit) := by
  intro a
  unfold park
  rw [bind_get]
  cases a.scheduler.get? thread with
  | none => exact ⟨_, rfl⟩
  | some r => rfl

theorem resume_firm (thread : ThreadId) : Firm (resume thread : SyncM σ Resume) := by
  have htake : ∀ p, Firm (takeMonitor thread p : SyncM σ Entry) := by
    intro p
    refine (monitorOf_firm p.object).bind fun monitor => ?_
    split
    · split
      · exact .pure _
      · exact .inconsistent _
    · exact (setMonitor_firm _ _).bind fun _ => .pure _
  intro a
  unfold resume
  rw [bind_get]
  cases (a.scheduler.get? thread).bind (·.pending) with
  | none => rfl
  | some p =>
    refine (htake p).bind (fun entry => ?_) a
    cases entry with
    | queued => exact (Firm.schedule _).bind fun _ => .pure _
    | acquired => exact (Firm.schedule _).bind fun _ => .pure _

/-- Gives out no handle, and refuses before anything has changed. -/
def Modest (x : SyncM σ α) : Prop :=
  ∀ a, Ends (x a) (fun _ a' => a'.heap.nextHandle = a.heap.nextHandle)
    fun e a' => ∀ error, e = .monitor error → a' = a

theorem Modest.bind {x : SyncM σ α} {f : α → SyncM σ β} (hx : Modest x)
    (hf : ∀ v, Firm (f v)) : Modest (x >>= f) := fun a =>
  (hx a).bind fun v a' h => (hf v a').mono (fun _ _ h' => h'.trans h) fun _ _ h' error he => by
    obtain ⟨fatal, hfatal⟩ := h'
    rw [hfatal] at he
    cases he

theorem onMonitor_modest (object : Ref) (f : Monitor → Except MonitorError (α × Monitor)) :
    Modest (onMonitor object f : SyncM σ α) := by
  intro a
  cases hrun : onMonitor object f a with
  | error e a' =>
    intro _ _
    exact onMonitor_error hrun
  | ok v a' =>
    obtain ⟨_, _, _, _, rfl⟩ := onMonitor_ok hrun
    rfl

theorem enter_modest (thread : ThreadId) (object : Ref) : Modest (enter thread object : SyncM σ Acquire) := by
  refine (onMonitor_modest object _).bind fun entry => ?_
  cases entry with
  | acquired => exact .pure _
  | queued => exact (park_firm thread _).bind fun _ => (Firm.schedule _).bind fun _ => .pure _

theorem exit_modest (thread : ThreadId) (object : Ref) : Modest (exit thread object : SyncM σ Unit) :=
  (onMonitor_modest object _).bind fun next => handOver_firm next

theorem wait_modest (thread : ThreadId) (object : Ref) (timeout : Timeout) :
    Modest (wait thread object timeout : SyncM σ Unit) :=
  (onMonitor_modest object _).bind fun (_, next) => (park_firm thread _).bind fun _ =>
    (Firm.schedule _).bind fun _ => handOver_firm next

theorem notify_modest (thread : ThreadId) (object : Ref) : Modest (notify thread object : SyncM σ (Option ThreadId)) :=
  (onMonitor_modest object _).bind fun _ => .pure _

theorem notifyAll_modest (thread : ThreadId) (object : Ref) :
    Modest (notifyAll thread object : SyncM σ (List ThreadId)) :=
  (onMonitor_modest object _).bind fun _ => .pure _

end Handles

section Operations

/-- A turn leaves claims on monitors as they should be. -/
theorem claimed_of_turn {goesOn : Bool} {next : Option WaitToken} {m m' : Monitor} {r' : Thread σ}
    (h : a.Claimed) (ha : a.heap.Addressed) (hr : Free a t r) (hturn : Turn a a' t o goesOn next m m' r')
    (hnext : a'.heap.nextHandle = a.heap.nextHandle) : a'.Claimed ∧ a'.heap.Addressed :=
  ⟨h.turn hr.record hr.alive (fun p hp => by rw [hr.pending] at hp; cases hp) hturn,
    hturn.addressed ha hnext⟩

theorem exit_ends (h : a.Claimed) (ha : a.heap.Addressed) (hr : Free a t r) (o : Ref) :
    Ends (exit t o a) (fun _ a' => a'.Claimed ∧ a'.heap.Addressed) fun _ a' => a' = a := by
  have hrefused := exit_passesBy (Q := fun _ => False) t o a
  cases he : exit t o a with
  | ok u a' =>
    obtain ⟨_, _, _, _, hturn⟩ := exit_turn h hr he
    exact claimed_of_turn h ha hr hturn ((exit_modest t o a).of_ok he)
  | error e a' => exact hrefused.of_error he

theorem notify_ends (h : a.Claimed) (ha : a.heap.Addressed) (hr : Free a t r) (o : Ref) :
    Ends (notify t o a) (fun _ a' => a'.Claimed ∧ a'.heap.Addressed) fun _ a' => a' = a := by
  have hrefused := notify_passesBy (Q := fun _ => False) t o a
  cases he : notify t o a with
  | ok woken a' =>
    obtain ⟨_, _, _, _, hturn⟩ := notify_turn h hr he
    exact claimed_of_turn h ha hr hturn ((notify_modest t o a).of_ok he)
  | error e a' => exact hrefused.of_error he

theorem notifyAll_ends (h : a.Claimed) (ha : a.heap.Addressed) (hr : Free a t r) (o : Ref) :
    Ends (notifyAll t o a) (fun _ a' => a'.Claimed ∧ a'.heap.Addressed) fun _ a' => a' = a := by
  have hrefused := notifyAll_passesBy (Q := fun _ => False) t o a
  cases he : notifyAll t o a with
  | ok woken a' =>
    obtain ⟨_, _, _, _, hturn⟩ := notifyAll_turn h hr he
    exact claimed_of_turn h ha hr hturn ((notifyAll_modest t o a).of_ok he)
  | error e a' => exact hrefused.of_error he

/-- A thread enters a monitor, and its record stays, or it is parked for it. -/
theorem enter_ends (h : a.Claimed) (ha : a.heap.Addressed) (hr : Free a t r) (o : Ref) :
    Ends (enter t o a) (fun result a' => (a'.Claimed ∧ a'.heap.Addressed) ∧
      (result = .acquired ∧ a'.scheduler = a.scheduler ∨ result = .blocked ∧
        a'.scheduler.get? t = some (parkedRecord a.scheduler r ⟨o, ⟨t, 1⟩, .enter⟩ .indefinite)))
      fun _ a' => a' = a := by
  have hdone : Ends (enter t o a) (fun result a' => result = .acquired ∧ a'.scheduler = a.scheduler ∨
      result = .blocked ∧
        a'.scheduler.get? t = some (parkedRecord a.scheduler r ⟨o, ⟨t, 1⟩, .enter⟩ .indefinite))
      fun _ a' => a' = a := by
    refine (onMonitor_ends o (·.enter t) a).bind fun entry a₁ ⟨m, m', hm, _, ha₁⟩ => ?_
    subst ha₁
    cases entry with
    | acquired => exact .inl ⟨rfl, rfl⟩
    | queued =>
      dsimp only
      rw [bind_of_ok (park_eq (a := a.withMonitor o m') hr.record _)]
      exact .inr ⟨rfl, (get?_parked hr.record hr.alive _ _ t).trans (if_pos rfl)⟩
  cases he : enter t o a with
  | ok result a' =>
    obtain ⟨_, _, _, _, hturn⟩ := enter_turn h hr he
    exact ⟨claimed_of_turn h ha hr hturn ((enter_modest t o a).of_ok he), hdone.of_ok he⟩
  | error e a' => exact hdone.of_error he

/-- A thread that waits lets go of a monitor it owns, and remembers how deeply it owned it. -/
theorem wait_ends (h : a.Claimed) (ha : a.heap.Addressed) (hr : Free a t r) (o : Ref) (timeout : Timeout) :
    Ends (wait t o timeout a) (fun _ a' => (a'.Claimed ∧ a'.heap.Addressed) ∧
      ∃ m, a.monitor? o = some m ∧ m.owner = some t ∧
        a'.scheduler.get? t = some (parkedRecord a.scheduler r ⟨o, ⟨t, m.count⟩, .wait⟩ timeout))
      fun _ a' => a' = a := by
  have hdone : Ends (wait t o timeout a) (fun _ a' => ∃ m, a.monitor? o = some m ∧ m.owner = some t ∧
      a'.scheduler.get? t = some (parkedRecord a.scheduler r ⟨o, ⟨t, m.count⟩, .wait⟩ timeout))
      fun _ a' => a' = a := by
    refine (onMonitor_ends o (·.wait t) a).bind fun ⟨token, next⟩ a₁ ⟨m, m', hm, hf, ha₁⟩ => ?_
    subst ha₁
    obtain ⟨-, -, -, -, hnext⟩ := Monitor.wait_spec (h.sound o m hm) hf
    have hown : m.owner = some t ∧ (⟨t, m.count⟩ : WaitToken) = token := by
      unfold Monitor.wait at hf
      split at hf
      · next hown =>
        simp only [Except.ok.injEq, Prod.ext_iff] at hf
        exact ⟨(Monitor.ownedBy_iff.1 hown).1, hf.1.1⟩
      · cases hf
    dsimp only
    rw [bind_of_ok (park_eq (a := a.withMonitor o m') hr.record _)]
    show Ends (handOver next _) _ _
    rw [handOver_eq]
    refine ⟨m, hm, hown.1, ?_⟩
    rw [hown.2]
    exact (Leaves.parks h.rotates hm m' hr.record hr.alive ⟨o, token, .wait⟩ timeout hnext).self
  cases he : wait t o timeout a with
  | ok u a' =>
    obtain ⟨_, _, _, _, hturn⟩ := wait_turn h hr he
    exact ⟨claimed_of_turn h ha hr hturn ((wait_modest t o timeout a).of_ok he), hdone.of_ok he⟩
  | error e a' => exact hdone.of_error he

end Operations

end Sync

end ClassMachine
