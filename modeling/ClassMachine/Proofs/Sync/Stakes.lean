import ClassMachine.Proofs.Sync.Orderly

/-!
How deep threads are in monitors. The stake of a thread in a monitor is the depth at which it owns
it, or the depth it remembers while it is parked. Entering a monitor adds one level to the stake of
the thread that enters, also when it has to queue, and leaving takes one away. Waiting, notifying,
passing a monitor on and coming back change no stake at all.
-/
namespace ClassMachine

namespace Monitor

/-- How deeply a thread owns the monitor. -/
def depth (m : Monitor) (t : ThreadId) : Nat := if m.owner = some t then m.count.toNat else 0

/-- Only a thread that was in line can own more of the monitor than before. -/
def Spared (m m' : Monitor) (u : ThreadId) : Prop :=
  m'.depth u = m.depth u ∨ ∃ token ∈ m.entrants, token.thread = u

variable {m m' : Monitor} {t : ThreadId}

theorem depth_of_owner (h : m.owner = some t) : m.depth t = m.count.toNat := by
  unfold depth
  rw [if_pos h]

theorem depth_of_not_owner (h : m.owner ≠ some t) : m.depth t = 0 := by
  unfold depth
  rw [if_neg h]

theorem owner_of_depth_pos (h : 0 < m.depth t) : m.owner = some t := by
  by_contra hne
  rw [depth_of_not_owner hne] at h
  exact Nat.lt_irrefl 0 h

theorem depth_congr (ho : m'.owner = m.owner) (hc : m'.count = m.count) (t : ThreadId) :
    m'.depth t = m.depth t := by
  unfold depth
  rw [ho, hc]

theorem owner_queue (m : Monitor) (token : WaitToken) : (m.queue token).owner = m.owner := by
  unfold queue
  split <;> rfl

theorem count_queue (m : Monitor) (token : WaitToken) : (m.queue token).count = m.count := by
  unfold queue
  split <;> rfl

theorem depth_queue (m : Monitor) (token : WaitToken) (t : ThreadId) :
    (m.queue token).depth t = m.depth t :=
  depth_congr (m.owner_queue token) (m.count_queue token) t

theorem enter_depth {entry : Entry} (he : m.enter t = .ok (entry, m')) :
    (entry = .acquired → m'.depth t = m.depth t + 1) ∧ (entry = .queued → m.depth t = 0) ∧
      ∀ u, u ≠ t → m'.depth u = m.depth u := by
  unfold enter at he
  cases ho : m.owner with
  | none =>
    simp only [ho] at he
    cases he
    refine ⟨fun _ => ?_, (fun hq => by cases hq), fun u hu => ?_⟩
    · rw [depth_of_owner rfl, depth_of_not_owner (by simp [ho])]
      rfl
    · rw [depth_of_not_owner (by simp [Ne.symm hu]), depth_of_not_owner (by simp [ho])]
  | some owner =>
    simp only [ho] at he
    split at he
    · next hown =>
      subst hown
      split at he
      · cases he
      · next hmax =>
        cases he
        refine ⟨fun _ => ?_, (fun hq => by cases hq), fun u hu => ?_⟩
        · have hne : m.count.toNat ≠ 4294967295 := fun hc => hmax (UInt32.toNat_inj.1 hc)
          have hlt := m.count.toNat_lt
          rw [depth_of_owner rfl, depth_of_owner ho, UInt32.toNat_add, UInt32.toNat_one]
          omega
        · have hne : owner ≠ u := Ne.symm hu
          rw [depth_of_not_owner (by simp [hne]), depth_of_not_owner (by simp [ho, hne])]
    · next hne =>
      cases he
      refine ⟨(fun ha => by cases ha), fun _ => ?_, fun u _ => m.depth_queue _ u⟩
      exact depth_of_not_owner (by simp [ho, hne])

/-- A monitor its owner let go of is owned by the head of the line, if by anybody. -/
theorem depth_handOff {loose : Monitor} (ho : loose.owner = none) {u : ThreadId}
    (h : ∀ token ∈ loose.entrants, token.thread ≠ u) : loose.handOff.2.depth u = 0 := by
  unfold handOff
  cases he : loose.entrants with
  | nil => exact depth_of_not_owner (by simp [ho])
  | cons next rest =>
    refine depth_of_not_owner fun hown => ?_
    exact h next (he ▸ List.mem_cons_self) (Option.some.inj hown)

theorem spared_handOff {n : Monitor} (hm : m.owner = some t) (ho : n.owner = none)
    (he : n.entrants = m.entrants) {u : ThreadId} (hu : u ≠ t) : m.Spared n.handOff.2 u := by
  by_cases hline : ∃ token ∈ m.entrants, token.thread = u
  · exact .inr hline
  · refine .inl ?_
    have hne : m.owner ≠ some u := fun hown => hu (Option.some.inj (hown.symm.trans hm))
    rw [depth_of_not_owner hne]
    refine depth_handOff ho fun token htoken hthread => ?_
    rw [he] at htoken
    exact hline ⟨token, htoken, hthread⟩

theorem exit_depth {next : Option WaitToken} (hs : m.Sound) (he : m.exit t = .ok (next, m')) :
    m.depth t = m'.depth t + 1 ∧ ∀ u, u ≠ t → m.Spared m' u := by
  unfold exit at he
  split at he
  · next hown =>
    obtain ⟨ho, hpos⟩ := ownedBy_iff.1 hown
    rw [UInt32.lt_iff_toNat_lt] at hpos
    rw [depth_of_owner ho]
    split at he
    · next hcount =>
      cases he
      have hle : (1 : UInt32) ≤ m.count := by grind
      refine ⟨?_, fun u hu => .inl ?_⟩
      · rw [depth_of_owner (m := { m with count := m.count - 1 }) ho, UInt32.toNat_sub_of_le _ _ hle]
        rw [UInt32.lt_iff_toNat_lt] at hcount
        simp only [UInt32.toNat_one] at hcount ⊢
        omega
      · have hne : m.owner ≠ some u := fun hown => hu (Option.some.inj (hown.symm.trans ho))
        rw [depth_of_not_owner hne]
        exact depth_of_not_owner hne
    · next hcount =>
      simp only [Except.ok.injEq, Prod.ext_iff] at he
      obtain ⟨-, rfl⟩ := he
      rw [UInt32.lt_iff_toNat_lt] at hcount
      simp only [UInt32.toNat_zero, UInt32.toNat_one] at hpos hcount
      let loose : Monitor := { m with owner := none, count := 0 }
      have hgone : loose.handOff.2.depth t = 0 := depth_handOff rfl fun token htoken =>
        hs.absent_owner ho token (List.mem_append_right _ htoken)
      refine ⟨?_, fun u hu => spared_handOff (n := loose) ho rfl rfl hu⟩
      show m.count.toNat = loose.handOff.2.depth t + 1
      omega
  · cases he

theorem wait_depth {token : WaitToken} {next : Option WaitToken}
    (he : m.wait t = .ok ((token, next), m')) :
    token.reentrancy.toNat = m.depth t ∧ ∀ u, u ≠ t → m.Spared m' u := by
  unfold wait at he
  split at he
  · next hown =>
    obtain ⟨ho, _⟩ := ownedBy_iff.1 hown
    simp only [Except.ok.injEq, Prod.ext_iff] at he
    obtain ⟨⟨rfl, -⟩, rfl⟩ := he
    let loose : Monitor :=
      { m with owner := none, count := 0, waiters := m.waiters ++ [⟨t, m.count⟩] }
    exact ⟨(depth_of_owner ho).symm, fun u hu => spared_handOff (n := loose) ho rfl rfl hu⟩
  · cases he

theorem notify_depth {woken : Option WaitToken} (he : m.notify t = .ok (woken, m')) (u : ThreadId) :
    m'.depth u = m.depth u := by
  unfold notify at he
  split at he
  · cases hw : m.waiters with
    | nil =>
      rw [hw] at he
      cases he
      rfl
    | cons token rest =>
      rw [hw] at he
      cases he
      exact depth_queue { m with waiters := rest } token u
  · cases he

theorem notifyAll_depth {woken : List WaitToken} (he : m.notifyAll t = .ok (woken, m'))
    (u : ThreadId) : m'.depth u = m.depth u := by
  have hfold : ∀ (tokens : List WaitToken) (n : Monitor), (tokens.foldl queue n).depth u = n.depth u := by
    intro tokens
    induction tokens with
    | nil => exact fun _ => rfl
    | cons token rest ih => exact fun n => (ih (n.queue token)).trans (n.depth_queue token u)
  unfold notifyAll at he
  split at he
  · cases he
    exact hfold m.waiters { m with waiters := [] }
  · cases he

theorem reacquire_depth {token : WaitToken} (ho : m.owner ≠ some token.thread) :
    ((m.reacquire token).1 = .acquired →
      (m.reacquire token).2.depth token.thread = token.reentrancy.toNat) ∧
      ∀ u, u ≠ token.thread → (m.reacquire token).2.depth u = m.depth u := by
  have hleft : (m.withoutWaiter token.thread).owner ≠ some token.thread := ho
  unfold reacquire
  dsimp only
  rw [if_neg hleft]
  split
  · next hfree =>
    have hnone : m.owner = none := Option.isNone_iff_eq_none.1 (Bool.and_eq_true_iff.1 hfree).1
    refine ⟨fun _ => depth_of_owner rfl, fun u hu => ?_⟩
    rw [depth_of_not_owner (m := m) (by simp [hnone])]
    exact depth_of_not_owner fun hown => hu (Option.some.inj hown).symm
  · refine ⟨(fun ha => by cases ha), fun u _ => ?_⟩
    rw [depth_queue]
    exact depth_congr rfl rfl u

end Monitor

namespace Arena

variable {σ : Type} {a a' : Arena σ} {t : ThreadId} {o : Ref}

def pending? (a : Arena σ) (t : ThreadId) : Option PendingMonitor :=
  (a.scheduler.get? t).bind (·.pending)

/-- How deeply a thread owns the monitor of an object. -/
def depth (a : Arena σ) (t : ThreadId) (o : Ref) : Nat := ((a.monitor? o).map (·.depth t)).getD 0

/-- How deeply a thread owns the monitor of an object, or is to own it before it goes on. -/
def stake (a : Arena σ) (t : ThreadId) (o : Ref) : Nat :=
  match a.pending? t with
  | some p => if p.object = o then p.token.reentrancy.toNat else a.depth t o
  | none => a.depth t o

theorem pending?_of_record {r : Thread σ} (hr : a.scheduler.get? t = some r) :
    a.pending? t = r.pending := by
  unfold pending?
  rw [hr]
  rfl

theorem depth_of_monitor {m : Monitor} (hm : a.monitor? o = some m) : a.depth t o = m.depth t := by
  unfold depth
  rw [hm]
  rfl

theorem stake_of_pending {p : PendingMonitor} (hp : a.pending? t = some p) :
    a.stake t p.object = p.token.reentrancy.toNat := by
  unfold stake
  rw [hp]
  exact if_pos rfl

theorem stake_of_elsewhere (h : ∀ p, a.pending? t = some p → p.object ≠ o) :
    a.stake t o = a.depth t o := by
  unfold stake
  cases hp : a.pending? t with
  | none => rfl
  | some p => exact if_neg (h p hp)

/-- The stake of a thread in a monitor depends on what it has pending and on that monitor. -/
theorem stake_congr (hp : a'.pending? t = a.pending? t)
    (hd : (∀ p, a.pending? t = some p → p.object ≠ o) → a'.depth t o = a.depth t o) :
    a'.stake t o = a.stake t o := by
  by_cases hhere : ∃ p, a.pending? t = some p ∧ p.object = o
  · obtain ⟨p, hpend, rfl⟩ := hhere
    rw [stake_of_pending hpend, stake_of_pending (hp.trans hpend)]
  · have haway : ∀ p, a.pending? t = some p → p.object ≠ o := fun p hpend ho => hhere ⟨p, hpend, ho⟩
    rw [stake_of_elsewhere haway, stake_of_elsewhere (by rw [hp]; exact haway), hd haway]

section Turns

variable {goesOn : Bool} {next : Option WaitToken} {m m' : Monitor} {r r' : Thread σ}

/-- A turn at one monitor changes the stakes of nobody else, and none in another monitor. -/
theorem Turn.stake_eq (h : a.Orderly) (hr : a.scheduler.get? t = some r)
    (hp : ∀ p, r.pending = some p → p.object = o) (ht : Turn a a' t o goesOn next m m' r')
    (hd : ∀ u, u ≠ t → m.Spared m' u) {u : ThreadId} {j : Ref} (huj : u ≠ t ∨ j ≠ o) :
    a'.stake u j = a.stake u j := by
  have hdepth : j ≠ o → a'.depth u j = a.depth u j := by
    intro hj
    unfold depth
    rw [ht.leaves.monitors, if_neg (Ne.symm hj)]
  by_cases hu : u = t
  · subst hu
    have hj : j ≠ o := huj.resolve_left fun hne => hne rfl
    have haway : ∀ p, a.pending? u = some p → p.object ≠ j := by
      intro p hpend
      rw [pending?_of_record hr] at hpend
      rw [hp p hpend]
      exact Ne.symm hj
    have haway' : ∀ p, a'.pending? u = some p → p.object ≠ j := by
      intro p hpend
      rw [pending?_of_record ht.leaves.self] at hpend
      have hag := ht.agrees
      unfold Agrees at hag
      rw [hpend] at hag
      rw [hag.1]
      exact Ne.symm hj
    rw [stake_of_elsewhere haway, stake_of_elsewhere haway', hdepth hj]
  · have hpend : a'.pending? u = a.pending? u :=
      Scheduler.bind_eq_of_rel (fun _ _ hw => hw.pending) (ht.leaves.others u hu)
    refine stake_congr hpend fun haway => ?_
    by_cases hj : j = o
    · subst hj
      have hafter : a'.monitor? j = some m' := by rw [ht.leaves.monitors, if_pos rfl]
      rw [depth_of_monitor hafter, depth_of_monitor ht.before]
      refine (hd u hu).resolve_right ?_
      rintro ⟨token, htoken, rfl⟩
      obtain ⟨s, reason, hs, hps⟩ := h.queues j m ht.before token htoken
      exact haway _ ((pending?_of_record hs).trans hps) rfl
    · exact hdepth hj

/-- The stake in the monitor a thread has taken its turn at. -/
theorem Turn.stake_goesOn (ht : Turn a a' t o goesOn next m m' r') (hgo : goesOn = true) :
    a'.stake t o = m'.depth t := by
  have hafter : a'.monitor? o = some m' := by rw [ht.leaves.monitors, if_pos rfl]
  rw [stake_of_elsewhere, depth_of_monitor hafter]
  intro p hpend
  rw [pending?_of_record ht.leaves.self, ht.unparked hgo] at hpend
  cases hpend

theorem Turn.stake_parked (ht : Turn a a' t o goesOn next m m' r') {token : WaitToken}
    (hmem : token ∈ m'.tokens) (hthread : token.thread = t) :
    a'.stake t o = token.reentrancy.toNat := by
  obtain ⟨reason, hpend, _⟩ := ht.agrees.pending_eq ht.sound.toPlaced hmem hthread
  exact stake_of_pending ((pending?_of_record ht.leaves.self).trans hpend)

end Turns

end Arena

namespace Sync
open Stateful Arena

variable {σ : Type} {a a' : Arena σ} {t : ThreadId} {o : Ref} {r : Thread σ}

theorem Free.stake (hr : Free a t r) {m : Monitor} (hm : a.monitor? o = some m) :
    a.stake t o = m.depth t := by
  rw [stake_of_elsewhere, depth_of_monitor hm]
  intro p hpend
  rw [pending?_of_record hr.record, hr.pending] at hpend
  cases hpend

theorem Free.elsewhere (hr : Free a t r) (p : PendingMonitor) (hp : r.pending = some p) :
    p.object = o := by
  rw [hr.pending] at hp
  cases hp

/-- What a turn comes to when the monitor's own operation is known. -/
theorem monitors_of_turn {goesOn : Bool} {next : Option WaitToken} {m m' n n' : Monitor}
    {r' : Thread σ} (ht : Turn a a' t o goesOn next m m' r') (hn : a.monitor? o = some n)
    (hn' : a'.monitor? o = some n') : n = m ∧ n' = m' := by
  have hbefore := ht.before
  have hafter : a'.monitor? o = some m' := by rw [ht.leaves.monitors, if_pos rfl]
  rw [hn] at hbefore
  rw [hn'] at hafter
  exact ⟨Option.some.inj hbefore, Option.some.inj hafter⟩

theorem monitor?_withMonitor_self {m : Monitor} (hm : a.monitor? o = some m) (m' : Monitor) :
    (a.withMonitor o m').monitor? o = some m' := by
  rw [monitor?_withMonitor hm, if_pos rfl]

/-- Entering adds one level, at once or when the monitor is passed on. -/
theorem enter_stake (h : a.Orderly) (hr : Free a t r) {result : Acquire}
    (he : enter t o a = .ok result a') (u : ThreadId) (j : Ref) :
    a'.stake u j = a.stake u j + if u = t ∧ j = o then 1 else 0 := by
  obtain ⟨next, m, m', r', hturn⟩ := enter_turn h.claimed hr he
  unfold enter at he
  obtain ⟨entry, a₁, hon, hrest⟩ := bind_ok.1 he
  obtain ⟨n, n', hn, hf, rfl⟩ := onMonitor_ok hon
  have hn' : a'.monitor? o = some n' := by
    have hself := monitor?_withMonitor_self hn n'
    cases entry with
    | acquired =>
      cases hrest
      exact hself
    | queued =>
      dsimp only at hrest
      rw [bind_of_ok (park_eq (a := a.withMonitor o n') hr.record _)] at hrest
      cases hrest
      exact hself
  obtain ⟨rfl, rfl⟩ := monitors_of_turn hturn hn hn'
  obtain ⟨hacquired, hqueued, hothers⟩ := Monitor.enter_depth hf
  by_cases hself : u = t ∧ j = o
  · obtain ⟨rfl, rfl⟩ := hself
    rw [if_pos ⟨rfl, rfl⟩, hr.stake hn]
    have habs : n.Absent u := h.absent hr.record hn fun p hp => by rw [hr.pending] at hp; cases hp
    obtain ⟨_, _, hplace⟩ := Monitor.enter_spec (h.sound j n hn) habs hf
    rcases hplace with ⟨rfl, -⟩ | ⟨rfl, hmem⟩
    · cases hrest
      rw [hturn.stake_goesOn (by simp), hacquired rfl]
    · rw [hturn.stake_parked (List.mem_append_right _ hmem) rfl, hqueued rfl]
      rfl
  · rw [if_neg hself]
    refine hturn.stake_eq h hr.record hr.elsewhere (fun v hv => .inl (hothers v hv)) ?_
    exact not_and_or.1 hself

/-- Leaving takes one level away. -/
theorem exit_stake (h : a.Orderly) (hr : Free a t r) (he : exit t o a = .ok () a') (u : ThreadId)
    (j : Ref) : a.stake u j = a'.stake u j + if u = t ∧ j = o then 1 else 0 := by
  obtain ⟨next, m, m', r', hturn⟩ := exit_turn h.claimed hr he
  unfold exit at he
  obtain ⟨passed, a₁, hon, hrest⟩ := bind_ok.1 he
  obtain ⟨n, n', hn, hf, rfl⟩ := onMonitor_ok hon
  rw [handOver_eq] at hrest
  cases hrest
  obtain ⟨rfl, rfl⟩ := monitors_of_turn hturn hn (monitor?_withMonitor_self hn n')
  obtain ⟨hself, hothers⟩ := Monitor.exit_depth (h.sound o n hn) hf
  by_cases huj : u = t ∧ j = o
  · obtain ⟨rfl, rfl⟩ := huj
    rw [if_pos ⟨rfl, rfl⟩, hr.stake hn, hturn.stake_goesOn rfl, hself]
  · rw [if_neg huj]
    exact (hturn.stake_eq h hr.record hr.elsewhere hothers (not_and_or.1 huj)).symm

/-- Whoever has a stake in a monitor and nothing pending can leave it. -/
theorem exit_of_stake (hr : Free a t r) (hpos : 0 < a.stake t o) :
    ∃ a', exit t o a = .ok () a' := by
  have hdepth : a.stake t o = a.depth t o := by
    refine stake_of_elsewhere fun p hpend => ?_
    rw [pending?_of_record hr.record, hr.pending] at hpend
    cases hpend
  cases hm : a.monitor? o with
  | none =>
    rw [hdepth] at hpos
    unfold Arena.depth at hpos
    rw [hm] at hpos
    cases hpos
  | some m =>
    rw [hr.stake hm] at hpos
    have hown := Monitor.owner_of_depth_pos hpos
    rw [Monitor.depth_of_owner hown] at hpos
    have hheld : m.ownedBy t = true :=
      Monitor.ownedBy_iff.2 ⟨hown, UInt32.lt_iff_toNat_lt.2 hpos⟩
    have hexit : ∃ pair, m.exit t = .ok pair := by
      unfold Monitor.exit
      rw [if_pos hheld]
      split
      · exact ⟨_, rfl⟩
      · exact ⟨_, rfl⟩
    obtain ⟨⟨next, m'⟩, hf⟩ := hexit
    unfold exit
    rw [bind_of_ok (onMonitor_of_ok hm hf), handOver_eq]
    exact ⟨_, rfl⟩

theorem wait_stake (h : a.Orderly) (hr : Free a t r) {timeout : Timeout}
    (he : wait t o timeout a = .ok () a') (u : ThreadId) (j : Ref) :
    a'.stake u j = a.stake u j := by
  obtain ⟨next, m, m', r', hturn⟩ := wait_turn h.claimed hr he
  unfold wait at he
  obtain ⟨⟨token, passed⟩, a₁, hon, hrest⟩ := bind_ok.1 he
  obtain ⟨n, n', hn, hf, rfl⟩ := onMonitor_ok hon
  dsimp only at hrest
  rw [bind_of_ok (park_eq (a := a.withMonitor o n') hr.record _)] at hrest
  obtain ⟨_, a₂, hdetach, hrest⟩ := bind_ok.1 hrest
  cases hdetach
  rw [handOver_eq] at hrest
  cases hrest
  obtain ⟨rfl, rfl⟩ := monitors_of_turn hturn hn (monitor?_withMonitor_self hn n')
  obtain ⟨hself, hothers⟩ := Monitor.wait_depth hf
  by_cases huj : u = t ∧ j = o
  · obtain ⟨rfl, rfl⟩ := huj
    obtain ⟨_, _, hthread, hmem, _⟩ := Monitor.wait_spec (h.sound j n hn) hf
    rw [hr.stake hn, hturn.stake_parked (List.mem_append_left _ hmem) hthread, hself]
  · exact hturn.stake_eq h hr.record hr.elsewhere hothers (not_and_or.1 huj)

/-- Only a thread that is in a monitor can wait there. -/
theorem stake_pos_of_wait (hr : Free a t r) {timeout : Timeout}
    (he : wait t o timeout a = .ok () a') : 0 < a.stake t o := by
  unfold wait at he
  obtain ⟨pair, a₁, hon, -⟩ := bind_ok.1 he
  obtain ⟨n, n', hn, hf, -⟩ := onMonitor_ok hon
  unfold Monitor.wait at hf
  split at hf
  · next hown =>
    obtain ⟨ho, hpos⟩ := Monitor.ownedBy_iff.1 hown
    rw [hr.stake hn, Monitor.depth_of_owner ho]
    exact UInt32.lt_iff_toNat_lt.1 hpos
  · cases hf

/-- A thread that waits is out of the rotation, its deadline to come. -/
theorem wait_detached (hr : Free a t r) {timeout : Timeout}
    (he : wait t o timeout a = .ok () a') (h : a.Orderly) :
    ∃ r', a'.scheduler.get? t = some r' ∧ r'.isDetached = true := by
  unfold wait at he
  obtain ⟨⟨token, passed⟩, a₁, hon, hrest⟩ := bind_ok.1 he
  obtain ⟨n, n', hn, hf, rfl⟩ := onMonitor_ok hon
  dsimp only at hrest
  rw [bind_of_ok (park_eq (a := a.withMonitor o n') hr.record _)] at hrest
  obtain ⟨_, a₂, hdetach, hrest⟩ := bind_ok.1 hrest
  cases hdetach
  rw [handOver_eq] at hrest
  cases hrest
  obtain ⟨_, _, _, _, hnext⟩ := Monitor.wait_spec (h.sound o n hn) hf
  have hleaves := Leaves.parks h.rotates hn n' hr.record hr.alive ⟨o, token, .wait⟩ timeout hnext
  exact ⟨_, hleaves.self, by cases timeout <;> rfl⟩

theorem notify_stake (h : a.Orderly) (hr : Free a t r) {woken : Option ThreadId}
    (he : notify t o a = .ok woken a') (u : ThreadId) (j : Ref) : a'.stake u j = a.stake u j := by
  obtain ⟨next, m, m', r', hturn⟩ := notify_turn h.claimed hr he
  unfold notify at he
  obtain ⟨token, a₁, hon, hrest⟩ := bind_ok.1 he
  obtain ⟨n, n', hn, hf, rfl⟩ := onMonitor_ok hon
  cases hrest
  obtain ⟨rfl, rfl⟩ := monitors_of_turn hturn hn (monitor?_withMonitor_self hn n')
  by_cases huj : u = t ∧ j = o
  · obtain ⟨rfl, rfl⟩ := huj
    rw [hr.stake hn, hturn.stake_goesOn rfl, Monitor.notify_depth hf]
  · exact hturn.stake_eq h hr.record hr.elsewhere (fun v _ => .inl (Monitor.notify_depth hf v))
      (not_and_or.1 huj)

theorem notifyAll_stake (h : a.Orderly) (hr : Free a t r) {woken : List ThreadId}
    (he : notifyAll t o a = .ok woken a') (u : ThreadId) (j : Ref) : a'.stake u j = a.stake u j := by
  obtain ⟨next, m, m', r', hturn⟩ := notifyAll_turn h.claimed hr he
  unfold notifyAll at he
  obtain ⟨tokens, a₁, hon, hrest⟩ := bind_ok.1 he
  obtain ⟨n, n', hn, hf, rfl⟩ := onMonitor_ok hon
  cases hrest
  obtain ⟨rfl, rfl⟩ := monitors_of_turn hturn hn (monitor?_withMonitor_self hn n')
  by_cases huj : u = t ∧ j = o
  · obtain ⟨rfl, rfl⟩ := huj
    rw [hr.stake hn, hturn.stake_goesOn rfl, Monitor.notifyAll_depth hf]
  · exact hturn.stake_eq h hr.record hr.elsewhere (fun v _ => .inl (Monitor.notifyAll_depth hf v))
      (not_and_or.1 huj)

/-- What taking a pending monitor does to the depths in it. -/
theorem takeMonitor_depth (h : a.Orderly) (hr : a.scheduler.get? t = some r) {p : PendingMonitor}
    (hp : r.pending = some p) {entry : Entry} (he : takeMonitor t p a = .ok entry a') :
    ∃ m m', a.monitor? p.object = some m ∧ a'.monitor? p.object = some m' ∧
      (entry = .acquired → m'.depth t = p.token.reentrancy.toNat) ∧
      (∀ u, u ≠ t → m'.depth u = m.depth u) := by
  obtain ⟨hthread, _, m, hm, _⟩ := h.stands t r p hr hp
  unfold takeMonitor at he
  rw [bind_of_ok (monitorOf_of_some hm)] at he
  split at he
  · next hown =>
    split at he
    · next hcount =>
      cases he
      exact ⟨m, m, hm, hm, fun _ => by rw [Monitor.depth_of_owner hown, hcount], fun _ _ => rfl⟩
    · cases he
  · next hown =>
    cases he
    rw [← hthread] at hown ⊢
    obtain ⟨hself, hothers⟩ := Monitor.reacquire_depth hown
    exact ⟨m, _, hm, monitor?_withMonitor_self hm _, hself, hothers⟩

/-- Coming back changes no stake: a thread owns what it remembered, or goes on remembering it. -/
theorem resume_stake (h : a.Orderly) {result : Resume} (he : resume t a = .ok result a')
    (u : ThreadId) (j : Ref) : a'.stake u j = a.stake u j := by
  obtain ⟨result', a₁, he', hcases⟩ := resume_turn h.claimed t
  rw [he] at he'
  cases he'
  rcases hcases with ⟨-, rfl, -⟩ | ⟨r, p, m, m', r', hr, hp, hresult, hturn⟩
  · rfl
  have hpend : a.pending? t = some p := (pending?_of_record hr).trans hp
  have hobject : ∀ q, r.pending = some q → q.object = p.object := by
    intro q hq
    rw [hp] at hq
    cases hq
    rfl
  unfold resume at he
  rw [bind_get] at he
  have hbind : (a.scheduler.get? t).bind (·.pending) = some p := hpend
  rw [hbind] at he
  obtain ⟨entry, a₁, htake, hrest⟩ := bind_ok.1 he
  obtain ⟨n, n', hn, hn', hself, hothers⟩ := takeMonitor_depth h hr hp htake
  obtain ⟨entry', a₂, _, _, htake', _, _, hmon, _, _, hplace⟩ := takeMonitor_spec h.claimed hr hp
  rw [htake] at htake'
  cases htake'
  have hafter : a'.monitor? p.object = some n' := by
    cases entry with
    | acquired =>
      cases hrest
      exact hn'
    | queued =>
      cases hrest
      exact hn'
  obtain ⟨rfl, rfl⟩ := monitors_of_turn hturn hn hafter
  by_cases huj : u = t ∧ j = p.object
  · obtain ⟨rfl, rfl⟩ := huj
    rw [stake_of_pending hpend]
    rcases hplace with ⟨rfl, -⟩ | ⟨rfl, hmem⟩
    · cases hrest
      rw [hturn.stake_goesOn (by simp), hself rfl]
    · obtain ⟨hthread, _⟩ := h.stands u r p hr hp
      rw [hmon, if_pos rfl] at hn'
      cases hn'
      exact hturn.stake_parked (List.mem_append_right _ hmem) hthread
  · exact hturn.stake_eq h hr hobject (fun v hv => .inl (hothers v hv)) (not_and_or.1 huj)

end Sync

end ClassMachine
