import ClassMachine.Monitor
import Mathlib.Data.List.Nodup

/-!
Where threads stand in a monitor. In a sound monitor every thread has one place at most: it owns the
monitor, waits, or is in line. An operation of one thread moves the tokens of the others only
onward, from the waiters into the line and from the head of the line to ownership.
-/
namespace ClassMachine.Monitor

/-- Everybody in the monitor: owner, waiters, entrants. -/
def threads (m : Monitor) : List ThreadId :=
  m.owner.toList ++ m.waiters.map (·.thread) ++ m.entrants.map (·.thread)

def tokens (m : Monitor) : List WaitToken := m.waiters ++ m.entrants

/-- Nobody is in the monitor twice, and everybody in line comes for at least one level. -/
structure Placed (m : Monitor) : Prop where
  nodup : m.threads.Nodup
  deep : ∀ token ∈ m.tokens, 0 < token.reentrancy

/-- A monitor nobody owns has nobody in line. -/
structure Sound (m : Monitor) : Prop extends m.Placed where
  free : m.owner = none → m.count = 0 ∧ m.entrants = []
  held : ∀ t, m.owner = some t → 0 < m.count

theorem sound_fresh : ({} : Monitor).Sound where
  nodup := by simp [threads]
  deep := by simp [tokens]
  free _ := ⟨rfl, rfl⟩
  held t ht := by simp at ht

/-- A thread has no token in the monitor. -/
def Absent (m : Monitor) (thread : ThreadId) : Prop := ∀ token ∈ m.tokens, token.thread ≠ thread

theorem Placed.absent_owner {m : Monitor} (h : m.Placed) {t : ThreadId} (ho : m.owner = some t) :
    m.Absent t := by
  intro token htoken heq
  have hnd := h.nodup
  unfold threads at hnd
  rw [ho, List.append_assoc, ← List.map_append] at hnd
  have hnot : t ∉ m.tokens.map (·.thread) := (List.nodup_cons.1 hnd).1
  exact hnot (List.mem_map.2 ⟨token, htoken, heq⟩)

/-- A thread has one token in the monitor at most. -/
theorem Placed.eq_of_thread_eq {m : Monitor} (h : m.Placed) {a b : WaitToken} (ha : a ∈ m.tokens)
    (hb : b ∈ m.tokens) (hab : a.thread = b.thread) : a = b := by
  have hnd := h.nodup
  unfold threads at hnd
  rw [List.append_assoc, ← List.map_append] at hnd
  exact List.inj_on_of_nodup_map (List.nodup_append.1 hnd).2.1 ha hb hab

/-- A thread that waits is not in line. -/
theorem Placed.not_both {m : Monitor} (h : m.Placed) {token : WaitToken} (hw : token ∈ m.waiters) :
    token ∉ m.entrants := by
  intro he
  have hnd := h.nodup
  unfold threads at hnd
  rw [List.append_assoc] at hnd
  have hboth := (List.nodup_append.1 (List.nodup_append.1 hnd).2.1).2.2
  exact hboth _ (List.mem_map_of_mem hw) _ (List.mem_map_of_mem he) rfl

theorem mem_threads {m : Monitor} {t : ThreadId} :
    t ∈ m.threads ↔ m.owner = some t ∨ ∃ token ∈ m.tokens, token.thread = t := by
  unfold threads tokens
  rw [List.append_assoc, ← List.map_append, List.mem_append, List.mem_map, Option.mem_toList]

/-- Places are kept when threads only change places or leave. -/
theorem Placed.rearrange {m m' : Monitor} (h : m.Placed)
    (hs : ∀ t, m'.threads.count t ≤ m.threads.count t)
    (ht : ∀ token ∈ m'.tokens, token ∈ m.tokens ∨ 0 < token.reentrancy) : m'.Placed := by
  refine ⟨List.nodup_iff_count_le_one.2 fun t =>
    Nat.le_trans (hs t) (List.nodup_iff_count_le_one.1 h.nodup t), fun token htoken => ?_⟩
  rcases ht token htoken with hmem | hpos
  · exact h.deep token hmem
  · exact hpos

/-- Places are kept when a thread comes that was not there. -/
theorem Placed.arrive {m m' : Monitor} (h : m.Placed) {t : ThreadId} (ho : m.owner ≠ some t)
    (ha : m.Absent t) (hs : m'.threads.Perm (t :: m.threads))
    (ht : ∀ token ∈ m'.tokens, token ∈ m.tokens ∨ 0 < token.reentrancy) : m'.Placed := by
  refine ⟨hs.nodup_iff.2 (List.nodup_cons.2 ⟨fun hmem => ?_, h.nodup⟩), fun token htoken => ?_⟩
  · rcases mem_threads.1 hmem with howner | ⟨token, htoken, heq⟩
    · exact ho howner
    · exact ha token htoken heq
  · rcases ht token htoken with hmem | hpos
    · exact h.deep token hmem
    · exact hpos

/-- What an operation of `thread` that hands the monitor to `next` does to the tokens of the others. -/
structure Moves (thread : ThreadId) (next : Option WaitToken) (m m' : Monitor) : Prop where
  waiting : ∀ token ∈ m'.waiters, token.thread ≠ thread → token ∈ m.waiters
  queued : ∀ token ∈ m'.entrants, token.thread ≠ thread → token ∈ m.tokens
  waits : ∀ token ∈ m.waiters, token.thread ≠ thread → token ∈ m'.tokens
  queues : ∀ token ∈ m.entrants, token.thread ≠ thread → token ∈ m'.entrants ∨
    next = some token ∧ m'.owner = some token.thread ∧ m'.count = token.reentrancy
  owns : ∀ t, t ≠ thread → m.owner = some t → m'.owner = some t ∧ m'.count = m.count

/-- Nobody but the thread itself moves when only its own level changes. -/
theorem Moves.of_queues_eq {thread : ThreadId} {m m' : Monitor} (hw : m'.waiters = m.waiters)
    (he : m'.entrants = m.entrants) (ho : ∀ t, m.owner = some t → t = thread) :
    Moves thread none m m' where
  waiting _ htoken _ := hw ▸ htoken
  queued _ htoken _ := List.mem_append_right _ (he ▸ htoken)
  waits _ htoken _ := List.mem_append_left _ (hw.symm ▸ htoken)
  queues _ htoken _ := .inl (he.symm ▸ htoken)
  owns t ht howner := absurd (ho t howner) ht

theorem Absent.of_queues_eq {m m' : Monitor} {t : ThreadId} (h : m.Absent t)
    (hw : m'.waiters = m.waiters) (he : m'.entrants = m.entrants) : m'.Absent t := by
  unfold Absent tokens at *
  rw [hw, he]
  exact h

theorem ownedBy_iff {m : Monitor} {t : ThreadId} :
    m.ownedBy t = true ↔ m.owner = some t ∧ 0 < m.count := by
  simp [ownedBy]

theorem queue_of_absent {m : Monitor} {token : WaitToken}
    (h : ∀ e ∈ m.entrants, e.thread ≠ token.thread) :
    m.queue token = { m with entrants := m.entrants ++ [token] } := by
  have hany : m.entrants.any (·.thread = token.thread) = false := by
    rw [List.any_eq_false]
    intro e he hte
    exact h e he (by simpa using hte)
  simp [queue, hany]

theorem queue_of_mem {m : Monitor} {token : WaitToken} (h : token ∈ m.entrants) :
    m.queue token = m := by
  have hany : m.entrants.any (·.thread = token.thread) = true :=
    List.any_eq_true.2 ⟨token, h, by simp⟩
  simp [queue, hany]

/-- A thread that is nowhere in a monitor that somebody else owns goes to the end of the line. -/
theorem Sound.append_entrant {m : Monitor} (h : m.Sound) {token : WaitToken}
    (hnone : m.owner ≠ none) (ho : m.owner ≠ some token.thread) (ha : m.Absent token.thread)
    (hpos : 0 < token.reentrancy) :
    ({ m with entrants := m.entrants ++ [token] } : Monitor).Sound where
  toPlaced := by
    refine h.toPlaced.arrive ho ha (List.perm_iff_count.2 fun t => ?_) fun e he => ?_
    · simp only [threads, List.map_append, List.map_cons, List.map_nil, List.count_append,
        List.count_cons, List.count_nil]
      omega
    · simp only [tokens, List.mem_append, List.mem_singleton] at he ⊢
      rcases he with he | he | rfl
      · exact .inl (.inl he)
      · exact .inl (.inr he)
      · exact .inr hpos
  free hn := absurd hn hnone
  held := h.held

theorem Moves.append_entrant (m : Monitor) (token : WaitToken) :
    Moves token.thread none m { m with entrants := m.entrants ++ [token] } where
  waiting _ htoken _ := htoken
  queued e he hne := by
    rcases List.mem_append.1 he with he | he
    · exact List.mem_append_right _ he
    · rw [List.mem_singleton.1 he] at hne
      exact absurd rfl hne
  waits _ htoken _ := List.mem_append_left _ htoken
  queues _ htoken _ := .inl (List.mem_append_left _ htoken)
  owns _ _ howner := ⟨howner, rfl⟩

theorem enter_spec {m m' : Monitor} {t : ThreadId} {entry : Entry} (h : m.Sound) (ha : m.Absent t)
    (he : m.enter t = .ok (entry, m')) :
    m'.Sound ∧ Moves t none m m' ∧
      (entry = .acquired ∧ m'.Absent t ∨ entry = .queued ∧ ⟨t, 1⟩ ∈ m'.entrants) := by
  unfold enter at he
  cases ho : m.owner with
  | none =>
    simp only [ho] at he
    cases he
    have hent : m.entrants = [] := (h.free ho).2
    refine ⟨⟨?_, fun hn => by simp at hn, fun _ _ => UInt32.zero_lt_one⟩,
      .of_queues_eq rfl rfl fun u hu => by simp [ho] at hu, .inl ⟨rfl, ha.of_queues_eq rfl rfl⟩⟩
    refine h.toPlaced.arrive (by simp [ho]) ha (List.perm_iff_count.2 fun u => ?_) fun _ he => .inl he
    simp [threads, ho, List.count_cons]
  | some owner =>
    simp only [ho] at he
    by_cases hot : owner = t
    · subst hot
      rw [if_pos rfl] at he
      split at he
      · cases he
      · next hmax =>
        cases he
        refine ⟨⟨?_, fun hn => ?_, fun _ _ => ?_⟩, .of_queues_eq rfl rfl fun u hu => ?_,
          .inl ⟨rfl, ha.of_queues_eq rfl rfl⟩⟩
        · exact h.toPlaced.rearrange (fun _ => by simp [threads, ho]) fun _ he => .inl he
        · simp at hn
        · have hne : m.count.toNat ≠ 4294967295 := fun hc => hmax (UInt32.toNat_inj.1 hc)
          have hlt := m.count.toNat_lt
          rw [UInt32.lt_iff_toNat_lt, UInt32.toNat_add]
          simp only [UInt32.toNat_zero, UInt32.toNat_one]
          omega
        · rw [ho] at hu
          exact (Option.some.inj hu).symm
    · rw [if_neg hot] at he
      cases he
      have hq : m.queue ⟨t, 1⟩ = { m with entrants := m.entrants ++ [⟨t, 1⟩] } :=
        queue_of_absent fun e he => ha e (List.mem_append_right _ he)
      rw [hq]
      refine ⟨h.append_entrant (by simp [ho]) (by simp [ho, hot]) ha UInt32.zero_lt_one,
        Moves.append_entrant m ⟨t, 1⟩, .inr ⟨rfl, ?_⟩⟩
      exact List.mem_append_right _ (List.mem_singleton.2 rfl)

/-- A monitor that was let go of passes to the head of the line, if there is one. -/
theorem Placed.handOff_sound {m : Monitor} (h : m.Placed) (ho : m.owner = none) (hc : m.count = 0) :
    m.handOff.2.Sound := by
  unfold handOff
  cases he : m.entrants with
  | nil =>
    refine ⟨h, fun _ => ⟨hc, he⟩, fun t ht => ?_⟩
    rw [ho] at ht
    cases ht
  | cons next rest =>
    have hmem : next ∈ m.tokens := List.mem_append_right _ (he ▸ List.mem_cons_self)
    refine ⟨h.rearrange (fun t => ?_) fun token htoken => .inl ?_, fun hn => ?_,
      fun _ _ => h.deep next hmem⟩
    · simp only [threads, he, ho, Option.toList, List.map_cons, List.count_append, List.count_cons,
        List.count_nil]
      omega
    · rcases List.mem_append.1 htoken with hw | hr
      · exact List.mem_append_left _ hw
      · exact List.mem_append_right _ (he ▸ List.mem_cons_of_mem _ hr)
    · cases hn

/-- The owner lets go: waiters stay, and the head of the line takes over. -/
theorem handOff_moves {t : ThreadId} {m loose : Monitor} (ho : m.owner = some t)
    (hw : ∀ token, token.thread ≠ t → (token ∈ loose.waiters ↔ token ∈ m.waiters))
    (he : loose.entrants = m.entrants) : Moves t loose.handOff.1 m loose.handOff.2 := by
  have howns : ∀ u, u ≠ t → m.owner ≠ some u := fun u hu howner =>
    hu (Option.some.inj (howner.symm.trans ho))
  unfold handOff
  rw [he]
  cases hent : m.entrants with
  | nil =>
    refine ⟨fun token htoken hne => (hw token hne).1 htoken, fun token htoken _ => ?_,
      fun token htoken hne => List.mem_append_left _ ((hw token hne).2 htoken),
      fun token htoken _ => ?_, fun u hu howner => absurd howner (howns u hu)⟩
    · rw [he, hent] at htoken
      cases htoken
    · rw [hent] at htoken
      cases htoken
  | cons next rest =>
    refine ⟨fun token htoken hne => (hw token hne).1 htoken, fun token htoken _ => ?_,
      fun token htoken hne => List.mem_append_left _ ((hw token hne).2 htoken),
      fun token htoken _ => ?_, fun u hu howner => absurd howner (howns u hu)⟩
    · exact List.mem_append_right _ (hent ▸ List.mem_cons_of_mem _ htoken)
    · rw [hent] at htoken
      rcases List.mem_cons.1 htoken with rfl | htoken
      · exact .inr ⟨rfl, rfl, rfl⟩
      · exact .inl htoken

theorem handOff_tokens {m : Monitor} {token : WaitToken} (h : token ∈ m.handOff.2.tokens) :
    token ∈ m.tokens := by
  unfold handOff at h
  cases he : m.entrants with
  | nil => simpa [he] using h
  | cons next rest =>
    simp only [he, tokens, List.mem_append] at h ⊢
    rcases h with hw | hr
    · exact .inl hw
    · exact .inr (List.mem_cons_of_mem _ hr)

theorem handOff_mem {m : Monitor} {next : WaitToken} (h : m.handOff.1 = some next) :
    next ∈ m.entrants := by
  unfold handOff at h
  cases he : m.entrants with
  | nil => simp [he] at h
  | cons first rest =>
    simp only [he, Option.some.injEq] at h
    exact h ▸ List.mem_cons_self

theorem exit_spec {m m' : Monitor} {t : ThreadId} {next : Option WaitToken} (h : m.Sound)
    (he : m.exit t = .ok (next, m')) :
    m'.Sound ∧ Moves t next m m' ∧ m'.Absent t ∧ ∀ n, next = some n → n.thread ≠ t := by
  unfold exit at he
  split at he
  · next hown =>
    obtain ⟨ho, _⟩ := ownedBy_iff.1 hown
    have ha := h.absent_owner ho
    split at he
    · next hcount =>
      cases he
      refine ⟨⟨h.toPlaced.rearrange (fun _ => by simp [threads, ho]) fun _ he => .inl he,
        fun hn => ?_, fun _ _ => ?_⟩, .of_queues_eq rfl rfl fun u hu => ?_, ha.of_queues_eq rfl rfl,
        fun n hn => ?_⟩
      · simp [ho] at hn
      · have hle : (1 : UInt32) ≤ m.count := by grind
        rw [UInt32.lt_iff_toNat_lt] at hcount ⊢
        rw [UInt32.toNat_sub_of_le _ _ hle]
        simp only [UInt32.toNat_zero, UInt32.toNat_one] at hcount ⊢
        omega
      · rw [ho] at hu
        exact (Option.some.inj hu).symm
      · cases hn
    · simp only [Except.ok.injEq, Prod.ext_iff] at he
      obtain ⟨rfl, rfl⟩ := he
      have hloose : ({ m with owner := none, count := 0 } : Monitor).Placed :=
        h.toPlaced.rearrange (fun _ => by simp [threads]) fun _ he => .inl he
      refine ⟨hloose.handOff_sound rfl rfl, handOff_moves ho (fun _ _ => Iff.rfl) rfl,
        fun token htoken => ?_, fun n hn => ?_⟩
      · have hmem := handOff_tokens htoken
        exact ha token hmem
      · have hmem := handOff_mem hn
        exact ha n (List.mem_append_right _ hmem)
  · cases he

theorem wait_spec {m m' : Monitor} {t : ThreadId} {token : WaitToken} {next : Option WaitToken}
    (h : m.Sound) (he : m.wait t = .ok ((token, next), m')) :
    m'.Sound ∧ Moves t next m m' ∧ token.thread = t ∧ token ∈ m'.waiters ∧
      ∀ n, next = some n → n.thread ≠ t := by
  unfold wait at he
  split at he
  · next hown =>
    obtain ⟨ho, hcount⟩ := ownedBy_iff.1 hown
    have ha := h.absent_owner ho
    simp only [Except.ok.injEq, Prod.ext_iff] at he
    obtain ⟨⟨rfl, rfl⟩, rfl⟩ := he
    set loose : Monitor :=
      { m with owner := none, count := 0, waiters := m.waiters ++ [⟨t, m.count⟩] } with hl
    have hplaced : loose.Placed := by
      refine h.toPlaced.rearrange (fun u => ?_) fun token htoken => ?_
      · simp only [hl, threads, ho, Option.toList, List.map_append, List.map_cons, List.map_nil,
          List.count_append, List.count_cons, List.count_nil]
        omega
      · simp only [hl, tokens, List.mem_append, List.mem_singleton] at htoken ⊢
        rcases htoken with (hw | rfl) | hr
        · exact .inl (.inl hw)
        · exact .inr hcount
        · exact .inl (.inr hr)
    refine ⟨hplaced.handOff_sound rfl rfl, handOff_moves ho (fun token hne => ?_) rfl, rfl, ?_, ?_⟩
    · simp only [hl, List.mem_append, List.mem_singleton, or_iff_left_iff_imp]
      rintro rfl
      exact absurd rfl hne
    · have hwaiters : loose.handOff.2.waiters = loose.waiters := by
        unfold handOff
        split <;> rfl
      rw [hwaiters]
      exact List.mem_append_right _ (List.mem_singleton.2 rfl)
    · intro n hn
      have hmem := handOff_mem hn
      exact ha n (List.mem_append_right _ hmem)
  · cases he

/-- Waiters that join the line behind the entrants, the way a notification moves them. -/
theorem Sound.promote {m : Monitor} (h : m.Sound) {t : ThreadId} (ho : m.owner = some t)
    {moved rest : List WaitToken} (hw : m.waiters = moved ++ rest) :
    let m' : Monitor := { m with waiters := rest, entrants := m.entrants ++ moved }
    m'.Sound ∧ Moves t none m m' ∧ m'.Absent t := by
  intro m'
  have hmem : ∀ token, token ∈ m'.tokens ↔ token ∈ m.tokens := by
    intro token
    simp only [m', tokens, hw, List.mem_append]
    tauto
  refine ⟨⟨h.toPlaced.rearrange (fun u => ?_) fun token htoken => .inl ((hmem token).1 htoken),
    fun hn => ?_, h.held⟩, ⟨fun token htoken _ => ?_, fun token htoken _ => ?_,
    fun token htoken _ => ?_, fun token htoken _ => ?_, fun u hu howner => ⟨howner, rfl⟩⟩,
    fun token htoken => h.absent_owner ho token ((hmem token).1 htoken)⟩
  · simp only [m', threads, hw, List.map_append, List.count_append]
    omega
  · exact absurd (show m.owner = none from hn) (by simp [ho])
  · rw [hw]
    exact List.mem_append_right _ htoken
  · exact (hmem token).1 (List.mem_append_right _ htoken)
  · exact (hmem token).2 (List.mem_append_left _ htoken)
  · exact .inl (List.mem_append_left _ htoken)

theorem notify_spec {m m' : Monitor} {t : ThreadId} {woken : Option WaitToken} (h : m.Sound)
    (he : m.notify t = .ok (woken, m')) : m'.Sound ∧ Moves t none m m' ∧ m'.Absent t := by
  unfold notify at he
  split at he
  · next hown =>
    obtain ⟨ho, _⟩ := ownedBy_iff.1 hown
    cases hw : m.waiters with
    | nil =>
      simp only [hw, Except.ok.injEq, Prod.mk.injEq] at he
      obtain ⟨_, rfl⟩ := he
      refine ⟨h, .of_queues_eq rfl rfl fun u hu => ?_, h.absent_owner ho⟩
      rw [ho] at hu
      exact (Option.some.inj hu).symm
    | cons token rest =>
      simp only [hw, Except.ok.injEq, Prod.mk.injEq] at he
      obtain ⟨_, rfl⟩ := he
      have hmem : token ∈ m.waiters := hw ▸ List.mem_cons_self
      have hq : ({ m with waiters := rest } : Monitor).queue token =
          { m with waiters := rest, entrants := m.entrants ++ [token] } := by
        refine queue_of_absent fun e he heq => ?_
        have := h.eq_of_thread_eq (List.mem_append_right _ he) (List.mem_append_left _ hmem) heq
        exact h.not_both hmem (this ▸ he)
      rw [hq]
      exact h.promote ho (show m.waiters = [token] ++ rest from hw)
  · cases he

/-- Queueing one after another threads that are not in line puts them at its end. -/
theorem foldl_queue {moved : List WaitToken} {m : Monitor}
    (h : ((m.entrants ++ moved).map (·.thread)).Nodup) :
    moved.foldl queue m = { m with entrants := m.entrants ++ moved } := by
  induction moved generalizing m with
  | nil => simp
  | cons token rest ih =>
    have hq : m.queue token = { m with entrants := m.entrants ++ [token] } := by
      refine queue_of_absent fun e he heq => ?_
      rw [List.map_append, List.nodup_append] at h
      exact h.2.2 _ (List.mem_map_of_mem he) _ (List.mem_map_of_mem List.mem_cons_self) heq
    rw [List.foldl_cons, hq, ih (by simpa using h)]
    simp

theorem notifyAll_spec {m m' : Monitor} {t : ThreadId} {woken : List WaitToken} (h : m.Sound)
    (he : m.notifyAll t = .ok (woken, m')) : m'.Sound ∧ Moves t none m m' ∧ m'.Absent t := by
  unfold notifyAll at he
  split at he
  · next hown =>
    obtain ⟨ho, _⟩ := ownedBy_iff.1 hown
    simp only [Except.ok.injEq, Prod.mk.injEq] at he
    obtain ⟨_, rfl⟩ := he
    have hnd : ((m.entrants ++ m.waiters).map (·.thread)).Nodup := by
      have hnd := h.nodup
      unfold threads at hnd
      rw [List.append_assoc, ← List.map_append] at hnd
      exact (List.perm_append_comm.map _).nodup_iff.1 (List.nodup_append.1 hnd).2.1
    rw [foldl_queue (m := { m with waiters := [] }) hnd]
    exact h.promote ho (List.append_nil m.waiters).symm
  · cases he

theorem mem_waiters_withoutWaiter {m : Monitor} {t : ThreadId} {e : WaitToken} :
    e ∈ (m.withoutWaiter t).waiters ↔ e ∈ m.waiters ∧ e.thread ≠ t := by
  simp [withoutWaiter]

theorem Placed.withoutWaiter {m : Monitor} (h : m.Placed) (t : ThreadId) :
    (m.withoutWaiter t).Placed := by
  refine h.rearrange (fun u => ?_) fun e he => .inl ?_
  · have hsub := (List.filter_sublist (p := fun e => e.thread ≠ t) (l := m.waiters)).map (·.thread)
    have hle := hsub.count_le u
    simp only [Monitor.withoutWaiter, threads, List.count_append]
    omega
  · rcases List.mem_append.1 he with hw | hr
    · exact List.mem_append_left _ (mem_waiters_withoutWaiter.1 hw).1
    · exact List.mem_append_right _ hr

/-- A thread that waits no longer moves nobody else. -/
theorem withoutWaiter_moves (m : Monitor) (t : ThreadId) : Moves t none m (m.withoutWaiter t) :=
  ⟨fun _ he _ => (mem_waiters_withoutWaiter.1 he).1, fun _ he _ => List.mem_append_right _ he,
    fun _ he hne => List.mem_append_left _ (mem_waiters_withoutWaiter.2 ⟨he, hne⟩),
    fun _ he _ => .inl he, fun _ _ howner => ⟨howner, rfl⟩⟩

/-- Coming back with a token: the thread takes a monitor nobody owns and stands in line for one
that is owned. -/
theorem reacquire_spec {m : Monitor} {token : WaitToken} (h : m.Sound) (ht : token ∈ m.tokens) :
    (m.reacquire token).2.Sound ∧ Moves token.thread none m (m.reacquire token).2 ∧
      ((m.reacquire token).1 = .acquired ∧ (m.reacquire token).2.Absent token.thread ∨
        (m.reacquire token).1 = .queued ∧ token ∈ (m.reacquire token).2.entrants) := by
  have hothers : ∀ e ∈ m.tokens, e ≠ token → e.thread ≠ token.thread := fun e he hne heq =>
    hne (h.eq_of_thread_eq he ht heq)
  have ho : m.owner ≠ some token.thread := fun ho => h.absent_owner ho token ht rfl
  set left := m.withoutWaiter token.thread with hleft
  have hplaced : left.Placed := h.toPlaced.withoutWaiter token.thread
  have hsound : left.Sound := ⟨hplaced, h.free, h.held⟩
  have hmoves : Moves token.thread none m left := m.withoutWaiter_moves token.thread
  cases howner : m.owner with
  | none =>
    have hent : m.entrants = [] := (h.free howner).2
    have heq : m.reacquire token =
        (.acquired, { left with owner := some token.thread, count := token.reentrancy }) := by
      have hlo : left.owner = none := howner
      have hle : left.entrants = [] := hent
      simp [reacquire, ← hleft, hlo, hle]
    have habs : left.Absent token.thread := by
      intro e he
      rcases List.mem_append.1 he with hw | hr
      · exact (mem_waiters_withoutWaiter.1 hw).2
      · rw [show left.entrants = [] from hent] at hr
        cases hr
    rw [heq]
    refine ⟨⟨?_, fun hn => (by cases hn), fun _ _ => h.deep token ht⟩, ?_,
      .inl ⟨rfl, habs.of_queues_eq rfl rfl⟩⟩
    · refine hplaced.arrive (t := token.thread) ho habs (List.perm_iff_count.2 fun u => ?_)
        fun _ he => .inl he
      simp [threads, show left.owner = none from howner, List.count_cons]
    · exact ⟨hmoves.waiting, hmoves.queued, hmoves.waits,
        fun e he _ => (by rw [hent] at he; cases he), fun u _ hu => (by rw [howner] at hu; cases hu)⟩
  | some owner =>
    have heq : m.reacquire token = (.queued, left.queue token) := by
      have hlo : left.owner = some owner := howner
      have hne : owner ≠ token.thread := fun he => ho (he ▸ howner)
      simp [reacquire, ← hleft, hlo, hne]
    rw [heq]
    rcases List.mem_append.1 ht with hw | hr
    · -- the thread waited: it goes to the end of the line
      have habs : left.Absent token.thread := by
        intro e he
        rcases List.mem_append.1 he with hw' | hr'
        · exact (mem_waiters_withoutWaiter.1 hw').2
        · exact hothers e (List.mem_append_right _ hr') fun heq => h.not_both hw (heq ▸ hr')
      have hq : left.queue token = { left with entrants := left.entrants ++ [token] } :=
        queue_of_absent fun e he => habs e (List.mem_append_right _ he)
      have hmem : token ∈ left.entrants ++ [token] :=
        List.mem_append_right _ (List.mem_singleton.2 rfl)
      rw [hq]
      refine ⟨hsound.append_entrant (fun hn => ?_) ho habs (h.deep token ht), ?_, .inr ⟨rfl, hmem⟩⟩
      · rw [show left.owner = some owner from howner] at hn
        cases hn
      · exact ⟨hmoves.waiting, fun e he hne => hmoves.queued e
          ((List.mem_append.1 he).resolve_right fun hs => hne (by rw [List.mem_singleton.1 hs])) hne,
          fun e he hne => List.mem_append_left _ (mem_waiters_withoutWaiter.2 ⟨he, hne⟩),
          fun e he _ => .inl (List.mem_append_left _ he), hmoves.owns⟩
    · rw [queue_of_mem (show token ∈ left.entrants from hr)]
      exact ⟨hsound, hmoves, .inr ⟨rfl, hr⟩⟩

end ClassMachine.Monitor
