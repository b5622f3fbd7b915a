import ClassMachine.Proofs.Scheduler.Fairness
import Mathlib.Logic.Function.Basic

/-!
Who is woken when a thread ends. Records list the threads that joined them, and nothing says of a
listed thread whether it is still parked by that join. A run carries along who is parked by a join on
whom; as long as no listed thread parks anew, the threads woken by an end are the ones that are.
-/
namespace ClassMachine.Scheduler

variable {σ : Type} {s s' : Scheduler σ} {joining : ThreadId → Option ThreadId} {w t : ThreadId}

/-- Out of the rotation with a record. -/
def Parked (s : Scheduler σ) (w : ThreadId) : Prop := ∃ r, s.get? w = some r ∧ r.isDetached = true

/-- Among the joiners of some thread. -/
def Listed (s : Scheduler σ) (w : ThreadId) : Prop := ∃ t r, s.get? t = some r ∧ w ∈ r.joiners

/-- The joins that still hold, of those there were: their threads have been parked ever since. -/
def stillJoining (s : Scheduler σ) (joining : ThreadId → Option ThreadId) (w : ThreadId) : Option ThreadId :=
  if (s.get? w).any Thread.isDetached then joining w else none

namespace Command

/-- By what each thread was parked last. -/
def parks (s : Scheduler σ) (joining : ThreadId → Option ThreadId) :
    Command σ → ThreadId → Option ThreadId
  | join waiter target =>
    if (s.join waiter target).1 then Function.update joining waiter (some target) else joining
  | detach id timeout => if (s.detach id timeout).1 then Function.update joining id none else joining
  | _ => joining

/-- Nobody parks who is listed as a joiner, and records come about by starting threads only. -/
def Mindful (s : Scheduler σ) : Command σ → Prop
  | insert _ => False
  | detach id _ => ¬ s.Listed id
  | join waiter _ => ¬ s.Listed waiter
  | _ => True

end Command

/-- Schedulers that come about from an empty one, with the thread each thread has joined and has been
parked for ever since. -/
inductive Tracked : Scheduler σ → (ThreadId → Option ThreadId) → Prop
  | start (now : UInt64) : Tracked { now := now } fun _ => none
  | step {s : Scheduler σ} {joining : ThreadId → Option ThreadId} (h : Tracked s joining)
      (c : Command σ) (hc : c.Allowed s) (hm : c.Mindful s) :
      Tracked (c.run s) (stillJoining (c.run s) (c.parks s joining))

theorem Tracked.reachable (h : Tracked s joining) : Reachable s := by
  induction h with
  | start now => exact .start now
  | step _ c hc _ ih => exact ih.step c hc

/-- The lists of joiners say who has joined and is parked for it. -/
structure Joins (s : Scheduler σ) (joining : ThreadId → Option ThreadId) : Prop where
  parked : ∀ w t, joining w = some t → s.Parked w ∧ w ≠ t ∧ t < s.nextId
  listed : ∀ w t r, joining w = some t → s.get? t = some r → w ∈ r.joiners
  joined : ∀ w t r, s.get? t = some r → w ∈ r.joiners → s.Parked w → joining w = some t

theorem unlisted (h : ∀ r ∈ s.toList, w ∉ r.joiners) : ¬ s.Listed w := by
  rintro ⟨t, r, hr, hw⟩
  exact h r (Maps.mem_values.2 ⟨t, hr⟩) hw

theorem joiners_woken (r : Thread σ) : r.woken.joiners = r.joiners := by
  unfold Thread.woken
  split <;> rfl

theorem not_isDetached_woken (r : Thread σ) : r.woken.isDetached = false := by
  unfold Thread.woken
  split
  · rfl
  · next h => simpa using h

/-- Who may run once it has been woken was parked or could run before. -/
theorem isDetached_of_woken {r : Thread σ} (h : r.woken.state = .ready) (hr : r.state ≠ .ready) :
    r.isDetached = true := by
  unfold Thread.woken at h
  split at h
  · assumption
  · exact absurd h hr

theorem isAlive_of_isDetached {r : Thread σ} (h : r.isDetached = true) : r.isAlive = true := by
  unfold Thread.isDetached at h
  unfold Thread.isAlive
  cases hs : r.state <;> simp_all

theorem stillJoining_eq_some :
    s.stillJoining joining w = some t ↔ s.Parked w ∧ joining w = some t := by
  have hparked : (s.get? w).any Thread.isDetached = true ↔ s.Parked w := by
    simp [Parked, Option.any_eq_true]
  unfold stillJoining
  split
  · next h => simp [hparked.1 h]
  · next h => simp [mt hparked.2 h]

/-- Threads are woken at most, and whoever is struck off a list of joiners is not parked. -/
structure Loosens (s s' : Scheduler σ) : Prop where
  wakes : s.Wakes s'
  kept : ∀ t r', s'.get? t = some r' → ∃ r, s.get? t = some r ∧ r'.joiners ⊆ r.joiners ∧
    ∀ w ∈ r.joiners, w ∉ r'.joiners → ¬ s'.Parked w

theorem Wakes.parked (h : s.Wakes s') (hw : s'.Parked w) : s.Parked w := by
  obtain ⟨r', hr', hd⟩ := hw
  obtain ⟨r, hr, hwoken⟩ := h.exists_of_some' hr'
  refine ⟨r, hr, ?_⟩
  rcases hwoken.state with he | ⟨hd', _⟩
  · unfold Thread.isDetached at hd ⊢
    rw [← he]
    exact hd
  · exact hd'

namespace Loosens

theorem of_joiners_eq (h : s.Wakes s')
    (hj : ∀ id, (s'.get? id).map (·.joiners) = (s.get? id).map (·.joiners)) : Loosens s s' := by
  refine ⟨h, fun t r' hr' => ?_⟩
  obtain ⟨r, hr, _⟩ := h.exists_of_some' hr'
  have he := hj t
  rw [hr', hr] at he
  have he : r'.joiners = r.joiners := Option.some.inj he
  exact ⟨r, hr, he ▸ List.Subset.refl _, fun w hw hout => absurd (he ▸ hw) hout⟩

theorem refl (s : Scheduler σ) : Loosens s s := of_joiners_eq (.refl s) fun _ => rfl

theorem trans {s'' : Scheduler σ} (h : Loosens s s') (h' : Loosens s' s'') : Loosens s s'' := by
  refine ⟨h.wakes.trans h'.wakes, fun t r'' hr'' => ?_⟩
  obtain ⟨r', hr', hsub', hout'⟩ := h'.kept t r'' hr''
  obtain ⟨r, hr, hsub, hout⟩ := h.kept t r' hr'
  refine ⟨r, hr, List.Subset.trans hsub' hsub, fun w hw hnot hparked => ?_⟩
  by_cases hmem : w ∈ r'.joiners
  · exact hout' w hmem hnot hparked
  · exact hout w hw hmem (h'.wakes.parked hparked)

theorem attach (s : Scheduler σ) (id : ThreadId) : Loosens s (s.attach id).2 := by
  refine of_joiners_eq (s.attach_wakes id) fun j => ?_
  rw [get?_attach]
  split
  · simp [Function.comp_def, joiners_woken]
  · rfl

theorem attachAll (ids : List ThreadId) (s : Scheduler σ) : Loosens s (s.attachAll ids) := by
  induction ids generalizing s with
  | nil => exact .refl s
  | cons id ids ih => exact (attach s id).trans (ih (s.attach id).2)

theorem update (s : Scheduler σ) (id : ThreadId) {f : Thread σ → Thread σ} (hf : ∀ r, Thread.Woken r (f r))
    (hj : ∀ r, (f r).joiners = r.joiners) : Loosens s (s.update id f) := by
  refine of_joiners_eq (s.update_pointwise Thread.Woken.refl id hf) fun j => ?_
  rw [get?_update]
  split
  · simp [Function.comp_def, hj]
  · rfl

theorem of_threads_eq (ht : s'.threads = s.threads) (hn : s'.nextId = s.nextId) : Loosens s s' := by
  refine of_joiners_eq (pointwise_of_threads_eq Thread.Woken.refl ht hn) fun j => ?_
  unfold get?
  rw [ht]

/-- A thread is struck off every list when it is about to be attached. -/
theorem forgetJoin_attach (s : Scheduler σ) (id : ThreadId) :
    Loosens s ((s.forgetJoin id).attach id).2 := by
  refine ⟨(s.forgetJoin_wakes id).trans (attach_wakes _ id), fun t r' hr' => ?_⟩
  obtain ⟨r₁, hr₁, hsub, hout⟩ := (attach (s.forgetJoin id) id).kept t r' hr'
  rw [get?_forgetJoin] at hr₁
  obtain ⟨r, hr, rfl⟩ := Option.map_eq_some_iff.1 hr₁
  refine ⟨r, hr, List.Subset.trans hsub List.filter_sublist.subset, fun w hw hnot hparked => ?_⟩
  by_cases hwid : w = id
  · subst hwid
    obtain ⟨u, hu, hd⟩ := hparked
    rw [get?_attach, if_pos rfl] at hu
    obtain ⟨u₀, -, rfl⟩ := Option.map_eq_some_iff.1 hu
    simp [not_isDetached_woken] at hd
  · exact hout w (List.mem_filter.2 ⟨hw, by simpa using hwid⟩) hnot hparked

theorem interrupt (s : Scheduler σ) (id : ThreadId) : Loosens s (s.interrupt id).2 := by
  have hmark : Loosens s (s.update id fun t => { t with interrupted := true }) :=
    update s id (fun _ => ⟨rfl, rfl, rfl, .inl rfl⟩) fun _ => rfl
  unfold Scheduler.interrupt
  split
  · split
    · dsimp only
      split
      · exact hmark.trans (forgetJoin_attach _ id)
      · exact hmark
    · exact .refl s
  · exact .refl s

theorem next (s : Scheduler σ) : Loosens s s.next.2 := by
  have h : Loosens s s.wakeExpired.2 := attachAll s.expired s
  unfold Scheduler.next
  dsimp only
  split
  · exact h
  · exact h.trans (of_threads_eq rfl rfl)

theorem drain (s : Scheduler σ) : Loosens s s.drain.2 := by
  have hserved : ∀ (requests : List HostRequest) (s : Scheduler σ), Loosens s (requests.foldl serve s) := by
    intro requests
    induction requests with
    | nil => exact fun s => .refl s
    | cons r requests ih =>
      intro s
      have hserve : Loosens s (s.serve r) := by
        cases r with
        | attach id => exact attach s id
        | interrupt id => exact interrupt s id
        | stop => exact .refl s
      exact hserve.trans (ih (s.serve r))
  have htaken : Loosens s { s with requests := [] } := of_threads_eq rfl rfl
  exact htaken.trans (hserved s.requests _)

end Loosens

namespace Joins

/-- Waking threads ends their joins. -/
theorem loosens (h : s.Joins joining) (hl : Loosens s s') : s'.Joins (s'.stillJoining joining) := by
  refine ⟨fun w t hj => ?_, fun w t r' hj hr' => ?_, fun w t r' hr' hw hp => ?_⟩
  · obtain ⟨hp, hj⟩ := stillJoining_eq_some.1 hj
    obtain ⟨_, hne, hlt⟩ := h.parked w t hj
    exact ⟨hp, hne, hl.wakes.nextId ▸ hlt⟩
  · obtain ⟨hp, hj⟩ := stillJoining_eq_some.1 hj
    obtain ⟨r, hr, _, hout⟩ := hl.kept t r' hr'
    by_contra hnot
    exact hout w (h.listed w t r hj hr) hnot hp
  · obtain ⟨r, hr, hsub, _⟩ := hl.kept t r' hr'
    exact stillJoining_eq_some.2 ⟨hp, h.joined w t r hr (hsub hw) (hl.wakes.parked hp)⟩

theorem spawn (h : s.Joins joining) (hn : s.nextId < 0xffffffff) (object : Ref) (stack : σ) :
    (s.spawn object stack).2.Joins ((s.spawn object stack).2.stillJoining joining) := by
  have hparked : ∀ w, (s.spawn object stack).2.Parked w → s.Parked w := by
    rintro w ⟨r, hr, hd⟩
    rw [get?_spawn] at hr
    split at hr
    · cases hr
      cases hd
    · exact ⟨r, hr, hd⟩
  have hlt : s.nextId < (s.spawn object stack).2.nextId :=
    lt_nextId_spawn (fun he => by simp [he] at hn) object stack
  refine ⟨fun w t hj => ?_, fun w t r hj hr => ?_, fun w t r hr hw hp => ?_⟩
  · obtain ⟨hp, hj⟩ := stillJoining_eq_some.1 hj
    obtain ⟨_, hne, ht⟩ := h.parked w t hj
    exact ⟨hp, hne, UInt32.lt_trans ht hlt⟩
  · obtain ⟨_, hj⟩ := stillJoining_eq_some.1 hj
    rw [get?_spawn] at hr
    split at hr
    · next heq =>
      -- nobody has joined a thread that was not there yet
      exact absurd (heq ▸ (h.parked w t hj).2.2) (UInt32.lt_irrefl _)
    · exact h.listed w t r hj hr
  · rw [get?_spawn] at hr
    split at hr
    · cases hr
      cases hw
    · exact stillJoining_eq_some.2 ⟨hp, h.joined w t r hr hw (hparked w hp)⟩

/-- Records that are taken out take their lists with them. -/
theorem sublist (h : s.Joins joining) (hn : s'.nextId = s.nextId)
    (hg : ∀ id r, s'.get? id = some r → s.get? id = some r) : s'.Joins (s'.stillJoining joining) := by
  have hparked : ∀ w, s'.Parked w → s.Parked w := fun w ⟨r, hr, hd⟩ => ⟨r, hg w r hr, hd⟩
  refine ⟨fun w t hj => ?_, fun w t r hj hr => ?_, fun w t r hr hw hp => ?_⟩
  · obtain ⟨hp, hj⟩ := stillJoining_eq_some.1 hj
    obtain ⟨_, hne, ht⟩ := h.parked w t hj
    exact ⟨hp, hne, hn ▸ ht⟩
  · exact h.listed w t r (stillJoining_eq_some.1 hj).2 (hg t r hr)
  · exact stillJoining_eq_some.2 ⟨hp, h.joined w t r (hg t r hr) hw (hparked w hp)⟩

/-- A thread nobody lists is parked by something else. -/
theorem detach (h : s.Joins joining) {id : ThreadId} (hid : ¬ s.Listed id) (timeout : Timeout) :
    (s.detach id timeout).2.Joins
      ((s.detach id timeout).2.stillJoining (Command.parks s joining (.detach id timeout))) := by
  have hjoiners : ∀ t r', (s.detach id timeout).2.get? t = some r' →
      ∃ r, s.get? t = some r ∧ r'.joiners = r.joiners ∧ (t ≠ id → r' = r) := by
    intro t r' hr'
    rw [get?_detach] at hr'
    split at hr'
    · next heq =>
      obtain ⟨r, hr, rfl⟩ := Option.map_eq_some_iff.1 hr'
      exact ⟨r, hr, by split <;> rfl, fun hne => absurd heq.symm hne⟩
    · exact ⟨r', hr', rfl, fun _ => rfl⟩
  have hparks : ∀ w t, Command.parks s joining (.detach id timeout) w = some t → joining w = some t := by
    intro w t hj
    simp only [Command.parks] at hj
    split at hj
    · by_cases hw : w = id
      · subst hw
        simp at hj
      · simpa [hw] using hj
    · exact hj
  refine ⟨fun w t hj => ?_, fun w t r' hj hr' => ?_, fun w t r' hr' hw hp => ?_⟩
  · obtain ⟨hp, hj⟩ := stillJoining_eq_some.1 hj
    obtain ⟨_, hne, ht⟩ := h.parked w t (hparks w t hj)
    exact ⟨hp, hne, nextId_detach s id timeout ▸ ht⟩
  · obtain ⟨r, hr, he, _⟩ := hjoiners t r' hr'
    exact he ▸ h.listed w t r (hparks w t (stillJoining_eq_some.1 hj).2) hr
  · obtain ⟨r, hr, he, _⟩ := hjoiners t r' hr'
    have hne : w ≠ id := fun heq => hid (heq ▸ ⟨t, r, hr, he ▸ hw⟩)
    have ⟨u', hu', hd⟩ := hp
    obtain ⟨u, hu, _, hsame⟩ := hjoiners w u' hu'
    have hj := h.joined w t r hr (he ▸ hw) ⟨u, hu, hsame hne ▸ hd⟩
    refine stillJoining_eq_some.2 ⟨hp, ?_⟩
    simp only [Command.parks]
    split
    · simpa [hne] using hj
    · exact hj

/-- A join that can take place lists its thread and parks it. -/
theorem get?_join {waiter target : ThreadId} {r : Thread σ} (hr : s.get? target = some r)
    (hjoin : r.isAlive = true ∧ target ≠ waiter) (j : ThreadId) :
    (s.join waiter target).2.get? j =
      if waiter = j then (s.get? j).map fun t => if t.isAlive then { t with state := .detached } else t
      else if target = j then (s.get? j).map fun t => { t with joiners := t.joiners ++ [waiter] }
      else s.get? j := by
  have hrun : s.join waiter target =
      (s.update target fun t => { t with joiners := t.joiners ++ [waiter] }).detach waiter .indefinite := by
    simp [Scheduler.join, hr, hjoin]
  rw [hrun, get?_detach, get?_update]
  split
  · next heq =>
    subst heq
    rw [if_neg hjoin.2]
    rfl
  · rfl

theorem join (h : s.Joins joining) (hnum : s.Numbered) {waiter : ThreadId}
    (hwaiter : ¬ s.Listed waiter) (target : ThreadId) : (s.join waiter target).2.Joins
      ((s.join waiter target).2.stillJoining (Command.parks s joining (.join waiter target))) := by
  by_cases hjoin : ∃ r, s.get? target = some r ∧ r.isAlive = true ∧ target ≠ waiter
  · obtain ⟨r, hr, hjoin⟩ := hjoin
    have hget := get?_join hr hjoin
    have hnext : (s.join waiter target).2.nextId = s.nextId := (s.join_alike waiter target).nextId
    -- what was said of the others before is still said of them
    have hparks : ∀ w, w ≠ waiter → Command.parks s joining (.join waiter target) w = joining w := by
      intro w hw
      simp only [Command.parks]
      split
      · exact Function.update_of_ne hw _ _
      · rfl
    have hothers : ∀ w, w ≠ waiter → (s.join waiter target).2.Parked w → s.Parked w := by
      rintro w hw ⟨u', hu', hd⟩
      rw [hget, if_neg (Ne.symm hw)] at hu'
      split at hu'
      · obtain ⟨u, hu, rfl⟩ := Option.map_eq_some_iff.1 hu'
        exact ⟨u, hu, hd⟩
      · exact ⟨u', hu', hd⟩
    have hlists : ∀ t r', (s.join waiter target).2.get? t = some r' → ∃ r, s.get? t = some r ∧
        r'.joiners = if target = t then r.joiners ++ [waiter] else r.joiners := by
      intro t r' hr'
      rw [hget] at hr'
      split at hr'
      · next heq =>
        obtain ⟨u, hu, rfl⟩ := Option.map_eq_some_iff.1 hr'
        have hne : target ≠ t := fun he => hjoin.2 (he.trans heq.symm)
        refine ⟨u, hu, ?_⟩
        rw [if_neg hne]
        by_cases halive : u.isAlive = true <;> simp [halive]
      · split at hr'
        · next heq =>
          obtain ⟨u, hu, rfl⟩ := Option.map_eq_some_iff.1 hr'
          exact ⟨u, hu, (if_pos heq).symm⟩
        · next hne => exact ⟨r', hr', (if_neg hne).symm⟩
    -- the waiter is parked when the join takes place, and is not parked when it does not
    have hself : (s.join waiter target).2.Parked waiter →
        Command.parks s joining (.join waiter target) waiter = some target := by
      rintro ⟨u', hu', hd⟩
      rw [hget, if_pos rfl] at hu'
      obtain ⟨u, hu, rfl⟩ := Option.map_eq_some_iff.1 hu'
      have halive : u.isAlive = true := by
        by_contra hdead
        rw [if_neg hdead] at hd
        exact hdead (isAlive_of_isDetached hd)
      have hdone : (s.join waiter target).1 = true := by
        unfold Scheduler.join Scheduler.detach
        simp [hr, hjoin, get?_update, hu, halive]
      simp [Command.parks, hdone]
    refine ⟨fun w t hj => ?_, fun w t r' hj hr' => ?_, fun w t r' hr' hw hp => ?_⟩
    · obtain ⟨hp, hj⟩ := stillJoining_eq_some.1 hj
      rw [hnext]
      by_cases hw : w = waiter
      · subst hw
        cases (hself hp).symm.trans hj
        exact ⟨hp, Ne.symm hjoin.2, hnum target r hr⟩
      · rw [hparks w hw] at hj
        exact ⟨hp, (h.parked w t hj).2⟩
    · obtain ⟨hp, hj⟩ := stillJoining_eq_some.1 hj
      obtain ⟨u, hu, he⟩ := hlists t r' hr'
      rw [he]
      by_cases hw : w = waiter
      · subst hw
        cases (hself hp).symm.trans hj
        simp
      · rw [hparks w hw] at hj
        have hmem := h.listed w t u hj hu
        split
        · exact List.mem_append_left _ hmem
        · exact hmem
    · obtain ⟨u, hu, he⟩ := hlists t r' hr'
      rw [he] at hw
      refine stillJoining_eq_some.2 ⟨hp, ?_⟩
      by_cases hwaits : w = waiter
      · subst hwaits
        split at hw
        · next heq => exact heq ▸ hself hp
        · exact absurd ⟨t, u, hu, hw⟩ hwaiter
      · rw [hparks w hwaits]
        refine h.joined w t u hu ?_ (hothers w hwaits hp)
        split at hw
        · exact (List.mem_append.1 hw).resolve_right (by simpa using hwaits)
        · exact hw
  · have hrun : s.join waiter target = (false, s) := by
      unfold Scheduler.join
      split
      · next r hr =>
        rw [if_neg]
        simpa using fun halive => not_not.1 fun hne => hjoin ⟨r, hr, halive, hne⟩
      · rfl
    simp only [Command.parks, hrun]
    exact h.loosens (.refl s)

end Joins

theorem terminate_eq {id : ThreadId} {r : Thread σ} (hr : s.get? id = some r) : (s.terminate id).2 =
    ((((s.update id ended).withoutReady id).withoutCurrent id).forgetJoin id).attachAll r.joiners := by
  unfold Scheduler.terminate
  rw [hr]
  rfl

theorem get?_terminate {id : ThreadId} {r : Thread σ} (hr : s.get? id = some r) (j : ThreadId) :
    (s.terminate id).2.get? j = if j = id then some (ended r)
      else (s.get? j).map fun t =>
        let left : Thread σ := { t with joiners := t.joiners.filter (· ≠ id) }
        if j ∈ r.joiners then left.woken else left := by
  have hget : ∀ s : Scheduler σ, ((s.withoutReady id).withoutCurrent id).get? j = s.get? j := fun _ => rfl
  rw [terminate_eq hr, get?_attachAll, get?_forgetJoin, hget, get?_update]
  by_cases hj : j = id
  · subst hj
    simp [hr, ended, Thread.woken, Thread.isDetached]
  · rw [if_neg (Ne.symm hj), if_neg hj]
    by_cases hmem : j ∈ r.joiners <;> simp [hmem, Function.comp_def]

/-- An end wakes the joiners and strikes the thread off the lists. -/
theorem Joins.terminate (h : s.Joins joining) (id : ThreadId) :
    (s.terminate id).2.Joins ((s.terminate id).2.stillJoining joining) := by
  cases hr : s.get? id with
  | none =>
    have hrun : (s.terminate id).2 = s := by simp [Scheduler.terminate, hr]
    rw [hrun]
    exact h.loosens (.refl s)
  | some r =>
    have hget := get?_terminate hr
    have hnext : (s.terminate id).2.nextId = s.nextId := (s.terminate_alike id).nextId
    have hparked : ∀ w, (s.terminate id).2.Parked w → w ≠ id ∧ s.Parked w ∧ w ∉ r.joiners := by
      rintro w ⟨u', hu', hd⟩
      rw [hget] at hu'
      split at hu'
      · cases hu'
        cases hd
      · next hne =>
        obtain ⟨u, hu, rfl⟩ := Option.map_eq_some_iff.1 hu'
        dsimp only at hd
        split at hd
        · exact absurd hd (by simp [not_isDetached_woken])
        · next hout => exact ⟨hne, ⟨u, hu, hd⟩, hout⟩
    have hlists : ∀ t r', (s.terminate id).2.get? t = some r' → t = id ∧ r'.joiners = [] ∨
        t ≠ id ∧ ∃ r, s.get? t = some r ∧ r'.joiners = r.joiners.filter (· ≠ id) := by
      intro t r' hr'
      rw [hget] at hr'
      split at hr'
      · next heq =>
        cases hr'
        exact .inl ⟨heq, rfl⟩
      · next hne =>
        obtain ⟨u, hu, rfl⟩ := Option.map_eq_some_iff.1 hr'
        refine .inr ⟨hne, u, hu, ?_⟩
        dsimp only
        split
        · rw [joiners_woken]
        · rfl
    refine ⟨fun w t hj => ?_, fun w t r' hj hr' => ?_, fun w t r' hr' hw hp => ?_⟩
    · obtain ⟨hp, hj⟩ := stillJoining_eq_some.1 hj
      rw [hnext]
      exact ⟨hp, (h.parked w t hj).2⟩
    · obtain ⟨hp, hjoining⟩ := stillJoining_eq_some.1 hj
      obtain ⟨hne, _, hout⟩ := hparked w hp
      rcases hlists t r' hr' with ⟨rfl, -⟩ | ⟨-, u, hu, he⟩
      · exact absurd (h.listed w t r hjoining hr) hout
      · rw [he]
        exact List.mem_filter.2 ⟨h.listed w t u hjoining hu, by simpa using hne⟩
    · obtain ⟨_, hp₀, _⟩ := hparked w hp
      rcases hlists t r' hr' with ⟨-, he⟩ | ⟨-, u, hu, he⟩
      · rw [he] at hw
        cases hw
      · rw [he] at hw
        exact stillJoining_eq_some.2 ⟨hp, h.joined w t u hu (List.mem_of_mem_filter hw) hp₀⟩

/-- What one command preserves. -/
theorem Joins.step (hs : s.Sound) (h : s.Joins joining) {c : Command σ} (hc : c.Allowed s)
    (hm : c.Mindful s) : (c.run s).Joins ((c.run s).stillJoining (c.parks s joining)) := by
  cases c with
  | spawn object stack => exact h.spawn hc object stack
  | insert r => exact absurd hm id
  | next => exact h.loosens (.next s)
  | endSlice => exact h.loosens (.of_threads_eq rfl rfl)
  | detach id timeout => exact h.detach hm timeout
  | attach id => exact h.loosens (.attach s id)
  | wakeExpired => exact h.loosens (.attachAll s.expired s)
  | interrupt id => exact h.loosens (.interrupt s id)
  | takeInterrupt id =>
    exact h.loosens (.update s id (f := fun t => { t with interrupted := false })
      (fun _ => ⟨rfl, rfl, rfl, .inl rfl⟩) fun _ => rfl)
  | join waiter target => exact h.join hs.numbered hm target
  | terminate id => exact h.terminate id
  | remove id =>
    refine h.sublist rfl fun j r hr => ?_
    change (s.remove id).2.get? j = some r at hr
    rw [get?_remove] at hr
    split at hr
    · cases hr
    · exact hr
  | reap =>
    refine h.sublist rfl fun j r hr => ?_
    change s.reap.2.get? j = some r at hr
    rw [get?_reap] at hr
    exact (Option.filter_eq_some_iff.1 hr).1
  | send r => exact h.loosens (.of_threads_eq rfl rfl)
  | drain => exact h.loosens (.drain s)
  | tick now => exact h.loosens (.of_threads_eq rfl rfl)

theorem Tracked.joins (h : Tracked s joining) : s.Joins joining := by
  induction h with
  | start now =>
    refine ⟨fun w t hj => ?_, fun w t r hj => ?_, fun w t r hr => ?_⟩
    · cases hj
    · cases hj
    · simp [get?] at hr
  | step h c hc hm ih => exact ih.step h.reachable.sound hc hm

/-- An end wakes exactly the threads that are parked by a join on the thread that ends. Every other
thread keeps its record, less the thread that ended among its joiners, and its place in the rotation;
the ones that are woken join the rotation at its end. -/
theorem terminate_wakes_joining {s : Scheduler σ} {joining : ThreadId → Option ThreadId}
    (h : Tracked s joining) {t : ThreadId} {r : Thread σ} (hr : s.get? t = some r) :
    (∀ w, (s.Parked w ∧ (s.terminate t).2.MayRun w) ↔ joining w = some t) ∧
    (∀ w u, w ≠ t → joining w ≠ some t → s.get? w = some u →
      (s.terminate t).2.get? w = some { u with joiners := u.joiners.filter (· ≠ t) }) ∧
    ∃ woken, (s.terminate t).2.ready = s.ready.filter (· ≠ t) ++ woken ∧
      ∀ w, w ∈ woken ↔ joining w = some t := by
  have hs := h.reachable.sound
  have hj := h.joins
  have hget := get?_terminate hr
  have hwakes : ∀ w, (s.Parked w ∧ (s.terminate t).2.MayRun w) ↔ joining w = some t := by
    intro w
    constructor
    · rintro ⟨⟨u, hu, hd⟩, u', hu', hready⟩
      rw [hget] at hu'
      split at hu'
      · cases hu'
        cases hready
      · rw [hu] at hu'
        obtain rfl := Option.some.inj hu'
        dsimp only at hready
        split at hready
        · next hmem => exact hj.joined w t r hr hmem ⟨u, hu, hd⟩
        · exact absurd ⟨u, hu, hready⟩ (not_mayRun_of_isDetached hu hd)
    · intro hw
      obtain ⟨⟨u, hu, hd⟩, hne, _⟩ := hj.parked w t hw
      refine ⟨⟨u, hu, hd⟩, ?_⟩
      have hafter := hget w
      rw [if_neg hne, hu, Option.map_some, if_pos (hj.listed w t r hw hr)] at hafter
      exact ⟨_, hafter, Thread.state_woken (isAlive_of_isDetached hd)⟩
  refine ⟨hwakes, fun w u hne hw hu => ?_, ?_⟩
  · rw [hget, if_neg hne, hu, Option.map_some]
    split
    · next hmem =>
      have hnd : ¬ u.isDetached = true := fun hd => hw (hj.joined w t r hr hmem ⟨u, hu, hd⟩)
      have hsame : ({ u with joiners := u.joiners.filter (· ≠ t) } : Thread σ).isDetached = u.isDetached := rfl
      simp only [Thread.woken, hsame, hnd, if_false, Bool.false_eq_true]
    · rfl
  · obtain ⟨woken, hready⟩ := ready_attachAll
      ((((s.update t ended).withoutReady t).withoutCurrent t).forgetJoin t) r.joiners
    rw [← terminate_eq hr] at hready
    have hready : (s.terminate t).2.ready = s.ready.filter (· ≠ t) ++ woken := hready
    have hafter : (s.terminate t).2.Exact := hs.toExact.terminate t
    refine ⟨woken, hready, fun w => ?_⟩
    rw [← hwakes]
    have hnodup := hafter.nodup
    rw [hready] at hnodup
    have hmem := hafter.mem_ready w
    rw [hready, List.mem_append] at hmem
    constructor
    · intro hw
      have hrun := hmem.1 (.inr hw)
      refine ⟨?_, hrun⟩
      obtain ⟨u', hu', hstate⟩ := hrun
      rw [hget] at hu'
      split at hu'
      · cases hu'
        cases hstate
      · next hne =>
        obtain ⟨u, hu, rfl⟩ := Option.map_eq_some_iff.1 hu'
        refine ⟨u, hu, ?_⟩
        -- a thread that could run before would be in the rotation twice
        have hout : w ∉ s.ready := fun hin =>
          (List.nodup_append.1 hnodup).2.2 w (List.mem_filter.2 ⟨hin, by simpa using hne⟩) w hw rfl
        have hnot : u.state ≠ .ready := fun hrun => hout ((hs.toExact.mem_ready w).2 ⟨u, hu, hrun⟩)
        dsimp only at hstate
        split at hstate
        · have hd := isDetached_of_woken hstate hnot
          exact hd
        · exact absurd hstate hnot
    · rintro ⟨hp, hrun⟩
      refine (hmem.2 hrun).resolve_left fun hold => ?_
      obtain ⟨u, hu, hd⟩ := hp
      exact not_mayRun_of_isDetached hu hd ((hs.toExact.mem_ready w).1 (List.mem_filter.1 hold).1)

/-- Thread 1 has joined thread 2 and was interrupted; thread 3 has joined thread 2. -/
theorem tracked_joined : ∃ (s : Scheduler Unit) (joining : ThreadId → Option ThreadId),
    Tracked s joining ∧ (s.get? 2).isSome ∧ joining 1 = none ∧ joining 3 = some 2 ∧
    (s.get? 1).map (·.state) = some (.detachedUntil 50) := by
  have h₁ := (Tracked.start 0).step (.spawn Ref.null ()) (by decide) trivial
  have h₂ := h₁.step (.spawn Ref.null ()) (by decide) trivial
  have h₃ := h₂.step (.spawn Ref.null ()) (by decide) trivial
  have h₄ := h₃.step (.join 1 2) trivial (unlisted (by decide))
  have h₅ := h₄.step (.join 3 2) trivial (unlisted (by decide))
  have h₆ := h₅.step (.interrupt 1) trivial trivial
  have h₇ := h₆.step (.detach 1 (.millis 50)) trivial (unlisted (by decide))
  exact ⟨_, _, h₇, by decide, by decide, by decide, by decide⟩

/-- The end of thread 2 wakes thread 3 and leaves thread 1 asleep. -/
theorem terminate_wakes_joined : ∃ s : Scheduler Unit, Reachable s ∧ s.Parked 3 ∧
    (s.terminate 2).2.MayRun 3 ∧ ¬ (s.Parked 1 ∧ (s.terminate 2).2.MayRun 1) := by
  obtain ⟨s, joining, h, htwo, hone, hthree, -⟩ := tracked_joined
  obtain ⟨r, hr⟩ := Option.isSome_iff_exists.1 htwo
  have hwakes := (terminate_wakes_joining h hr).1
  have hwoken := (hwakes 3).2 hthree
  refine ⟨s, h.reachable, hwoken.1, hwoken.2, fun hw => ?_⟩
  exact absurd ((hwakes 1).1 hw) (by simp [hone])

/-- Thread 1 has joined thread 2, was attached by the host and sleeps until 1000; the end of thread 2
wakes it all the same. -/
theorem terminate_wakes_sleeper : ∃ s : Scheduler Unit, Reachable s ∧ s.now = 0 ∧
    (s.get? 1).map (·.state) = some (.detachedUntil 1000) ∧ (s.terminate 2).1 = [1] ∧
    (s.terminate 2).2.MayRun 1 := by
  have h₁ := (Reachable.start 0).step (.spawn Ref.null ()) (by decide)
  have h₂ := h₁.step (.spawn Ref.null ()) (by decide)
  have h₃ := h₂.step (.join 1 2) trivial
  have h₄ := h₃.step (.attach 1) trivial
  have h₅ := h₄.step (.detach 1 (.millis 1000)) trivial
  exact ⟨_, h₅, rfl, by decide, by decide, _, rfl, rfl⟩

end ClassMachine.Scheduler
