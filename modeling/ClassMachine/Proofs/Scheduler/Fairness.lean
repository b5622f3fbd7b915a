import ClassMachine.Proofs.Scheduler.Rotation
import Mathlib.Data.List.TakeWhile
import Mathlib.Data.Option.Basic

/-!
The rotation is fair. Threads join it at its end only, so those ahead of a thread leave, are picked or
stay, and nobody new gets ahead of it. How many picks pass a thread over is bounded by its place.
-/
namespace ClassMachine.Scheduler

variable {σ : Type} {s s' : Scheduler σ} {t u : ThreadId}

namespace Command

/-- The command neither detaches a thread nor lets it wait for another, and neither ends nor removes
it. -/
def Spares (t : ThreadId) : Command σ → Prop
  | detach id _ => id ≠ t
  | join waiter _ => waiter ≠ t
  | terminate id => id ≠ t
  | remove id => id ≠ t
  | _ => True

/-- What the command picks. -/
def picks (s : Scheduler σ) : Command σ → List (Option ThreadId)
  | next => [s.next.1]
  | _ => []

/-- The command puts a thread into the rotation that was not in it, or makes a record for it. -/
def Brings (s : Scheduler σ) (c : Command σ) (u : ThreadId) : Prop :=
  (¬ s.MayRun u ∧ (c.run s).MayRun u) ∨ (s.get? u = none ∧ ((c.run s).get? u).isSome)

theorem Brings.not_mayRun {c : Command σ} (h : c.Brings s u) : ¬ s.MayRun u := by
  rcases h with ⟨hnot, -⟩ | ⟨hnone, -⟩
  · exact hnot
  · rintro ⟨r, hr, -⟩
    cases hnone.symm.trans hr

end Command

/-- The scheduler after some commands. -/
def runAll (s : Scheduler σ) (cs : List (Command σ)) : Scheduler σ := cs.foldl (fun s c => c.run s) s

@[simp]
theorem runAll_nil (s : Scheduler σ) : s.runAll [] = s := rfl

@[simp]
theorem runAll_cons (s : Scheduler σ) (c : Command σ) (cs : List (Command σ)) :
    s.runAll (c :: cs) = (c.run s).runAll cs := rfl

/-- What some commands pick, one after the other. -/
def picks (s : Scheduler σ) : List (Command σ) → List (Option ThreadId)
  | [] => []
  | c :: cs => c.picks s ++ (c.run s).picks cs

/-- How often some commands ask for a thread to run. -/
def nexts : List (Command σ) → Nat
  | [] => 0
  | .next :: cs => nexts cs + 1
  | _ :: cs => nexts cs

theorem length_picks (s : Scheduler σ) (cs : List (Command σ)) : (s.picks cs).length = nexts cs := by
  induction cs generalizing s with
  | nil => rfl
  | cons c cs ih =>
    have hone : (c.picks s).length + nexts cs = nexts (c :: cs) := by
      cases c <;> simp [Command.picks, nexts, Nat.add_comm]
    rw [picks, List.length_append, ih, hone]

/-- Each command is allowed where it is given, and each of them spares the thread. -/
def Sparing (t : ThreadId) (s : Scheduler σ) : List (Command σ) → Prop
  | [] => True
  | c :: cs => c.Allowed s ∧ c.Spares t ∧ Sparing t (c.run s) cs

theorem sparing_append {cs ds : List (Command σ)} :
    Sparing t s (cs ++ ds) ↔ Sparing t s cs ∧ Sparing t (s.runAll cs) ds := by
  induction cs generalizing s with
  | nil => simp [Sparing]
  | cons c cs ih => simp [Sparing, ih, and_assoc]

theorem Sound.runAll (h : s.Sound) {cs : List (Command σ)} (hcs : Sparing t s cs) : (s.runAll cs).Sound := by
  induction cs generalizing s with
  | nil => exact h
  | cons c cs ih => exact ih (h.step c hcs.1) hcs.2.2

/-- Attaching a thread changes the rotation at its end only. -/
theorem ready_attach (s : Scheduler σ) (id : ThreadId) : ∃ l, (s.attach id).2.ready = s.ready ++ l := by
  unfold attach
  split
  · split
    · exact ⟨[id], rfl⟩
    · exact ⟨[], (List.append_nil _).symm⟩
  · exact ⟨[], (List.append_nil _).symm⟩

theorem ready_attachAll (s : Scheduler σ) (ids : List ThreadId) :
    ∃ l, (s.attachAll ids).ready = s.ready ++ l := by
  induction ids generalizing s with
  | nil => exact ⟨[], (List.append_nil _).symm⟩
  | cons id ids ih =>
    obtain ⟨l, hl⟩ := s.ready_attach id
    obtain ⟨l', hl'⟩ := ih (s.attach id).2
    refine ⟨l ++ l', ?_⟩
    rw [← List.append_assoc, ← hl]
    exact hl'

/-- Whoever is ahead of the thread afterwards was ahead of it before, in the same order. -/
def NobodyPasses (t : ThreadId) (s s' : Scheduler σ) : Prop :=
  ∀ ahead behind, s.ready = ahead ++ t :: behind →
    ∃ ahead' behind', s'.ready = ahead' ++ t :: behind' ∧ ahead'.Sublist ahead

namespace NobodyPasses

theorem of_append {l : List ThreadId} (h : s'.ready = s.ready ++ l) : NobodyPasses t s s' := by
  intro ahead behind heq
  refine ⟨ahead, behind ++ l, ?_, .refl _⟩
  rw [h, heq, List.append_assoc, List.cons_append]

theorem of_same (h : s'.ready = s.ready) : NobodyPasses t s s' :=
  of_append (l := []) (by rw [h, List.append_nil])

theorem refl (t : ThreadId) (s : Scheduler σ) : NobodyPasses t s s := of_same rfl

theorem of_filter {id : ThreadId} (hid : id ≠ t) (h : s'.ready = s.ready.filter (· ≠ id)) :
    NobodyPasses t s s' := by
  intro ahead behind heq
  refine ⟨ahead.filter (· ≠ id), behind.filter (· ≠ id), ?_, List.filter_sublist⟩
  rw [h, heq, List.filter_append, List.filter_cons_of_pos (by simpa using hid.symm)]

theorem trans {s'' : Scheduler σ} (h : NobodyPasses t s s') (h' : NobodyPasses t s' s'') :
    NobodyPasses t s s'' := by
  intro ahead behind heq
  obtain ⟨ahead₁, behind₁, heq₁, hsub₁⟩ := h ahead behind heq
  obtain ⟨ahead₂, behind₂, heq₂, hsub₂⟩ := h' ahead₁ behind₁ heq₁
  exact ⟨ahead₂, behind₂, heq₂, hsub₂.trans hsub₁⟩

theorem attach (t : ThreadId) (s : Scheduler σ) (id : ThreadId) : NobodyPasses t s (s.attach id).2 := by
  obtain ⟨l, hl⟩ := s.ready_attach id
  exact of_append hl

theorem attachAll (t : ThreadId) (s : Scheduler σ) (ids : List ThreadId) :
    NobodyPasses t s (s.attachAll ids) := by
  obtain ⟨l, hl⟩ := s.ready_attachAll ids
  exact of_append hl

theorem insert (t : ThreadId) (s : Scheduler σ) (r : Thread σ) : NobodyPasses t s (s.insert r) := by
  by_cases hready : r.state = .ready
  · exact of_append (l := [r.id]) (by simp [Scheduler.insert, hready])
  · exact of_same (by simp [Scheduler.insert, hready])

theorem detach {id : ThreadId} (hid : id ≠ t) (s : Scheduler σ) (timeout : Timeout) :
    NobodyPasses t s (s.detach id timeout).2 := by
  unfold Scheduler.detach
  split
  · split
    · exact of_filter hid rfl
    · exact refl t s
  · exact refl t s

theorem interrupt (t : ThreadId) (s : Scheduler σ) (id : ThreadId) :
    NobodyPasses t s (s.interrupt id).2 := by
  unfold Scheduler.interrupt
  split
  · split
    · have hmarked (f) : NobodyPasses t s ((s.update id f).forgetJoin id) := of_same rfl
      dsimp only
      split
      · exact (hmarked _).trans (attach t _ id)
      · exact of_same rfl
    · exact refl t s
  · exact refl t s

theorem join {waiter : ThreadId} (hwaiter : waiter ≠ t) (s : Scheduler σ) (target : ThreadId) :
    NobodyPasses t s (s.join waiter target).2 := by
  unfold Scheduler.join
  split
  · split
    · have hlisted (f) : NobodyPasses t s (s.update target f) := of_same rfl
      exact (hlisted _).trans (detach hwaiter _ .indefinite)
    · exact refl t s
  · exact refl t s

theorem terminate {id : ThreadId} (hid : id ≠ t) (s : Scheduler σ) :
    NobodyPasses t s (s.terminate id).2 := by
  unfold Scheduler.terminate
  split
  · next r _ =>
    have hout (f) : NobodyPasses t s ((((s.update id f).withoutReady id).withoutCurrent id).forgetJoin id) :=
      of_filter hid rfl
    exact (hout _).trans (attachAll t _ r.joiners)
  · exact refl t s

theorem serve (t : ThreadId) (s : Scheduler σ) (r : HostRequest) : NobodyPasses t s (s.serve r) := by
  cases r with
  | attach id => exact attach t s id
  | interrupt id => exact interrupt t s id
  | stop => exact refl t s

theorem drain (t : ThreadId) (s : Scheduler σ) : NobodyPasses t s s.drain.2 := by
  have hserved : ∀ (requests : List HostRequest) (s : Scheduler σ),
      NobodyPasses t s (requests.foldl Scheduler.serve s) := by
    intro requests
    induction requests with
    | nil => exact fun s => refl t s
    | cons r requests ih => exact fun s => (serve t s r).trans (ih _)
  have htaken : NobodyPasses t s { s with requests := [] } := of_same rfl
  exact htaken.trans (hserved s.requests _)

end NobodyPasses

/-- What a command that is no pick does to those ahead of a thread it spares. -/
theorem Command.nobodyPasses {c : Command σ} (hc : c.Spares t) (hpick : c.picks s = []) :
    NobodyPasses t s (c.run s) := by
  cases c with
  | spawn object stack =>
    have hnumbered (n) : NobodyPasses t s { s with nextId := n } := .of_same rfl
    exact (hnumbered _).trans (.insert t _ _)
  | insert r => exact .insert t s r
  | next => cases hpick
  | detach id timeout => exact .detach hc s timeout
  | attach id => exact .attach t s id
  | wakeExpired => exact .attachAll t s s.expired
  | interrupt id => exact .interrupt t s id
  | join waiter target => exact .join hc s target
  | terminate id => exact .terminate hc s
  | remove id => exact .of_filter hc rfl
  | drain => exact .drain t s
  | endSlice | takeInterrupt _ | reap | send _ | tick _ => exact .of_same rfl

/-- A pick takes whoever is in front, also when timers expire: the thread itself, or the first of those
ahead of it. -/
theorem next_of_ready {ahead behind : List ThreadId} (h : s.ready = ahead ++ t :: behind) :
    (ahead = [] ∧ s.next.1 = some t) ∨
    ∃ x rest behind', ahead = x :: rest ∧ s.next.1 = some x ∧ s.next.2.ready = rest ++ t :: behind' := by
  obtain ⟨l, hl⟩ := s.ready_attachAll s.expired
  have hwoken : s.wakeExpired.2.ready = ahead ++ t :: (behind ++ l) := by
    show (s.attachAll s.expired).ready = _
    rw [hl, h, List.append_assoc, List.cons_append]
  cases ahead with
  | nil =>
    refine .inl ⟨rfl, ?_⟩
    unfold next
    simp only [hwoken, List.nil_append]
  | cons x rest =>
    refine .inr ⟨x, rest, behind ++ l ++ [x], rfl, ?_, ?_⟩
    · unfold next
      simp only [hwoken, List.cons_append]
    · unfold next
      simp only [hwoken, List.cons_append, List.append_assoc]

/-- What is picked before a thread is picked. -/
def picksBefore (t : ThreadId) (s : Scheduler σ) (cs : List (Command σ)) : List (Option ThreadId) :=
  (s.picks cs).takeWhile (· ≠ some t)

theorem picksBefore_eq_picks {cs : List (Command σ)} (h : some t ∉ s.picks cs) :
    picksBefore t s cs = s.picks cs := by
  refine List.takeWhile_eq_self_iff.2 fun x hx => ?_
  simpa using fun heq : x = some t => h (heq ▸ hx)

/-- Until a thread is picked, those ahead of it are, each at most once and in their order. -/
theorem picksBefore_sublist {cs : List (Command σ)} (hcs : Sparing t s cs) {ahead behind : List ThreadId}
    (h : s.ready = ahead ++ t :: behind) : (picksBefore t s cs).Sublist (ahead.map some) := by
  induction cs generalizing s ahead behind with
  | nil => exact List.nil_sublist _
  | cons c cs ih =>
    obtain ⟨-, hspares, hrest⟩ := hcs
    by_cases hpick : c.picks s = []
    · obtain ⟨ahead', behind', h', hsub⟩ := Command.nobodyPasses hspares hpick ahead behind h
      have hsame : picksBefore t s (c :: cs) = picksBefore t (c.run s) cs := by
        rw [picksBefore, picks, hpick, List.nil_append, picksBefore]
      rw [hsame]
      exact (ih hrest h').trans (hsub.map some)
    · cases c with
      | next =>
        have hpicks : s.picks (.next :: cs) = s.next.1 :: s.next.2.picks cs := rfl
        rw [picksBefore, hpicks]
        rcases next_of_ready h with ⟨-, hself⟩ | ⟨x, rest, behind', rfl, hx, h'⟩
        · rw [hself, List.takeWhile_cons_of_neg (by simp)]
          exact List.nil_sublist _
        · rw [hx, List.map_cons]
          by_cases hxt : x = t
          · rw [hxt, List.takeWhile_cons_of_neg (by simp)]
            exact List.nil_sublist _
          · rw [List.takeWhile_cons_of_pos (by simpa using hxt)]
            exact (ih hrest h').cons_cons _
      | _ => exact absurd rfl hpick

/-- A thread that is not picked stays in the rotation. -/
theorem ready_runAll {cs : List (Command σ)} (hcs : Sparing t s cs) (h : t ∈ s.ready)
    (hnot : some t ∉ s.picks cs) : t ∈ (s.runAll cs).ready := by
  induction cs generalizing s with
  | nil => exact h
  | cons c cs ih =>
    obtain ⟨-, hspares, hrest⟩ := hcs
    rw [picks, List.mem_append, not_or] at hnot
    refine ih hrest ?_ hnot.2
    obtain ⟨ahead, behind, heq⟩ := List.append_of_mem h
    by_cases hpick : c.picks s = []
    · obtain ⟨ahead', behind', h', -⟩ := Command.nobodyPasses hspares hpick ahead behind heq
      simp [h']
    · cases c with
      | next =>
        rcases next_of_ready heq with ⟨-, hself⟩ | ⟨x, rest, behind', -, -, h'⟩
        · exact absurd (by simp [Command.picks, hself]) hnot.1
        · show t ∈ s.next.2.ready
          simp [h']
      | _ => exact absurd rfl hpick

/-- The rotation is fair. However a scheduler is used, as long as a thread that waits at some place of
the rotation is left in it: fewer picks than its place says go to others first; until it is picked, each
pick goes to some other thread, and to none of them twice; and who comes into the rotation or into
being meanwhile is picked after it. -/
theorem next_fair (h : s.Sound) {p : Nat} (hp : s.ready[p]? = some t) {cs : List (Command σ)}
    (hcs : Sparing t s cs) :
    (∀ ds, ds <+: cs → some t ∉ s.picks ds → nexts ds ≤ p) ∧
    (picksBefore t s cs).Nodup ∧ none ∉ picksBefore t s cs ∧
    ∀ before c after u, cs = before ++ c :: after → some t ∉ s.picks before →
      c.Brings (s.runAll before) u → some u ∉ picksBefore t (s.runAll before) (c :: after) := by
  obtain ⟨hlt, hget⟩ := List.getElem?_eq_some_iff.1 hp
  have hplace : s.ready = s.ready.take p ++ t :: s.ready.drop (p + 1) := by
    rw [← hget, List.getElem_cons_drop, List.take_append_drop]
  have hsub := picksBefore_sublist hcs hplace
  refine ⟨?_, ?_, ?_, ?_⟩
  · rintro ds ⟨es, rfl⟩ hnot
    have hle := (picksBefore_sublist (sparing_append.1 hcs).1 hplace).length_le
    rw [picksBefore_eq_picks hnot, length_picks, List.length_map] at hle
    exact Nat.le_trans hle (List.length_take_le p s.ready)
  · have hnodup : (s.ready.take p).Nodup := h.nodup.sublist (List.take_sublist p s.ready)
    exact (hnodup.map (Option.some_injective _)).sublist hsub
  · intro hmem
    have hsome := hsub.subset hmem
    simp only [List.mem_map, reduceCtorEq, and_false, exists_false] at hsome
  · rintro before c after u rfl hnot hbrings hmem
    obtain ⟨hbefore, hafter⟩ := sparing_append.1 hcs
    have hready := ready_runAll hbefore (List.mem_of_getElem? hp) hnot
    obtain ⟨ahead, behind, heq⟩ := List.append_of_mem hready
    have hu : u ∈ ahead := by simpa using (picksBefore_sublist hafter heq).subset hmem
    have hmay : (s.runAll before).MayRun u :=
      ((h.runAll hbefore).mem_ready u).1 (by simp [heq, hu])
    exact hbrings.not_mayRun hmay

/-- The third of three threads is picked third, although a fourth one comes into being before the first
pick and the first one ends after it. -/
theorem next_fair_three : ∃ s : Scheduler Unit, s.Sound ∧ s.ready[2]? = some 3 ∧
    Sparing 3 s [.spawn Ref.null (), .next, .terminate 1, .next, .next] ∧
    nexts [Command.spawn (σ := Unit) Ref.null (), .next, .terminate 1, .next] ≤ 2 ∧
    some 4 ∉ picksBefore 3 s [.spawn Ref.null (), .next, .terminate 1, .next, .next] := by
  have h₁ := (Reachable.start (σ := Unit) 0).step (.spawn Ref.null ()) (by decide)
  have h₂ := h₁.step (.spawn Ref.null ()) (by decide)
  have h₃ := h₂.step (.spawn Ref.null ()) (by decide)
  have hfair := next_fair (t := 3) (p := 2) h₃.sound (by decide)
    (show Sparing 3 _ [.spawn Ref.null (), .next, .terminate 1, .next, .next] from
      ⟨by decide, trivial, trivial, trivial, trivial, by simp [Command.Spares], trivial, trivial, trivial,
        trivial, trivial⟩)
  refine ⟨_, h₃.sound, by decide, ?_, hfair.1 _ ⟨[.next], rfl⟩ (by decide), ?_⟩
  · exact ⟨by decide, trivial, trivial, trivial, trivial, by simp [Command.Spares], trivial, trivial, trivial,
      trivial, trivial⟩
  · exact hfair.2.2.2 [] _ _ 4 rfl (by decide) (.inr ⟨by decide, by decide⟩)

end ClassMachine.Scheduler
