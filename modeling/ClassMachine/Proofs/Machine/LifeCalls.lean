import ClassMachine.Proofs.Machine.LifeSteps
import ClassMachine.Proofs.Machine.Nesting

/-!
Calls in the life of a thread. An instruction may run code of its own before it ends, on threads made for it
or started by it; meanwhile its thread goes on living, as all others do. A thread that parks itself is at the
call of a native method, and its frames stay as they are there.
-/
namespace ClassMachine.Machine
open Stateful

variable {α β : Type} {m m' m'' n : Machine} {t s : ThreadId} {k : Nested}

section Stacks

/-- The frames of a thread, and those in its record, are exchanged for others. -/
theorem Governed.restack (h : Governed m) (ht : ∀ j ∈ some t, (m.scheduler.get? j).isSome)
    (stored active : FrameStack) :
    Governed (restack t stored active m) ∧ Passive (some t) m (restack t stored active m) := by
  obtain ⟨hg, hothers⟩ := h.does ht (.one (.restack rfl m.scheduler stored))
    (m.scheduler.update_pointwise Thread.Heeds.refl t fun _ => ⟨rfl, rfl, fun _ hs => hs⟩)
    (Scheduler.update_rotates h.claimed.rotates t fun _ => rfl)
  exact ⟨hg.congr rfl rfl rfl, hothers.trans (.of_scheduler_eq rfl)⟩

theorem Going.swaps (h : Going t m) : Goes t m (swapStack t m) ∧ Passive (some t) m (swapStack t m) := by
  obtain ⟨u, hu, halive, hpending, hmark⟩ := h.awake
  have hswap : swapStack t m = restack t m.active u.stack m := by
    unfold swapStack
    rw [hu]
    rfl
  rw [hswap]
  obtain ⟨hg, hothers⟩ := h.toGoverned.restack h.known m.active u.stack
  have hself := (get?_restack hu m.active u.stack t).trans (if_pos rfl)
  refine ⟨Going.goes ⟨hg, _, hself, halive, hpending, hmark⟩ hothers fun ⟨v, hv, hflag⟩ => ⟨_, hself, ?_⟩, hothers⟩
  cases hu.symm.trans hv
  exact hflag

theorem Telling.withParked {x y : MachineM α} (hx : Telling t x y) : Telling t (withParked t x) (withParked t y) :=
  Telling.bind (x := modify (swapStack t)) (y := modify (swapStack t)) (fun _ hm => hm.swaps.1) fun _ =>
    hx.ensuring fun _ hn => hn.swaps.1

end Stacks

section Initialization

end Initialization

section Starting

/-- A thread has ended, and its record may be gone; the others are as they were. -/
structure Closes (t : ThreadId) (m m' : Machine) : Prop extends Governed m' where
  ended : standing t m' = .over
  spell : Spell t (.spent, m) (.over, m')

/-- A live thread ends. -/
theorem Governed.terminates (h : Governed m) (ht : Able t m) (reports : List UncaughtException) :
    Closes t m { m with scheduler := (m.scheduler.terminate t).2, uncaught := reports } := by
  have hacts : Acts (· = t) m { m with scheduler := (m.scheduler.terminate t).2 } :=
    (Passed.terminate (S := (· = t)) rfl).acts
  have hnextId : (m.scheduler.terminate t).2.nextId = m.scheduler.nextId :=
    (Scheduler.Deed.terminate (r := some t) rfl m.scheduler).known.nextId
  have hrostered := Acts.rostered hacts h.rostered
  obtain ⟨u, hu, -⟩ := ht
  obtain ⟨u', hu', hwoken⟩ := (m.scheduler.terminate_wakes t).exists_of_some
    (show (m.scheduler.update t Scheduler.ended).get? t = some (Scheduler.ended u) by
      rw [Scheduler.get?_update, if_pos rfl, hu]
      rfl)
  refine ⟨⟨⟨hrostered.numbered, hrostered.keyed, hrostered.objects⟩, h.claimed.terminate t, h.addressed, h.noHost⟩,
    standing_of_dead hu' hwoken.heeds.alive, .single (.ends (.inl rfl)), fun j hj => ?_⟩
  have hrel := Acts.rel (S := (· = t)) hacts h.rostered hj (.inr hnextId)
  exact .bides hrel (hnextId ▸ Iff.rfl)

/-- A thread has gone on, but for what became of another one meanwhile. -/
structure Minds (s t : ThreadId) (m m' : Machine) : Prop where
  going : Going t m'
  flag : Flagged t m → Flagged t m'
  others : ∀ j, j ≠ t → j ≠ s → LivesOn j m m'

theorem Minds.trans (h : Minds s t m m') (h' : Minds s t m' m'') : Minds s t m m'' :=
  ⟨h'.going, fun hf => h'.flag (h.flag hf), fun j hj hs => (h.others j hj hs).trans (h'.others j hj hs)⟩

theorem Minds.goes (h : Minds s t m m') (hs : LivesOn s m m') : Goes t m m' := by
  refine ⟨h.going, h.flag, fun j hj => ?_⟩
  by_cases hjs : j = s
  · exact hjs ▸ hs
  · exact h.others j hj hjs

end Starting

section Parking

variable {f : Frame} {rest : FrameStack} {l : Nested} {flow : Flow} {method : MethodId} {args : List Value}

/-- Wherever a computation comes to a result, its thread is not parked in a call. -/
def Unparked (t : ThreadId) (x _y : MachineM Flow) : Prop :=
  ∀ m, Going t m → Ends (x m) (fun _ m' => Stalls t m m') fun _ _ => True

theorem sequel_unparked : Sequel (Telling t) (Unparked t) where
  along hx hf _ hm := Telling.bind_ends hx hm (fun _ _ _ => trivial) fun a m' ha hgoes =>
    (hf a ha m' hgoes.going).mono (fun _ _ h => hgoes.thenStalls h) fun _ _ _ => trivial
  read hf _ m hm := hf m m hm
  throw _ _ _ _ := trivial

theorem callBytecode_unparked (m : Method) (args : List Value) :
    Unparked t (callBytecode t m args) (callBytecode t m args) :=
  rules_telling.callBytecode free_telling sequel_unparked (fun _ hm => (Goes.refl hm).stalls)
    (fun object _ hm => (enterMonitor_stops hm object).mono (fun _ _ h => h.stalls) fun _ _ _ => trivial) m args

/-- The frame in front of `rest` runs what `f` runs, and stands where `f` stands. -/
def Fore (f : Frame) (rest : FrameStack) (m : Machine) : Prop :=
  ∃ g, m.active = g :: rest ∧ g.method = f.method ∧ g.code = f.code ∧ g.pc = f.pc

theorem Fore.keeps (h : Fore f rest m) (hk : m.Keeps m') : Fore f rest m' := by
  obtain ⟨g, ha, hg⟩ := h
  exact ⟨g, hk.active.trans ha, hg⟩

theorem Fore.quiet {x : MachineM α} {a : α} (h : Fore f rest m) (hm : Going t m) (hx : Quiet t x)
    (hr : x m = .ok a m') : Fore f rest m' := by
  obtain ⟨u, hu, -⟩ := hm.awake
  exact h.keeps ((hx m (hm.rostered.numbered t u hu)).of_ok hr)

theorem Fore.popN {n : Nat} {args : List Value} (h : Fore f rest m) (hr : onTop (Frame.popN n) m = .ok args m') :
    Fore f rest m' := by
  obtain ⟨g, ha, hmethod, hcode, hpc⟩ := h
  unfold onTop at hr
  rw [ha] at hr
  unfold Frame.popN at hr
  by_cases hlen : g.stack.length < n
  · simp only [hlen, if_true] at hr
    cases hr
  · simp only [hlen, if_false] at hr
    cases hr
    exact ⟨_, rfl, hmethod, hcode, hpc⟩

/-- A native method answers the frame that called it, if there is one. -/
theorem callNative_answers {method : Method} (hl : l.Quiet) (ht : t < m.scheduler.nextId)
    (hr : callNative l t method args m = .ok flow m') : ∃ result, m'.active = returned result m.active := by
  unfold Machine.callNative at hr
  rw [bind_get] at hr
  obtain ⟨binding, m₁, hbind, hr⟩ := bind_ok.1 hr
  obtain ⟨result, m₂, hrun, hr⟩ := bind_ok.1 hr
  obtain ⟨paused, m₃, hpause, hr⟩ := bind_ok.1 hr
  have hbound := (Quiet.onLinker (t := t) _ m ht).of_ok hbind
  have hanswered := (runNative_quiet (t := t) hl method args (binding.getD .unbound) m₁
    (UInt32.lt_of_lt_of_le ht hbound.threads.nextId)).of_ok hrun
  cases hpause
  obtain ⟨flow', hdeliver, -⟩ := deliver_eq result { m₂ with yieldRequested := false }
  rw [bind_of_ok hdeliver] at hr
  have hdone : m' = { m₂ with active := returned result m₂.active, yieldRequested := false } := by
    cases flow' <;> cases hr <;> rfl
  refine ⟨result, ?_⟩
  rw [hdone]
  show returned result m₂.active = _
  rw [hanswered.active, hbound.active]

theorem Fore.answered {result : Option Value} (h : Fore f rest m) (ha : m'.active = returned result m.active) :
    Fore f rest m' := by
  obtain ⟨g, hg, hsame⟩ := h
  refine ⟨g.receive result, ?_, ?_⟩
  · rw [ha, hg]
    rfl
  · cases result <;> exact hsame

theorem Tracks.ok {x y : MachineM α} {a : α} (h : Tracks x y) (hr : x m = .ok a m') : y m = .ok a m' := by
  rcases h m with heq | ⟨e, n, hx, -⟩
  · exact heq ▸ hr
  · cases hr.symm.trans hx

/-- Who calls a method is not parked, or has called a native method. -/
theorem invokeMethod_answers (hkl : Nested.Tracks k l) (hl : l.Quiet) (hm : Going t m)
    (hr : invokeMethod k t method args m = .ok flow m') :
    (∃ result, m'.active = returned result m.active) ∨ Stalls t m m' := by
  obtain ⟨u, hu, -⟩ := hm.awake
  have hr := (invokeMethod_tracks hkl method args).ok hr
  unfold Machine.invokeMethod at hr
  rw [bind_get] at hr
  cases hfound : m.classes.method? method with
  | none =>
    rw [hfound] at hr
    cases hr
  | some found =>
    rw [hfound] at hr
    dsimp only at hr
    cases hbody : found.body with
    | abstract =>
      rw [hbody] at hr
      exact absurd hr (raise_ne_ok _ _)
    | native b =>
      rw [hbody] at hr
      exact .inl (callNative_answers hl (hm.rostered.numbered t u hu) hr)
    | bytecode raw linked =>
      rw [hbody] at hr
      exact .inr ((callBytecode_unparked found args m hm).of_ok hr)

theorem Fore.invokeMethod (h : Fore f rest m) (hkl : Nested.Tracks k l) (hl : l.Quiet) (hm : Going t m)
    (hr : Machine.invokeMethod k t method args m = .ok flow m') : Fore f rest m' ∨ Stalls t m m' :=
  (invokeMethod_answers hkl hl hm hr).imp_left fun ⟨_, ha⟩ => h.answered ha

/-- Most instructions never stop their thread. -/
def Pauseless (x : MachineM Flow) : Prop := ∀ m flow m', x m = .ok flow m' → flow = .next

theorem Pauseless.after {x : MachineM α} {f : α → MachineM Flow} (hf : ∀ a, Pauseless (f a)) : Pauseless (x >>= f) := by
  intro m flow m' hr
  obtain ⟨a, m₁, -, hr⟩ := bind_ok.1 hr
  exact hf a m₁ flow m' hr

theorem Fore.invokeVirtual (h : Fore f rest m) (hkl : Nested.Tracks k l) (hl : l.Quiet) (hm : Going t m)
    {signature : SignatureId} {params : Nat} (hr : invokeVirtual k t signature params m = .ok flow m') :
    Fore f rest m' ∨ Stalls t m m' := by
  have hc : Course t (Telling t) (Natively t) (Onward t) := course_telling
  obtain ⟨args, m₁, hargs, hr⟩ := bind_ok.1 hr
  obtain ⟨method, m₂, hselect, hr⟩ := bind_ok.1 hr
  have hgoes₁ := hc.popN (params + 1) m hm
  rw [hargs] at hgoes₁
  have hm₁ : Going t m₁ := hgoes₁.going
  have hgoes₂ := hc.selectVirtual ((args.head?.map Value.refOrNull).getD .null) signature m₁ hm₁
  rw [hselect] at hgoes₂
  have hfore := (h.popN hargs).quiet hm₁ (selectVirtual_quiet _ signature) hselect
  exact (hfore.invokeMethod hkl hl hgoes₂.going hr).imp_right fun hs => hgoes₁.thenStalls (hgoes₂.thenStalls hs)

end Parking

end ClassMachine.Machine
