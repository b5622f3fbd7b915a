import ClassMachine.Machine.Host
import ClassMachine.Proofs.Bytecode.Verification
import ClassMachine.Proofs.Machine.Soundness

/-!
How deep operand stacks become. Verification answers the depth of the deepest stack an instruction
leaves, so a frame of the body never holds more, be it between two of its instructions or while it
waits for a call. One stack is not left by an instruction: the exception alone, where a handler
begins. It counts only if some instruction leaves as much, so the answer is too small by one slot for
a body none of whose instructions leaves anything.
-/
namespace ClassMachine

namespace LinkedCode

/-- What was recorded for a body that was accepted is the smallest assignment. -/
theorem smallest_recordedAt {c : LinkedCode} {depth : Nat} (h : c.verify = .ok depth) :
    c.Smallest c.recordedAt ∧ c.Deepest c.recordedAt depth := by
  unfold verify at h
  cases hm : c.stackMap with
  | error e => rw [hm] at h; cases h
  | ok m =>
    rw [hm] at h
    cases h
    obtain ⟨hlength, hinside⟩ := inside_of_stackMap hm
    have hsearch := search_stackMap hlength hinside
    rw [hm] at hsearch
    have hrecorded : c.recordedAt = m.stackAt := by
      funext index
      rw [recordedAt, hm]
    rw [hrecorded]
    exact hsearch.smallest hlength hinside

theorem depth_le_maxStack {c : LinkedCode} {depth : Nat} (h : c.verify = .ok depth) :
    depth ≤ c.maxStack := by
  obtain ⟨hsmallest, ⟨index, after, ⟨i, before, hi, hb, hsim⟩, hdepth⟩, -⟩ := smallest_recordedAt h
  obtain ⟨i', after', hi', hsim', hfit, -⟩ := hsmallest.consistent.leads index before hb
  obtain rfl := Option.some.inj (hi.symm.trans hi')
  obtain rfl : after = after' := Except.ok.inj (hsim.symm.trans hsim')
  exact hdepth ▸ hfit

/-- An instruction that verification reached leaves no more than the depth answered. -/
theorem depth_edges_le {c : LinkedCode} {depth : Nat} (h : c.verify = .ok depth) {index : Nat}
    {i : Instruction} {before after : CategoryStack} (hi : c.get? index = some i)
    (hb : c.recordedAt index = some before) (hsim : i.simulate c.maxLocals index before = .ok after) :
    after.depth ≤ depth :=
  (smallest_recordedAt h).2.2 ⟨index, after, ⟨i, before, hi, hb, hsim⟩, rfl⟩

/-- A stack that verification recorded is no deeper than the depth answered, or is that of a handler.
Leaving out all others keeps the assignment consistent, and the smallest has none to leave out. -/
theorem depth_recordedAt {c : LinkedCode} {depth : Nat} (h : c.verify = .ok depth) {index : Nat}
    {stack : CategoryStack} (hs : c.recordedAt index = some stack) :
    stack.depth ≤ depth ∨ ∃ g ∈ c.handlers, g.target = index ∧ stack = [.one] := by
  classical
  let Sourced (index : Nat) (stack : CategoryStack) : Prop :=
    stack.depth ≤ depth ∨ ∃ g ∈ c.handlers, g.target = index ∧ stack = [.one]
  let kept : Nat → Option CategoryStack := fun index =>
    (c.recordedAt index).filter fun stack => decide (Sourced index stack)
  have hkept : ∀ {index stack}, kept index = some stack ↔
      c.recordedAt index = some stack ∧ Sourced index stack := by
    intro index stack
    simp only [kept, Option.filter_eq_some_iff, decide_eq_true_eq]
  obtain ⟨hsmallest, hdeepest⟩ := smallest_recordedAt h
  have hconsistent : c.Consistent kept := by
    refine ⟨hkept.2 ⟨hsmallest.consistent.start, .inl (Nat.zero_le _)⟩, fun index before hb => ?_⟩
    have hrecorded := (hkept.1 hb).1
    obtain ⟨i, after, hi, hsim, hfit, hbranches, hfalls, hcovers⟩ :=
      hsmallest.consistent.leads index before hrecorded
    have hafter : after.depth ≤ depth := depth_edges_le h hi hrecorded hsim
    exact ⟨i, after, hi, hsim, hfit,
      fun t ht => ⟨(hbranches t ht).1, hkept.2 ⟨(hbranches t ht).2, .inl hafter⟩⟩,
      fun hterm => ⟨(hfalls hterm).1, hkept.2 ⟨(hfalls hterm).2, .inl hafter⟩⟩,
      fun g hg hcov => hkept.2 ⟨hcovers g hg hcov, .inr ⟨g, hg, rfl, rfl⟩⟩⟩
  exact (hkept.1 (hsmallest.least kept hconsistent index stack hs)).2

end LinkedCode

namespace Frame

/-- Slots the operands take. -/
def depth (f : Frame) : Nat := f.categories.depth

/-- The frame is at the first instruction of a handler, with one operand that takes one slot. -/
def AtHandler (f : Frame) : Prop :=
  (∃ h ∈ f.code.handlers, f.pc = h.target) ∧ f.categories = [.one]

theorem InStep.depth_le {f : Frame} (hf : f.InStep) {depth : Nat} (h : f.code.verify = .ok depth) :
    f.depth ≤ depth ∨ depth = 0 ∧ f.AtHandler := by
  rcases LinkedCode.depth_recordedAt h hf.recorded with hle | ⟨g, hg, htarget, hstack⟩
  · exact .inl hle
  · rcases Nat.eq_zero_or_pos depth with hzero | hpos
    · exact .inr ⟨hzero, ⟨g, hg, htarget.symm⟩, hstack⟩
    · refine .inl ?_
      rw [Frame.depth, hstack]
      exact hpos

theorem Yields.depth_le {f : Frame} {i : Instruction} (hf : f.Yields i) {depth : Nat}
    (h : f.code.verify = .ok depth) : f.depth ≤ depth := by
  obtain ⟨index, before, hi, hb, hsim⟩ := hf
  have hle := LinkedCode.depth_edges_le h hi hb hsim
  rw [CategoryStack.depth, total_append] at hle
  exact (Nat.le_add_left _ _).trans hle

end Frame

namespace Machine

/-- An execution of the frame `start` in front of `rest` by a thread has come to another machine, where
control is in the frame and it is as given. What its instructions read outside the operand stack, and what
its calls answered, had the categories declared. -/
inductive Executes (t : ThreadId) (rest : FrameStack) (start : Frame) : Machine → Frame → Prop where
  | starts {m : Machine} (ha : m.active = start :: rest) (ht : t < m.scheduler.nextId) :
    Executes t rest start m start
  | goes {fuel : Nat} {m m' : Machine} {f g : Frame} {i : Instruction}
      (h : Executes t rest start m f) (hi : f.code.get? f.pc = some i) (hl : Leads fuel t rest m m')
      (ha : m'.active = g :: rest) (hd : ¬Strays fuel t m f i g) : Executes t rest start m' g

section Executes

variable {fuel : Nat} {t : ThreadId} {rest : FrameStack} {start f : Frame} {m m' : Machine}

/-- Where the frame is while an instruction of it is under way and when it is over. -/
theorem Leads.holds_inStep (hf : f.InStep) (ha : m.active = f :: rest) (ht : t < m.scheduler.nextId)
    (h : Leads fuel t rest m m') :
    ∃ i, f.code.get? f.pc = some i ∧ Holds fuel t m f i rest m'.active := by
  obtain ⟨hquiet, htracks⟩ := sheltered_spec fuel
  obtain ⟨i, hi, hsheltered⟩ := executeOne_continues hquiet hf ⟨ha, ht⟩
  refine ⟨i, hi, h.holds ?_ ht⟩
  rcases executeOne_tracks (t := t) htracks m with heq | ⟨e, m₁, hn, -, he⟩
  · rw [heq]
    exact hsheltered.mono (fun _ _ h => h) fun _ _ h => .inr h
  · rw [hn]
    exact .inl he

/-- What an execution keeps: the frame in front is in step. -/
theorem Executes.inStep (hstart : start.InStep) (h : Executes t rest start m f) :
    f.InStep ∧ f.code = start.code ∧ m.active = f :: rest ∧ t < m.scheduler.nextId := by
  induction h with
  | starts ha ht => exact ⟨hstart, rfl, ha, ht⟩
  | @goes fuel m m' f g i _ hi hl ha' hd ih =>
    obtain ⟨hf, hcode, ha, ht⟩ := ih
    obtain ⟨j, hj, hholds⟩ := hl.holds_inStep hf ha ht
    obtain rfl := Option.some.inj (hi.symm.trans hj)
    rw [ha'] at hholds
    generalize hframes : g :: rest = frames at hholds
    cases hholds with
    | away callee above _ _ _ =>
      have hlength := congrArg List.length hframes
      simp only [List.cons_append, List.length_cons, List.length_append] at hlength
      omega
    | back g' hc hr =>
      injection hframes with hg
      subst hg
      refine ⟨?_, hc.trans hcode, ha', hl.known ht⟩
      rcases hr with ⟨-, hstep⟩ | ⟨hstrays, -⟩
      · exact hstep
      · exact absurd hstrays hd
    | left hl =>
      rw [← hframes, List.length_cons] at hl
      omega

/-- While a call is under way, the frame that waits for it has yielded its operands. -/
theorem Executes.yields (hstart : start.InStep) (h : Executes t rest start m f)
    (hl : Leads fuel t rest m m') {callee g : Frame} {above : FrameStack}
    (ha' : m'.active = callee :: above ++ g :: rest) : ∃ i, g.Yields i ∧ g.code = start.code := by
  obtain ⟨hf, hcode, ha, ht⟩ := h.inStep hstart
  obtain ⟨i, -, hholds⟩ := hl.holds_inStep hf ha ht
  rw [ha'] at hholds
  generalize hframes : callee :: above ++ g :: rest = frames at hholds
  cases hholds with
  | away callee' above' _ _ hy =>
    have hg : g :: rest = f.passed i :: rest := by
      have hlengths : (callee :: above).length = (callee' :: above').length := by
        have hlength := congrArg List.length hframes
        simp only [List.cons_append, List.length_cons, List.length_append] at hlength ⊢
        omega
      exact (List.append_inj hframes hlengths).2
    injection hg with hg
    subst hg
    exact ⟨i, hy, hcode⟩
  | back g' _ _ =>
    have hlength := congrArg List.length hframes
    simp only [List.cons_append, List.length_cons, List.length_append] at hlength
    omega
  | left hl =>
    rw [← hframes] at hl
    simp only [List.cons_append, List.length_cons, List.length_append] at hl
    omega

end Executes

/-- The depth answered for a body is within its declared stack, and no frame of the body becomes
deeper, neither between two instructions of it nor while it waits for a call, with one exception: if
the depth answered is nothing, a frame at a handler still has the exception on its stack. -/
theorem executes_depth_le {code : LinkedCode} {depth : Nat} (h : code.verify = .ok depth) :
    depth ≤ code.maxStack ∧
    ∀ {t : ThreadId} {rest : FrameStack} {m : Machine} {f : Frame} (method : MethodId)
      (args : List Value), Executes t rest (Frame.ofCall method code args) m f →
      (f.depth ≤ depth ∨ depth = 0 ∧ f.AtHandler) ∧
      ∀ {fuel : Nat} {m' : Machine} {callee g : Frame} {above : FrameStack}, Leads fuel t rest m m' →
        m'.active = callee :: above ++ g :: rest → g.depth ≤ depth := by
  refine ⟨LinkedCode.depth_le_maxStack h, fun method args hexec => ?_⟩
  have hstart := Frame.inStep_ofCall h method args
  obtain ⟨hf, hcode, -, -⟩ := hexec.inStep hstart
  refine ⟨hf.depth_le (hcode ▸ h), fun hl ha => ?_⟩
  obtain ⟨i, hy, hg⟩ := hexec.yields hstart hl ha
  exact hy.depth_le (hg ▸ h)

/-- A machine whose thread is about to run the first instruction of the guarded division. -/
def beginner : Machine := { divider with active := [Frame.ofCall default guardedDivision []] }

theorem executes_depth_le_dividing : guardedDivision.verify = .ok 2 ∧ 2 ≤ guardedDivision.maxStack ∧
    ∃ m, Executes 1 [] (Frame.ofCall default guardedDivision []) m dividing ∧ dividing.depth = 2 ∧
      (dividing.depth ≤ 2 ∨ 2 = 0 ∧ dividing.AtHandler) := by
  have hv : guardedDivision.verify = .ok 2 := by decide
  have hfirst : Executes 1 [] (Frame.ofCall default guardedDivision [])
      { beginner with active := [{ dividing with pc := 1, stack := [.int 6] }] }
      { dividing with pc := 1, stack := [.int 6] } :=
    .goes (m := beginner) (.starts rfl (by decide)) rfl
      (show Leads 1 1 [] beginner _ from .first (.on rfl)) rfl
      (not_strays (fun _ _ hr => by cases hr) rfl)
  have hsecond : Executes 1 [] (Frame.ofCall default guardedDivision [])
      { beginner with active := [dividing] } dividing :=
    hfirst.goes rfl (show Leads 1 1 [] _ _ from .first (.on rfl)) rfl
      (not_strays (fun _ _ hr => by cases hr) rfl)
  obtain ⟨hmax, hdepth⟩ := executes_depth_le hv
  exact ⟨hv, hmax, _, hsecond, by decide, (hdepth _ _ hsecond).1⟩

/-- A call of a method that is missing, guarded by a handler that drops the exception. -/
def hollow : LinkedCode where
  instructions :=
    #[.unresolved ⟨.method, "P.gone()V", [], none⟩, .returnVoid, .stack .pop, .returnVoid]
  handlers := [⟨0, 1, 2, .any⟩]

/-- A new machine with a thread that is about to run this body. -/
def hollowed : Option Machine :=
  (create {} {} 0).toOption.map fun m =>
    { m with
      scheduler := (m.scheduler.spawn .null []).2
      active := [Frame.ofCall default hollow []] }

/-- The frame at the handler. -/
def dropping (exception : Ref) : Frame :=
  { Frame.ofCall default hollow [] with pc := 2, stack := [.ref exception] }

/-- Whether the exception of the next instruction is caught in this frame. -/
def drops (m : Machine) : Bool :=
  match executeOne (nested 1) 1 m with
  | .error (.exception r) m₁ =>
    match unwind 1 r m₁ with
    | .ok true m' => m'.active = [dropping r]
    | _ => false
  | _ => false

theorem exists_hollowed : ∃ m, m.active = [Frame.ofCall default hollow []] ∧ 1 < m.scheduler.nextId ∧
    drops m = true := by
  have hrun : (hollowed.any fun m => m.active = [Frame.ofCall default hollow []] ∧
      1 < m.scheduler.nextId ∧ drops m = true) = true := by decide +kernel
  obtain ⟨m, -, hm⟩ := (Option.any_eq_true ..).1 hrun
  exact ⟨m, of_decide_eq_true hm⟩

/-- Nothing is the depth answered, nothing is the declared stack, and the handler is entered with the
exception. -/
theorem executes_hollow : hollow.verify = .ok 0 ∧ hollow.maxStack = 0 ∧
    ∃ m r, Executes 1 [] (Frame.ofCall default hollow []) m (dropping r) ∧ (dropping r).depth = 1 := by
  have hv : hollow.verify = .ok 0 := by decide
  obtain ⟨m, ha, ht, hdrops⟩ := exists_hollowed
  unfold drops at hdrops
  split at hdrops
  · next r m₁ hx =>
    split at hdrops
    · next m' hu =>
      exact ⟨hv, rfl, m', r, .goes (.starts ha ht) rfl (.first (.caught hx hu))
        (of_decide_eq_true hdrops) (not_strays (fun _ _ hr => by cases hr) rfl), rfl⟩
    · cases hdrops
  · cases hdrops

end Machine

end ClassMachine
