import ClassMachine.Proofs.Machine.Nesting

/-!
Soundness of verification. An instruction of a frame in step never fails on its frame, and whenever
control is in the frame again, be it at once, after calls have returned or at a handler, the frame is
in step.
-/
namespace ClassMachine.Machine
open Stateful

/-- A thread runs one instruction. An exception of the instruction, or one that met the thread while
it was parked by the instruction, has been caught. -/
inductive Runs (fuel : Nat) (t : ThreadId) (m : Machine) : Machine → Prop
  | on {m' : Machine} {flow : Flow} (hx : executeOne (nested fuel) t m = .ok flow m') :
    Runs fuel t m m'
  | caught {m₁ m' : Machine} {exception : Ref}
      (hx : executeOne (nested fuel) t m = .error (.exception exception) m₁)
      (hu : unwind t exception m₁ = .ok true m') : Runs fuel t m m'
  | interrupted {m₁ m₂ m' : Machine} {exception : Ref}
      (hx : executeOne (nested fuel) t m = .ok .pause m₁) (ha : m₂.active = m₁.active)
      (ht : t < m₂.scheduler.nextId) (hu : unwind t exception m₂ = .ok true m') : Runs fuel t m m'

/-- A thread goes on from `m`, with nothing but the frames of calls in front of `rest` and one more
frame in between. Whatever other threads and the host do between its instructions, they do not
touch its frames. -/
inductive Leads (fuel : Nat) (t : ThreadId) (rest : FrameStack) (m : Machine) : Machine → Prop
  | first {m' : Machine} (hr : Runs fuel t m m') : Leads fuel t rest m m'
  | others {m' m'' : Machine} (h : Leads fuel t rest m m') (ha : m''.active = m'.active)
      (ht : t < m''.scheduler.nextId) : Leads fuel t rest m m''
  | next {m' m'' : Machine} (h : Leads fuel t rest m m')
      (hd : rest.length + 1 < m'.active.length) (hr : Runs fuel t m' m'') : Leads fuel t rest m m''

/-- The frame has got a value of another category than its instruction, which ran in `m`, declares: one that the
instruction read outside the operand stack, or the result of the call it made. -/
inductive Strays (fuel : Nat) (t : ThreadId) (m : Machine) (f : Frame) (i : Instruction) : Frame → Prop
  | reads {flow : Flow} {m' : Machine} {v : Value} (hx : executeOne (nested fuel) t m = .ok flow m')
      (hr : Reads f m' i v) (hc : some v.category ≠ i.result?) : Strays fuel t m f i ((f.passed i).receive (some v))
  | answered {result : Option Value} (hi : i.isCall = true) (hc : result.map Value.category ≠ i.result?) :
    Strays fuel t m f i ((f.passed i).receive result)

/-- After an instruction that neither reads outside the operand stack nor calls, no frame has. -/
theorem not_strays {fuel : Nat} {t : ThreadId} {m : Machine} {f g : Frame} {i : Instruction}
    (hr : ∀ m' v, ¬Reads f m' i v) (hi : i.isCall = false) : ¬Strays fuel t m f i g := by
  intro h
  cases h with
  | reads hx h _ => exact hr _ _ h
  | answered h _ => exact Bool.noConfusion (hi.symm.trans h)

/-- The frame `g` is in step at an instruction of its body; or it has got a value of another category than was
declared, and then it would be in step with one of that category. -/
def Resumes (fuel : Nat) (t : ThreadId) (m : Machine) (f : Frame) (i : Instruction) (g : Frame) : Prop :=
  (g.pc < g.code.length ∧ g.InStep) ∨ Strays fuel t m f i g ∧ (f.passed i).Awaits i.result?

/-- Where the frame `f` in front of `rest` is after the instruction that it ran in `m`. -/
inductive Holds (fuel : Nat) (t : ThreadId) (m : Machine) (f : Frame) (i : Instruction) (rest : FrameStack) :
    FrameStack → Prop
  | away (callee : Frame) (above : FrameStack) (hi : i.isCall = true) (hw : (f.passed i).Awaits i.result?)
      (hy : (f.passed i).Yields i) : Holds fuel t m f i rest (callee :: above ++ f.passed i :: rest)
  | back (g : Frame) (hc : g.code = f.code) (hr : Resumes fuel t m f i g) : Holds fuel t m f i rest (g :: rest)
  | left {frames : FrameStack} (hl : frames.length ≤ rest.length) : Holds fuel t m f i rest frames

section Frames

variable {fuel : Nat} {t : ThreadId} {m : Machine} {f g callee : Frame} {i : Instruction}
  {rest frames : FrameStack}

theorem resumes_of_inStep (hg : g.InStep) : Resumes fuel t m f i g := .inl ⟨hg.pc_lt, hg⟩

theorem resumes_of_reads {flow : Flow} {m' : Machine} {v : Value} (hx : executeOne (nested fuel) t m = .ok flow m')
    (hr : Reads f m' i v) (hw : (f.passed i).Awaits i.result?) :
    Resumes fuel t m f i ((f.passed i).receive (some v)) := by
  by_cases h : some v.category = i.result?
  · exact resumes_of_inStep (hw.received (some v) h)
  · exact .inr ⟨.reads hx hr h, hw⟩

theorem resumes_of_answer (hi : i.isCall = true) (hw : (f.passed i).Awaits i.result?) (result : Option Value) :
    Resumes fuel t m f i ((f.passed i).receive result) := by
  by_cases h : result.map Value.category = i.result?
  · exact resumes_of_inStep (hw.received result h)
  · exact .inr ⟨.answered hi h, hw⟩

/-- A handler of the frame, or none of it. -/
theorem holds_of_caught {exception : Ref} (hc : g.code = f.code) (hg : g.Guarded)
    (h : Caught exception (g :: rest) frames) : Holds fuel t m f i rest frames := by
  obtain ⟨g', tail, index, handler, hsuffix, hpc, hmem, hcov, rfl⟩ := h
  rcases List.suffix_cons_iff.1 hsuffix with heq | hrest
  · injection heq with hg' htail
    subst hg' htail
    exact .back _ hc (resumes_of_inStep (hg index hpc handler hmem hcov exception))
  · exact .left hrest.length_le

theorem holds_of_caught_behind {exception : Ref} (above : FrameStack) (hi : i.isCall = true)
    (hw : (f.passed i).Awaits i.result?) (hy : (f.passed i).Yields i)
    (h : Caught exception (above ++ f.passed i :: rest) frames) : Holds fuel t m f i rest frames := by
  induction above with
  | nil => exact holds_of_caught (g := f.passed i) rfl hw.guarded h
  | cons callee above ih =>
    obtain ⟨g, tail, index, handler, hsuffix, hg⟩ := h
    rcases List.suffix_cons_iff.1 hsuffix with heq | hbelow
    · injection heq with hcallee htail
      subst htail
      rw [hg.2.2.2]
      exact .away _ above hi hw hy
    · exact ih ⟨g, tail, index, handler, hbelow, hg⟩

theorem holds_of_caught_left {exception : Ref} {frames' : FrameStack}
    (hl : frames.length ≤ rest.length) (h : Caught exception frames frames') :
    Holds fuel t m f i rest frames' := by
  obtain ⟨g, tail, index, handler, hsuffix, _, _, _, rfl⟩ := h
  exact .left (Nat.le_trans hsuffix.length_le hl)

/-- Instructions of the frames of calls leave the frame behind them alone until they hand it their
result. -/
theorem shift_away {above : FrameStack} (h : Shift (callee :: above ++ f :: rest) frames) :
    (∃ callee' above', frames = callee' :: above' ++ f :: rest) ∨
      ∃ result, frames = f.receive result :: rest := by
  cases h with
  | front _ g _ => exact .inl ⟨g, above, rfl⟩
  | call _ g callee' _ => exact .inl ⟨callee', g :: above, rfl⟩
  | back _ result _ =>
    cases above with
    | nil => exact .inr ⟨result, rfl⟩
    | cons g above => exact .inl ⟨g.receive result, above, rfl⟩

end Frames

section Steps

variable {fuel : Nat} {t : ThreadId} {i : Instruction} {rest : FrameStack} {f : Frame} {m m' m'' : Machine}

theorem Runs.known (h : Runs fuel t m m') (ht : t < m.scheduler.nextId) :
    t < m'.scheduler.nextId := by
  have hend := executeOne_nested_touches fuel m ht
  cases h with
  | on hx => exact UInt32.lt_of_lt_of_le ht (hend.of_ok hx).others.nextId
  | caught hx hu =>
    have h₁ := UInt32.lt_of_lt_of_le ht (hend.of_error hx).others.nextId
    exact UInt32.lt_of_lt_of_le h₁ ((unwind_ends _ _).of_ok hu).2.nextId
  | interrupted hx ha ht₂ hu => exact UInt32.lt_of_lt_of_le ht₂ ((unwind_ends _ _).of_ok hu).2.nextId

theorem Leads.known (h : Leads fuel t rest m m') (ht : t < m.scheduler.nextId) :
    t < m'.scheduler.nextId := by
  induction h with
  | first hr => exact hr.known ht
  | others _ _ ht' => exact ht'
  | next _ _ hr ih => exact hr.known ih

/-- The instruction itself. -/
theorem Runs.holds (hx : Ends (executeOne (nested fuel) t m) (Continues f i rest) fun e m' =>
      InitializerFails e ∨ Fails f.code i rest e m') (h : Runs fuel t m m') :
    Holds fuel t m f i rest m'.active := by
  cases h with
  | on h =>
    cases hx.of_ok h with
    | stays g ha hc hs _ => rw [ha]; exact .back g hc (resumes_of_inStep hs)
    | obtains v hr ha hw => rw [ha]; exact .back _ rfl (resumes_of_reads h hr hw)
    | answers result hi ha hw => rw [ha]; exact .back _ rfl (resumes_of_answer hi hw result)
    | calls callee hi ha hw hy => rw [ha]; exact .away callee [] hi hw hy
    | returns result _ ha => rw [ha]; exact .left (by cases rest <;> simp [returned])
  | caught h hu =>
    have hcaught := ((unwind_ends _ _).of_ok hu).1 rfl
    rcases hx.of_error h with hinit | ⟨g, ha, hc, hg⟩ | ⟨_, ha⟩
    · cases hinit.1
    · rw [ha] at hcaught
      exact holds_of_caught hc hg hcaught
    · rw [ha] at hcaught
      exact holds_of_caught_left (Nat.le_refl _) hcaught
  | interrupted h ha₂ _ hu =>
    have hcaught := ((unwind_ends _ _).of_ok hu).1 rfl
    rw [ha₂] at hcaught
    cases hx.of_ok h with
    | stays g ha hc _ hg =>
      rw [ha] at hcaught
      exact holds_of_caught hc (hg rfl) hcaught
    | obtains v hr ha hw =>
      rw [ha] at hcaught
      exact holds_of_caught (g := (f.passed i).receive (some v)) rfl hw.guarded hcaught
    | answers result hi ha hw =>
      rw [ha] at hcaught
      exact holds_of_caught (g := (f.passed i).receive result) rfl hw.guarded hcaught
    | calls callee hi ha hw hy =>
      rw [ha] at hcaught
      exact holds_of_caught_behind [callee] hi hw hy hcaught
    | returns result _ ha =>
      rw [ha] at hcaught
      exact holds_of_caught_left (by cases rest <;> simp [returned]) hcaught

/-- An instruction of a frame in front of it. -/
theorem Runs.holds_away {callee : Frame} {above : FrameStack} (ht : t < m'.scheduler.nextId)
    (ha : m'.active = callee :: above ++ f.passed i :: rest) (hi : i.isCall = true)
    (hw : (f.passed i).Awaits i.result?) (hy : (f.passed i).Yields i) (h : Runs fuel t m' m'') :
    Holds fuel t m f i rest m''.active := by
  have hend := executeOne_nested_touches fuel m' ht
  have hframes : ∀ m₁ : Machine, Shift m'.active m₁.active → Holds fuel t m f i rest m₁.active ∧
      ∀ exception frames, Caught exception m₁.active frames → Holds fuel t m f i rest frames := by
    intro m₁ hshift
    rw [ha] at hshift
    rcases shift_away hshift with ⟨callee', above', h₁⟩ | ⟨result, h₁⟩
    · rw [h₁]
      exact ⟨.away callee' above' hi hw hy, fun _ _ hcaught =>
        holds_of_caught_behind (callee' :: above') hi hw hy hcaught⟩
    · rw [h₁]
      exact ⟨.back _ rfl (resumes_of_answer hi hw result), fun _ _ hcaught =>
        holds_of_caught (g := (f.passed i).receive result) rfl hw.guarded hcaught⟩
  cases h with
  | on hx => exact (hframes _ (hend.of_ok hx).frames).1
  | caught hx hu =>
    exact (hframes _ (hend.of_error hx).frames).2 _ _ (((unwind_ends _ _).of_ok hu).1 rfl)
  | interrupted hx ha₂ _ hu =>
    have hcaught := ((unwind_ends _ _).of_ok hu).1 rfl
    rw [ha₂] at hcaught
    exact (hframes _ (hend.of_ok hx).frames).2 _ _ hcaught

theorem Leads.holds (hx : Ends (executeOne (nested fuel) t m) (Continues f i rest) fun e m' =>
      InitializerFails e ∨ Fails f.code i rest e m') (ht : t < m.scheduler.nextId)
    (h : Leads fuel t rest m m') : Holds fuel t m f i rest m'.active := by
  induction h with
  | first hr => exact hr.holds hx
  | others _ ha _ ih => rw [ha]; exact ih
  | @next m₁ m₂ h hd hr ih =>
    have hknown := h.known ht
    generalize hframes : m₁.active = frames at ih hd
    cases ih with
    | away callee above hi hw hy => exact hr.holds_away hknown hframes hi hw hy
    | back g _ _ => simp at hd
    | left hl => omega

end Steps

/-- A division whose failure is caught by a handler that takes another result. -/
def guardedDivision : LinkedCode where
  instructions := #[.pushInt 6, .pushInt 0, .arith .div .int, .returnValue .one, .stack .pop,
    .pushInt 1, .goto 3]
  handlers := [⟨2, 3, 4, .any⟩]
  maxStack := 2

/-- A frame that is about to divide. -/
def dividing : Frame where
  method := default
  code := guardedDivision
  pc := 2
  stack := [.int 0, .int 6]

/-- A machine whose thread is about to divide. -/
def divider : Machine where
  config := default
  linker := default
  heap := default
  core := default
  outOfMemory := .null
  scheduler := (Scheduler.spawn {} .null []).2
  active := [dividing]

end ClassMachine.Machine
