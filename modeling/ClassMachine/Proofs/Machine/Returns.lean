import ClassMachine.Proofs.Link.Forms
import ClassMachine.Proofs.Link.Requests
import ClassMachine.Proofs.Machine.Soundness

/-!
Returning. A body is verified without its descriptor, and a call from the descriptor alone. So a return
hands over what it names, which verification has seen on the stack, and the caller goes on in step where
that is what the descriptor says.
-/
namespace ClassMachine

/-- Category of what a return hands to the caller. -/
def Instruction.handed? : Instruction → Option Category
  | .returnValue c => some c
  | _ => none

theorem Instruction.operands_of_isReturn {i : Instruction} (hi : i.isReturn = true) :
    i.operands = i.handed?.toList := by
  cases i with
  | returnVoid => rfl
  | returnValue c => rfl
  | _ => cases hi

section Calls

variable {kind : InvokeKind} {d : MethodDescriptor} {i : Instruction}

/-- A call that found its method pushes what the descriptor says. -/
theorem InvokeKind.Calls.result (h : kind.Calls d i) : i.result? = d.returnCategory := by
  cases kind with
  | static => obtain ⟨method, rfl⟩ := h; rfl
  | special => obtain ⟨method, rfl⟩ := h; rfl
  | interface => obtain ⟨signature, rfl⟩ := h; rfl
  | virtual =>
    obtain ⟨signature, rfl⟩ := h
    split
    · next hvoid =>
      have hnone : d.returns = none := by simpa using (Bool.and_eq_true_iff.1 hvoid).2
      rw [MethodDescriptor.returnCategory, hnone]
      rfl
    · rfl

theorem InvokeKind.Calls.falls (h : kind.Calls d i) :
    i.isTerminator = false ∧ ∀ op, i ≠ .stack op := by
  cases kind with
  | static => obtain ⟨method, rfl⟩ := h; exact ⟨rfl, nofun⟩
  | special => obtain ⟨method, rfl⟩ := h; exact ⟨rfl, nofun⟩
  | interface => obtain ⟨signature, rfl⟩ := h; exact ⟨rfl, nofun⟩
  | virtual =>
    obtain ⟨signature, rfl⟩ := h
    split <;> exact ⟨rfl, nofun⟩

end Calls

/-- Only rearranging the stack does more than to give way operands for a result. -/
theorem Instruction.simulate_operands {maxLocals index : Nat} {i : Instruction}
    (hi : ∀ op, i ≠ .stack op) {before after : CategoryStack}
    (h : i.simulate maxLocals index before = .ok after) :
    ∃ below, before = i.operands ++ below ∧ after = i.result?.toList ++ below := by
  unfold simulate at h
  split at h
  · next op => exact absurd rfl (hi op)
  · obtain ⟨_, _, hpop⟩ := Stateful.except_bind_ok.1 h
    obtain ⟨below, hbelow, hafter⟩ := Stateful.except_bind_ok.1 hpop
    cases hafter
    exact ⟨below, CategoryStack.eq_append_of_popAll hbelow, rfl⟩

namespace LinkedCode

/-- Verification has seen on the stack what a return that it reached hands over. -/
theorem recordedAt_return {c : LinkedCode} {index : Nat} {before : CategoryStack} {i : Instruction}
    (h : c.recordedAt index = some before) (hi : c.get? index = some i) (hreturn : i.isReturn = true) :
    ∃ below, before = i.handed?.toList ++ below := by
  obtain ⟨j, after, hj, hedges⟩ := exists_edges_of_recordedAt h
  cases hi.symm.trans hj
  have hstack : ∀ op, i ≠ .stack op := by
    rintro op rfl
    cases hreturn
  obtain ⟨below, hbefore, _⟩ := Instruction.simulate_operands hstack hedges.simulated
  exact ⟨below, Instruction.operands_of_isReturn hreturn ▸ hbefore⟩

end LinkedCode

namespace Linker

/-- What linking gives has been verified, be it just now or earlier. -/
theorem verify_of_link {l : Linker} (hl : l.Reachable) {id : MethodId} {code : LinkedCode}
    (h : (link id l).1 = .ok code) : ∃ depth, code.verify = .ok depth := by
  have hfound : ∃ c m raw, l.classes.get? id.owner = some c ∧ c.methods[id.index]? = some m ∧
      m.code? = some raw := by
    rw [link, Stateful.state_get] at h
    cases hc : l.classes.get? id.owner with
    | none => rw [hc] at h; cases h
    | some c =>
      rw [hc] at h
      dsimp only at h
      cases hm : c.methods[id.index]? with
      | none => rw [hm] at h; cases h
      | some m =>
        rw [hm] at h
        dsimp only at h
        unfold Method.code?
        cases hbody : m.body with
        | bytecode raw linked => exact ⟨c, m, raw, rfl, hm, by rw [hbody]⟩
        | native binding => rw [hbody] at h; cases h
        | abstract => rw [hbody] at h; cases h
  obtain ⟨c, m, raw, hc, hm, hcode⟩ := hfound
  obtain ⟨subject, l', hends⟩ := link_gives hl.regular hc hm hcode
  rw [h] at hends
  have hbody := linkBody_decoded c.pool subject raw l'
  cases hrun : linkBody c.pool subject raw l' with
  | error e l₁ =>
    rw [hrun] at hends
    cases hends
  | ok linked l₁ =>
    rw [hrun] at hends hbody
    cases hends
    exact hbody.2

end Linker

/-- A verified frame that waits for the call before its counter: its operands are those that were recorded
there, less what the call has taken. -/
structure Frame.Calling (g : Frame) (call : Instruction) : Prop where
  accepted : ∃ depth, g.code.verify = .ok depth
  locals : g.code.maxLocals ≤ g.locals.size
  site : ∃ index, g.pc = index + 1 ∧ g.code.get? index = some call ∧
    g.code.recordedAt index = some (call.operands ++ g.categories)

/-- What was recorded behind a call is met by a result of the category the descriptor names. -/
theorem Frame.Calling.receive {g : Frame} {kind : InvokeKind} {d : MethodDescriptor} {call : Instruction}
    (h : g.Calling call) (hcalls : kind.Calls d call) {result : Option Value}
    (hresult : result.map Value.category = d.returnCategory) : (g.receive result).InStep := by
  rw [← hcalls.result] at hresult
  obtain ⟨hfalls, hop⟩ := hcalls.falls
  obtain ⟨index, hpc, hcall, hrecorded⟩ := h.site
  obtain ⟨i, after, hi, hedges⟩ := LinkedCode.exists_edges_of_recordedAt hrecorded
  cases hcall.symm.trans hi
  obtain ⟨below, hbefore, hafter⟩ := Instruction.simulate_operands hop hedges.simulated
  have hbelow : g.categories = below := List.append_cancel_left hbefore
  refine ⟨h.accepted, h.locals, ?_⟩
  show g.code.recordedAt g.pc = some ((result.toList ++ g.stack).map Value.category)
  rw [hpc, hedges.falls hfalls, hafter, ← hbelow, ← hresult, List.map_append]
  cases result <;> rfl

namespace Machine
open Stateful

section Steps

variable {k : Nested} {t : ThreadId} {f : Frame} {rest : FrameStack} {i : Instruction} {m : Machine}

theorem onTop_front {α : Type} (hm : Front t f rest m) {x : FrameM α} {Q : α → Frame → Prop}
    (hx : Ends (x f) Q Frame.Sane) :
    Ends (onTop x m) (fun a m' => ∃ g, Front t g rest m' ∧ Q a g) fun _ _ => True := by
  have hends : Ends (onTop x m) _ (Fails f.code .nop rest) := hm.onTop hx
  exact hends.mono (fun _ _ h => h) fun _ _ _ => trivial

/-- A return hands a value of the category it names to the frame behind, or none if it names none. -/
theorem executeOne_return (hf : f.InStep) (hm : Front t f rest m) (hi : f.code.get? f.pc = some i)
    (hreturn : i.isReturn = true) :
    Ends (executeOne k t m) (fun _ m' => ∃ result : Option Value, result.map Value.category = i.handed? ∧
      m'.active = returned result rest ∧ t < m'.scheduler.nextId) fun _ _ => True := by
  have hleaves : ∀ (g : Frame) (m₁ : Machine), Front t g rest m₁ → ∀ result : Option Value,
      result.map Value.category = i.handed? → Ends (returnFrom t result m₁)
        (fun _ m' => ∃ result : Option Value, result.map Value.category = i.handed? ∧
          m'.active = returned result rest ∧ t < m'.scheduler.nextId) fun _ _ => True := by
    intro g m₁ h₁ result hresult
    refine (returnFrom_ends h₁ result).mono (fun _ m' h => ?_) fun _ _ _ => trivial
    exact ⟨result, hresult, h.1, UInt32.lt_of_lt_of_le h₁.known h.2.nextId⟩
  have hfetch : Ends (fetch f) (fun j g => j = i ∧ g = advanced f) Frame.Sane := by
    unfold fetch
    rw [hi]
    exact ⟨rfl, rfl⟩
  refine (onTop_front hm hfetch).bind fun j m₁ ⟨g, h₁, hj, hg⟩ => ?_
  subst hj hg
  cases j with
  | returnVoid => exact hleaves _ m₁ h₁ none rfl
  | returnValue c =>
    obtain ⟨below, hbelow⟩ := LinkedCode.recordedAt_return hf.recorded hi rfl
    obtain ⟨v, s, hstack, hv, _⟩ := List.map_eq_cons_iff.1 hbelow
    have hpop : Ends (Frame.pop (advanced f)) (fun v' g => v' = v ∧ g = { advanced f with stack := s })
        Frame.Sane := by
      rw [Frame.pop_eq (f := advanced f) hstack]
      exact ⟨rfl, rfl⟩
    refine (onTop_front h₁ hpop).bind fun x m₂ ⟨g, h₂, hx, _⟩ => ?_
    exact hleaves g m₂ h₂ (some x) (by rw [hx, ← hv]; rfl)
  | _ => cases hreturn

/-- The next instruction of a frame in step does not fail on the frame, an initializer that does so
itself apart. -/
theorem executeOne_sane {fuel : Nat} (hf : f.InStep) (hm : Front t f rest m) {e : Trap} {m' : Machine}
    (he : executeOne (nested fuel) t m = .error e m') (hflow : e.isFlow = true) :
    InitializerFails e ∧ executeOne (sheltered fuel) t m = .error .outOfFuel m' := by
  obtain ⟨hquiet, htracks⟩ := sheltered_spec fuel
  obtain ⟨i, _, hsheltered⟩ := executeOne_continues hquiet hf hm
  rcases executeOne_tracks (t := t) htracks m with heq | ⟨e', m₁, hn, hs, hinit⟩
  · rw [heq] at he
    have hfails := hsheltered.of_error he
    cases e with
    | exception r => cases hflow
    | fatal error => rw [show (Trap.fatal error).isFlow = false from hfails] at hflow; cases hflow
    | outOfFuel => cases hflow
  · cases he.symm.trans hn
    exact ⟨hinit, hs⟩

/-- What linking and running agree on about returns. Every return that verification reached in a linked
body hands over what verification has seen on the stack, and that is what the caller gets. Where it is
what the descriptor of the call names, the caller has the very stack recorded behind the call, and does
not fail on it next. -/
theorem link_returns {l : Linker} (hl : l.Reachable) {id : MethodId} {code : LinkedCode}
    (hlink : (Linker.link id l).1 = .ok code) :
    (∃ depth, code.verify = .ok depth) ∧
    (∀ index before i, code.recordedAt index = some before → code.get? index = some i →
      i.isReturn = true → ∃ below, before = i.handed?.toList ++ below) ∧
    ∀ {k : Nested} {t : ThreadId} {m m' : Machine} {flow : Flow} {callee caller : Frame} {rest : FrameStack}
      {kind : InvokeKind} {d : MethodDescriptor} {call i : Instruction},
      m.active = callee :: caller :: rest → t < m.scheduler.nextId →
      callee.InStep → callee.code = code → code.get? callee.pc = some i → i.isReturn = true →
      caller.Calling call → kind.Calls d call → executeOne k t m = .ok flow m' →
      ∃ result : Option Value, result.map Value.category = i.handed? ∧
        m'.active = caller.receive result :: rest ∧
        (i.handed? = d.returnCategory → (caller.receive result).InStep ∧
          ∀ fuel e m'', executeOne (nested fuel) t m' = .error e m'' → e.isFlow = true →
            InitializerFails e ∧ executeOne (sheltered fuel) t m' = .error .outOfFuel m'') := by
  refine ⟨Linker.verify_of_link hl hlink, fun _ _ _ => LinkedCode.recordedAt_return, ?_⟩
  intro k t m m' flow callee caller rest kind d call i hactive hknown hcallee hcode hi hreturn hcalling
    hcalls hrun
  have hends := executeOne_return (k := k) hcallee ⟨hactive, hknown⟩ (hcode ▸ hi) hreturn
  obtain ⟨result, hresult, hback, hknown'⟩ := hends.of_ok hrun
  refine ⟨result, hresult, hback, fun hdeclared => ?_⟩
  have hstep := hcalling.receive hcalls (hresult.trans hdeclared)
  exact ⟨hstep, fun fuel e m'' he => executeOne_sane hstep ⟨hback, hknown'⟩ he⟩

end Steps

/-- A class with a method that returns the `int` it declares, one that returns nothing in its place, and a
caller of each. -/
def pledge : ClassDefinition where
  name := "Pledge"
  constants := [.methodRef ⟨"Pledge", "kept", "()I"⟩, .methodRef ⟨"Pledge", "broken", "()I"⟩]
  methods :=
    [{ name := "kept", descriptor := "()I", flags := .staticFlag
       code := some { maxStack := 1, code := #[0x04, 0xac] } },
     { name := "broken", descriptor := "()I", flags := .staticFlag
       code := some { code := #[0xb1] } },
     { name := "rely", descriptor := "()I", flags := .staticFlag
       code := some { maxStack := 1, code := #[0xb8, 0, 1, 0xac] } },
     { name := "trust", descriptor := "()I", flags := .staticFlag
       code := some { maxStack := 1, code := #[0xb8, 0, 2, 0xac] } }]

/-- A linker that knows this class. -/
def pledged : Linker := [Linker.Request.register pledge].foldl (fun l r => r.run l) {}

/-- What a method of the class is linked to. -/
def pledgeCode (index : Nat) : LinkedCode :=
  match (Linker.link ⟨0, index⟩ pledged).1 with
  | .ok code => code
  | .error _ => default

theorem link_pledged (index depth : Nat) (h : (pledgeCode index).verify = .ok depth) :
    (Linker.link ⟨0, index⟩ pledged).1 = .ok (pledgeCode index) := by
  unfold pledgeCode at h ⊢
  cases hlink : (Linker.link ⟨0, index⟩ pledged).1 with
  | ok code => rfl
  | error e =>
    rw [hlink] at h
    cases h

/-- A thread with these frames. -/
def pledging (frames : FrameStack) : Machine where
  config := default
  linker := pledged
  heap := default
  core := default
  outOfMemory := .null
  scheduler := (Scheduler.spawn {} .null []).2
  active := frames

/-- The caller of the method that keeps its pledge, with the call under way. -/
def relying : Frame := { Frame.ofCall ⟨0, 2⟩ (pledgeCode 2) [] with pc := 1 }

/-- The method that keeps its pledge is about to return. -/
def keeping : Frame := { Frame.ofCall ⟨0, 0⟩ (pledgeCode 0) [] with pc := 1, stack := [.int 1] }

theorem relying_calling : relying.Calling (.invokeStatic ⟨0, 0⟩ ⟨[], some .one⟩) :=
  ⟨⟨1, by decide +kernel⟩, by decide +kernel, 0, rfl, by decide +kernel, by decide +kernel⟩

theorem keeping_inStep : keeping.InStep :=
  ⟨⟨1, by decide +kernel⟩, by decide +kernel, by decide +kernel⟩

theorem link_returns_kept : ∃ flow m', executeOne (nested 5) 1 (pledging [keeping, relying]) = .ok flow m' ∧
    ∃ result : Option Value, result.map Value.category = some .one ∧
      m'.active = [relying.receive result] ∧ (relying.receive result).InStep := by
  have hlink : (Linker.link ⟨0, 0⟩ pledged).1 = .ok (pledgeCode 0) :=
    link_pledged 0 1 (by decide +kernel)
  have hruns : (ok? (executeOne (nested 5) 1 (pledging [keeping, relying]))).isSome = true := by decide +kernel
  have hcalls : InvokeKind.Calls .static ⟨[], some (.primitive .int)⟩ (.invokeStatic ⟨0, 0⟩ ⟨[], some .one⟩) :=
    ⟨⟨0, 0⟩, rfl⟩
  obtain ⟨⟨flow, m'⟩, hrun⟩ := Option.isSome_iff_exists.1 hruns
  rw [ok?_eq_some] at hrun
  obtain ⟨result, hresult, hactive, hstep⟩ := (link_returns ⟨.generic, Linker.leads_foldl _ _⟩ hlink).2.2
    (i := .returnValue .one) rfl (by decide) keeping_inStep rfl (by decide +kernel) rfl relying_calling
    hcalls hrun
  exact ⟨flow, m', hrun, result, hresult, hactive, (hstep rfl).1⟩

/-- Linking accepts a body that returns nothing where its descriptor names an `int`; and a caller in step,
verified by the descriptor, finds its stack empty when it goes on. -/
theorem link_returns_broken : pledged.Reachable ∧
    (Linker.link ⟨0, 1⟩ pledged).1 = .ok (pledgeCode 1) ∧
    ((pledged.classes.method? ⟨0, 1⟩).bind fun method =>
        (MethodDescriptor.parse method.descriptor).toOption.map MethodDescriptor.returnCategory) =
      some (some .one) ∧
    (pledgeCode 1).recordedAt 0 = some [] ∧ (pledgeCode 1).get? 0 = some .returnVoid ∧
    (Frame.ofCall ⟨0, 3⟩ (pledgeCode 3) []).InStep ∧
    ∃ m', (executeOne (nested 5) 1 >>= fun _ => executeOne (nested 5) 1 >>= fun _ => executeOne (nested 5) 1)
      (pledging [Frame.ofCall ⟨0, 3⟩ (pledgeCode 3) []]) =
        .error (.fatal (.inconsistent .stackUnderflow)) m' := by
  have hruns : (error? ((executeOne (nested 5) 1 >>= fun _ => executeOne (nested 5) 1 >>= fun _ =>
        executeOne (nested 5) 1) (pledging [Frame.ofCall ⟨0, 3⟩ (pledgeCode 3) []]))).map (·.1) =
      some (.fatal (.inconsistent .stackUnderflow)) := by decide +kernel
  refine ⟨⟨.generic, Linker.leads_foldl _ _⟩, link_pledged 1 0 (by decide +kernel),
    by decide +kernel, by decide +kernel, by decide +kernel, @Frame.inStep_ofCall _ 1 (by decide +kernel) _ _, ?_⟩
  obtain ⟨⟨e, m'⟩, hrun, rfl⟩ := Option.map_eq_some_iff.1 hruns
  exact ⟨m', error?_eq_some.1 hrun⟩

end Machine

end ClassMachine
