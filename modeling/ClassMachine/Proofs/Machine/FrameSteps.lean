import ClassMachine.Machine.Execution
import ClassMachine.Proofs.Bytecode.StackMap
import ClassMachine.Proofs.Machine.Quiet

/-!
Operations on frames that are in step with their verified body: the operands they find have the
categories that verification recorded, so they find enough of them.
-/
namespace ClassMachine

theorem CategoryStack.eq_append_of_popAll {index : Nat} {cs : List Category}
    {stack rest : CategoryStack} (h : popAll index cs stack = .ok rest) : stack = cs ++ rest := by
  induction cs generalizing stack with
  | nil => cases h; rfl
  | cons c cs ih =>
    unfold popAll pop at h
    cases stack with
    | nil => cases h
    | cons d ds =>
      dsimp only at h
      split at h
      · next hcd =>
        split at hcd
        · next hd => cases hcd; rw [hd, ih h]; rfl
        · cases hcd
      · cases h

namespace Frame
open Stateful

/-- Categories of the operands, top first. -/
def categories (f : Frame) : CategoryStack := f.stack.map Value.category

/-- Body and locals are what verification took them for, and so are the operands at the instruction
to run next. -/
structure InStep (f : Frame) : Prop where
  accepted : ∃ depth, f.code.verify = .ok depth
  locals : f.code.maxLocals ≤ f.locals.size
  recorded : f.code.recordedAt f.pc = some f.categories

/-- A frame in step is at an instruction of its body. -/
theorem InStep.pc_lt {f : Frame} (h : f.InStep) : f.pc < f.code.length :=
  LinkedCode.lt_length_of_recordedAt h.recorded

/-- A call of a body that was accepted starts in step. -/
theorem inStep_ofCall {code : LinkedCode} {depth : Nat} (h : code.verify = .ok depth)
    (method : MethodId) (args : List Value) : (Frame.ofCall method code args).InStep := by
  refine ⟨⟨depth, h⟩, ?_, LinkedCode.recordedAt_zero h⟩
  simp only [Frame.ofCall, List.size_toArray, List.length_append, List.length_replicate]
  omega

/-- The frame as a handler finds it. -/
def caught (f : Frame) (exception : Ref) (h : Handler) : Frame :=
  { f with stack := [.ref exception], pc := h.target }

/-- An exception that meets the frame past an instruction finds it in step at every handler that
guards the instruction. -/
def Guarded (f : Frame) : Prop :=
  ∀ index, f.pc = index + 1 → ∀ h ∈ f.code.handlers, h.covers index = true →
    ∀ exception, (f.caught exception h).InStep

/-- The frame with the result of a call, or with a value it obtained, on its stack. -/
def receive (f : Frame) (result : Option Value) : Frame :=
  { f with stack := result.toList ++ f.stack }

theorem Guarded.receive {f : Frame} (hg : f.Guarded) (result : Option Value) :
    (f.receive result).Guarded := hg

/-- A frame that goes on in step with a result of the declared category, and with none if none is
declared. -/
structure Awaits (f : Frame) (declared : Option Category) : Prop where
  guarded : f.Guarded
  received : ∀ result : Option Value, result.map Value.category = declared →
    (f.receive result).InStep

/-- The operands of an instruction that verification reached are off the stack, and its result is not
yet on it. -/
def Yields (f : Frame) (i : Instruction) : Prop :=
  ∃ index before, f.code.get? index = some i ∧ f.code.recordedAt index = some before ∧
    i.simulate f.code.maxLocals index before = .ok (i.result?.toList ++ f.categories)

/-- The counter has moved past the instruction; the operands may have changed. -/
structure Past (f g : Frame) : Prop where
  code : g.code = f.code
  pc : g.pc = f.pc + 1
  locals : g.locals.size = f.locals.size

theorem Past.withStack {f g : Frame} (h : f.Past g) (stack : List Value) :
    f.Past { g with stack := stack } := ⟨h.code, h.pc, h.locals⟩

section Edges

variable {f g : Frame} {i : Instruction} {after : CategoryStack}

theorem Past.guarded (hp : f.Past g) (hf : f.InStep)
    (he : f.code.Edges f.pc i f.categories after) : g.Guarded := by
  intro index hpc h hh hcov exception
  have hindex : index = f.pc := by
    have := hp.pc
    omega
  rw [hp.code] at hh
  refine ⟨?_, ?_, ?_⟩
  · show ∃ depth, g.code.verify = .ok depth
    rw [hp.code]
    exact hf.accepted
  · show g.code.maxLocals ≤ g.locals.size
    rw [hp.code, hp.locals]
    exact hf.locals
  · show g.code.recordedAt h.target = some [.one]
    rw [hp.code]
    exact he.handlers h hh (hindex ▸ hcov)

/-- A frame that went on to a recorded instruction with the stack recorded there. -/
theorem inStep_of_recorded (hf : f.InStep) (hc : g.code = f.code)
    (hl : g.locals.size = f.locals.size) (hr : f.code.recordedAt g.pc = some g.categories) :
    g.InStep := by
  refine ⟨by rw [hc]; exact hf.accepted, by rw [hc, hl]; exact hf.locals, by rw [hc]; exact hr⟩

theorem Past.inStep (hp : f.Past g) (hf : f.InStep)
    (he : f.code.Edges f.pc i f.categories after) (ht : i.isTerminator = false)
    (hc : g.categories = after) : g.InStep := by
  refine inStep_of_recorded hf hp.code hp.locals ?_
  rw [hp.pc, hc]
  exact he.falls ht

theorem Past.awaits (hp : f.Past g) (hf : f.InStep)
    (he : f.code.Edges f.pc i f.categories after) (ht : i.isTerminator = false)
    (hc : i.result?.toList ++ g.categories = after) : g.Awaits i.result? := by
  refine ⟨hp.guarded hf he, fun result hresult => ?_⟩
  refine Past.inStep (hp.withStack _) hf he ht ?_
  show (result.toList ++ g.stack).map Value.category = after
  rw [List.map_append, ← hc, ← hresult]
  cases result <;> rfl

/-- Operands of an instruction that does not rearrange the stack, and the stack it leaves. -/
theorem operands_of_edges (he : f.code.Edges f.pc i f.categories after)
    (hi : ∀ op, i ≠ .stack op) :
    i.checkLocal f.code.maxLocals f.pc = .ok () ∧
      ∃ rest, f.categories = i.operands ++ rest ∧ after = i.result?.toList ++ rest := by
  have hsim := he.simulated
  unfold Instruction.simulate at hsim
  split at hsim
  · next op => exact absurd rfl (hi op)
  · cases hcheck : i.checkLocal f.code.maxLocals f.pc with
    | error e => simp only [hcheck, bind, Except.bind] at hsim; cases hsim
    | ok u =>
      cases hpop : CategoryStack.popAll f.pc i.operands f.categories with
      | error e => simp only [hcheck, hpop, bind, Except.bind] at hsim; cases hsim
      | ok rest =>
        simp only [hcheck, hpop, bind, Except.bind, pure, Except.pure, Except.ok.injEq] at hsim
        exact ⟨rfl, rest, CategoryStack.eq_append_of_popAll hpop, hsim.symm⟩

end Edges

/-- What a frame operation fails with is not that operands, locals or instructions were missing. -/
abbrev Sane (e : Inconsistency) (_ : Frame) : Prop := e.isFlow = false

variable {f : Frame} {v : Value} {s : List Value}

theorem pop_eq (h : f.stack = v :: s) : pop f = .ok v { f with stack := s } := by
  unfold pop
  rw [h]

theorem popInt_eq {x : Int32} (h : f.stack = .int x :: s) : popInt f = .ok x { f with stack := s } := by
  unfold popInt
  rw [bind_of_ok (pop_eq h)]
  rfl

theorem popInt_takes (h : f.stack = v :: s) :
    Ends (popInt f) (fun x g => v = .int x ∧ g = { f with stack := s }) Sane := by
  unfold popInt
  rw [bind_of_ok (pop_eq h)]
  cases v with
  | int x => exact ⟨rfl, rfl⟩
  | _ => exact rfl

theorem popInt_ends (h : f.stack = v :: s) :
    Ends (popInt f) (fun _ g => g = { f with stack := s }) Sane :=
  (popInt_takes h).mono (fun _ _ h => h.2) fun _ _ h => h

theorem popLong_ends (h : f.stack = v :: s) :
    Ends (popLong f) (fun _ g => g = { f with stack := s }) Sane := by
  unfold popLong
  rw [bind_of_ok (pop_eq h)]
  cases v <;> rfl

theorem popFloat_ends (h : f.stack = v :: s) :
    Ends (popFloat f) (fun _ g => g = { f with stack := s }) Sane := by
  unfold popFloat
  rw [bind_of_ok (pop_eq h)]
  cases v <;> rfl

theorem popDouble_ends (h : f.stack = v :: s) :
    Ends (popDouble f) (fun _ g => g = { f with stack := s }) Sane := by
  unfold popDouble
  rw [bind_of_ok (pop_eq h)]
  cases v <;> rfl

theorem popRef_takes (h : f.stack = v :: s) :
    Ends (popRef f) (fun r g => v = .ref r ∧ g = { f with stack := s }) Sane := by
  unfold popRef
  rw [bind_of_ok (pop_eq h)]
  cases v with
  | ref r => exact ⟨rfl, rfl⟩
  | _ => exact rfl

theorem popRef_ends (h : f.stack = v :: s) :
    Ends (popRef f) (fun _ g => g = { f with stack := s }) Sane :=
  (popRef_takes h).mono (fun _ _ h => h.2) fun _ _ h => h

theorem popN_ends {n : Nat} (h : n ≤ f.stack.length) :
    Ends (popN n f) (fun _ g => g = { f with stack := f.stack.drop n }) Sane := by
  unfold popN
  rw [if_neg (by omega)]
  exact rfl

theorem getLocal_eq {index : Nat} (h : index < f.locals.size) :
    ∃ v, getLocal index f = .ok v f := by
  unfold getLocal
  rw [Array.getElem?_eq_getElem h]
  exact ⟨_, rfl⟩

theorem setLocal_eq {index : Nat} (h : index < f.locals.size) (v : Value) :
    setLocal index v f = .ok () { f with locals := f.locals.setIfInBounds index v } := by
  unfold setLocal
  rw [if_pos h]

theorem store_ends {index : Nat} (hs : f.stack = v :: s) (h : index < f.locals.size) :
    Ends (store index f)
      (fun _ g => g.stack = s ∧ g.code = f.code ∧ g.pc = f.pc ∧ g.locals.size = f.locals.size)
      Sane := by
  unfold store
  rw [bind_of_ok (pop_eq hs), bind_of_ok (setLocal_eq (f := { f with stack := s }) h v), bind_get]
  split
  · next hwide =>
    rw [setLocal_eq hwide.2]
    exact ⟨rfl, rfl, rfl, by simp⟩
  · exact ⟨rfl, rfl, rfl, by simp⟩

theorem increment_ends {index : Nat} (h : index < f.locals.size) (delta : Int16) :
    Ends (increment index delta f)
      (fun _ g => g.stack = f.stack ∧ g.code = f.code ∧ g.pc = f.pc ∧ g.locals.size = f.locals.size)
      Sane := by
  obtain ⟨v, hv⟩ := getLocal_eq h
  unfold increment
  rw [bind_of_ok hv]
  cases v.int? with
  | none => exact rfl
  | some x =>
    dsimp only
    rw [setLocal_eq h]
    exact ⟨rfl, rfl, rfl, by simp⟩

end Frame

namespace Machine
open Stateful

section Front

variable {α : Type} {m : Machine} {f f' : Frame} {rest : FrameStack}

theorem onTop_ok {x : FrameM α} {a : α} (hm : m.active = f :: rest) (hx : x f = .ok a f') :
    onTop x m = .ok a { m with active := f' :: rest } := by
  simp only [onTop, hm, hx]

theorem onTop_error {x : FrameM α} {e : Inconsistency} (hm : m.active = f :: rest) (hx : x f = .error e f') :
    onTop x m = .error (.fatal (.inconsistent e)) { m with active := f' :: rest } := by
  simp only [onTop, hm, hx]

/-- An instruction is executed with the counter past it. -/
theorem executeOne_at {i : Instruction} (hactive : m.active = f :: rest) (hi : f.code.get? f.pc = some i)
    (n : Nested) (t : ThreadId) :
    executeOne n t m = executeInstruction n t i { m with active := { f with pc := f.pc + 1 } :: rest } := by
  have hfetch : fetch f = .ok i { f with pc := f.pc + 1 } := by
    simp only [fetch, hi]
  unfold executeOne
  rw [bind_of_ok (onTop_ok hactive hfetch)]

end Front

variable {f : Frame} {v w : Value} {s : List Value}

/-- Operands are taken; a result, if there is one, has the category of the type. -/
theorem arithmetic_ends (op : ArithOp) (type : NumType) (hs : f.stack = v :: w :: s) :
    Ends (arithmetic op type f)
      (fun result g => g = { f with stack := s } ∧ ∀ x, result = some x → x.category = type.category)
      Frame.Sane := by
  unfold arithmetic
  cases type with
  | int =>
    refine (Frame.popInt_ends hs).bind fun b g hg => ?_
    refine (Frame.popInt_ends (s := s) (by rw [hg])).bind fun a g' hg' => ?_
    refine ⟨by rw [hg', hg], fun x hx => ?_⟩
    obtain ⟨y, _, rfl⟩ := Option.map_eq_some_iff.1 hx
    rfl
  | long =>
    dsimp only
    split
    · refine (Frame.popInt_ends hs).bind fun b g hg => ?_
      refine (Frame.popLong_ends (s := s) (by rw [hg])).bind fun a g' hg' => ?_
      exact ⟨by rw [hg', hg], fun x hx => by cases hx; rfl⟩
    · refine (Frame.popLong_ends hs).bind fun b g hg => ?_
      refine (Frame.popLong_ends (s := s) (by rw [hg])).bind fun a g' hg' => ?_
      refine ⟨by rw [hg', hg], fun x hx => ?_⟩
      obtain ⟨y, _, rfl⟩ := Option.map_eq_some_iff.1 hx
      rfl
  | float =>
    refine (Frame.popFloat_ends hs).bind fun b g hg => ?_
    refine (Frame.popFloat_ends (s := s) (by rw [hg])).bind fun a g' hg' => ?_
    exact ⟨by rw [hg', hg], fun x hx => by cases hx; rfl⟩
  | double =>
    refine (Frame.popDouble_ends hs).bind fun b g hg => ?_
    refine (Frame.popDouble_ends (s := s) (by rw [hg])).bind fun a g' hg' => ?_
    exact ⟨by rw [hg', hg], fun x hx => by cases hx; rfl⟩

/-- One operand is replaced by a result of a known category. -/
theorem negate_ends (type : NumType) (hs : f.stack = v :: s) :
    Ends (negate type f)
      (fun _ g => ∃ x : Value, g = { f with stack := x :: s } ∧ x.category = type.category)
      Frame.Sane := by
  cases type with
  | int =>
    refine (Frame.popInt_ends hs).bind fun a g hg => ?_
    exact ⟨.int (-a), by rw [hg], rfl⟩
  | long =>
    refine (Frame.popLong_ends hs).bind fun a g hg => ?_
    exact ⟨.long (-a), by rw [hg], rfl⟩
  | float =>
    refine (Frame.popFloat_ends hs).bind fun a g hg => ?_
    exact ⟨.float (a ^^^ 0x80000000), by rw [hg], rfl⟩
  | double =>
    refine (Frame.popDouble_ends hs).bind fun a g hg => ?_
    exact ⟨.double (a ^^^ 0x8000000000000000), by rw [hg], rfl⟩

theorem category_convert? {v w : Value} {target : NumType} (h : v.convert? target = some w) :
    w.category = target.category := by
  unfold Value.convert? at h
  split at h <;> cases h <;> rfl

theorem convert_ends (target : NumType) (hs : f.stack = v :: s) :
    Ends (convert target f)
      (fun _ g => ∃ x : Value, g = { f with stack := x :: s } ∧ x.category = target.category)
      Frame.Sane := by
  unfold convert
  rw [bind_of_ok (Frame.pop_eq hs)]
  cases hc : v.convert? target with
  | none => exact rfl
  | some x => exact ⟨x, rfl, category_convert? hc⟩

theorem compareTop_ends (op : CompareOp) (hs : f.stack = v :: w :: s) :
    Ends (compareTop op f)
      (fun _ g => ∃ x : Value, g = { f with stack := x :: s } ∧ x.category = .one) Frame.Sane := by
  unfold compareTop
  cases op with
  | long =>
    refine (Frame.popLong_ends hs).bind fun b g hg => ?_
    refine (Frame.popLong_ends (s := s) (by rw [hg])).bind fun a g' hg' => ?_
    exact ⟨.int (compareLong a b), by rw [hg', hg], rfl⟩
  | floatL =>
    refine (Frame.popFloat_ends hs).bind fun b g hg => ?_
    refine (Frame.popFloat_ends (s := s) (by rw [hg])).bind fun a g' hg' => ?_
    exact ⟨.int _, by rw [hg', hg], rfl⟩
  | floatG =>
    refine (Frame.popFloat_ends hs).bind fun b g hg => ?_
    refine (Frame.popFloat_ends (s := s) (by rw [hg])).bind fun a g' hg' => ?_
    exact ⟨.int _, by rw [hg', hg], rfl⟩
  | doubleL =>
    refine (Frame.popDouble_ends hs).bind fun b g hg => ?_
    refine (Frame.popDouble_ends (s := s) (by rw [hg])).bind fun a g' hg' => ?_
    exact ⟨.int _, by rw [hg', hg], rfl⟩
  | doubleG =>
    refine (Frame.popDouble_ends hs).bind fun b g hg => ?_
    refine (Frame.popDouble_ends (s := s) (by rw [hg])).bind fun a g' hg' => ?_
    exact ⟨.int _, by rw [hg', hg], rfl⟩

theorem popStore_ends (hs : f.stack = v :: w :: s) :
    Ends (popStore f) (fun _ g => g = { f with stack := s }) Frame.Sane := by
  unfold popStore
  rw [bind_of_ok (Frame.pop_eq hs)]
  refine (Frame.popRef_ends (s := s) rfl).bind fun object g hg => ?_
  exact hg

/-- A branch leads to its target or lets control fall through. -/
theorem branchIf_eq (holds : Bool) (target : Nat) (f : Frame) :
    branchIf holds target f = .ok () { f with pc := if holds then target else f.pc } := by
  cases holds <;> rfl

end Machine

/-- A key leads to a row of its own or to the default. -/
theorem lookupTarget_paired (pairs : List (Int32 × Nat)) (default : Nat) (key : Int32) :
    (key, lookupTarget pairs default key) ∈ pairs ∨ lookupTarget pairs default key = default := by
  unfold lookupTarget
  dsimp only
  split
  · next k target hget =>
    split
    · next heq =>
      have hmem := Array.mem_of_getElem? hget
      exact .inl (by simpa [heq] using hmem)
    · exact .inr rfl
  · exact .inr rfl

theorem lookupTarget_mem (pairs : List (Int32 × Nat)) (default : Nat) (key : Int32) :
    lookupTarget pairs default key ∈ pairs.map (·.2) ++ [default] := by
  rcases lookupTarget_paired pairs default key with hmem | heq
  · exact List.mem_append_left _ (List.mem_map_of_mem (f := (·.2)) hmem)
  · exact List.mem_append_right _ (List.mem_singleton.2 heq)

theorem tableTarget_mem (low : Int32) (targets : List Nat) (default : Nat) (key : Int32) :
    tableTarget low targets default key ∈ targets ++ [default] := by
  unfold tableTarget
  dsimp only
  split
  · simp
  · rw [List.getD_eq_getElem?_getD]
    cases hget : targets[(key.toInt - low.toInt).toNat]? with
    | none => simp
    | some target => exact List.mem_append_left _ (List.mem_of_getElem? hget)

end ClassMachine
