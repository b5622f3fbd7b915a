import ClassMachine.Proofs.Machine.FrameSteps
import ClassMachine.Proofs.Machine.QuietCalls

/-!
Execution follows verification. A frame that is in step with its verified body when an instruction
begins is in step again whenever control is back in it: after the instruction, after a call it
made has returned, and at the handlers that guard it.
-/
namespace ClassMachine

def Instruction.isReturn : Instruction → Bool
  | returnVoid | returnValue _ => true
  | _ => false

def Instruction.isCall : Instruction → Bool
  | .invokeStatic _ _ | .invokeSpecial _ _ | .invokeVirtual _ _ | .invokeInterface _ _ => true
  | .invokeVoidNoArgs _ => true
  | _ => false

/-- The frame past an instruction, with the operands of that taken. -/
def Frame.passed (f : Frame) (i : Instruction) : Frame :=
  { f with pc := f.pc + 1, stack := f.stack.drop i.operands.length }

namespace Machine
open Stateful

/-- The frames left when the one in front has returned: the next one has got the result. -/
def returned (result : Option Value) : FrameStack → FrameStack
  | [] => []
  | g :: rest => g.receive result :: rest

theorem returned_none (frames : FrameStack) : returned none frames = frames := by
  cases frames <;> rfl

/-- What an instruction of the frame finds outside the operand stack: a local, or an element of an array, a
field or a static of the machine. Other instructions find nothing there. -/
inductive Reads (f : Frame) (m : Machine) : Instruction → Value → Prop
  | ofLocal {index : Nat} {c : Category} {v : Value} (h : f.locals[index]? = some v) :
    Reads f m (.load index c) v
  | ofArray {kind type : Kind} {index : Int32} {array : Ref} {s : List Value} {elements : Array Value}
      {v : Value} (hs : f.stack = .int index :: .ref array :: s)
      (ha : (m.heap.get? array).bind Object.elements? = some (type, elements))
      (h : (position? index elements.size).bind (elements[·]?) = some v) : Reads f m (.arrayLoad kind) v
  | ofObject {name descriptor : String} {kind : Kind} {object : Ref} {s : List Value} {slot : Nat} {v : Value}
      (hs : f.stack = .ref object :: s) (h : (m.heap.get? object).bind (·.fields[slot]?) = some v) :
    Reads f m (.getField name descriptor kind) v
  | ofSlot {slot : Nat} {kind : Kind} {object : Ref} {s : List Value} {v : Value}
      (hs : f.stack = .ref object :: s) (h : (m.heap.get? object).bind (·.fields[slot]?) = some v) :
    Reads f m (.getFieldSlot slot kind) v
  | ofStatics {owner : ClassId} {slot : Nat} {kind : Kind} {v : Value} (h : m.statics.get? owner slot = some v) :
    Reads f m (.getStatic owner slot kind) v

/-- How control goes on from an instruction of the frame `f` in front of `rest`. -/
inductive Continues (f : Frame) (i : Instruction) (rest : FrameStack) (flow : Flow) (m : Machine) : Prop
  /-- It stays in the frame, which is in step. -/
  | stays (g : Frame) (ha : m.active = g :: rest) (hc : g.code = f.code) (hs : g.InStep)
      (hg : flow = .pause → g.Guarded)
  /-- It stays in the frame, which has got a value read outside its stack. -/
  | obtains (v : Value) (hr : Reads f m i v) (ha : m.active = (f.passed i).receive (some v) :: rest)
      (hw : (f.passed i).Awaits i.result?)
  /-- It stays in the frame, which has got the result of a call at once. -/
  | answers (result : Option Value) (hi : i.isCall = true) (ha : m.active = (f.passed i).receive result :: rest)
      (hw : (f.passed i).Awaits i.result?)
  /-- It is in a frame of its own, and the frame waits for a result. -/
  | calls (callee : Frame) (hi : i.isCall = true) (ha : m.active = callee :: f.passed i :: rest)
      (hw : (f.passed i).Awaits i.result?) (hy : (f.passed i).Yields i)
  /-- It has left the frame. The one behind, if there is one, has got the result. -/
  | returns (result : Option Value) (hi : i.isReturn = true) (ha : m.active = returned result rest)

/-- How an instruction of the frame in front of `rest` fails. An exception meets the frame past the
instruction, or finds it left. -/
def Fails (code : LinkedCode) (i : Instruction) (rest : FrameStack) : Trap → Machine → Prop
  | .exception _, m =>
    (∃ f, m.active = f :: rest ∧ f.code = code ∧ f.Guarded) ∨ i.isReturn = true ∧ m.active = rest
  | e, _ => e.isFlow = false

/-- The frame in front of a thread whose number has been given out. -/
structure Front (t : ThreadId) (g : Frame) (rest : FrameStack) (m : Machine) : Prop where
  active : m.active = g :: rest
  known : t < m.scheduler.nextId

/-- An instruction of a frame in step, and the stack verification leaves after it. -/
structure Site (f : Frame) (i : Instruction) (after : CategoryStack) : Prop where
  inStep : f.InStep
  there : f.code.get? f.pc = some i
  edges : f.code.Edges f.pc i f.categories after

section Rules

variable {α : Type} {t : ThreadId} {f g : Frame} {rest : FrameStack} {i : Instruction}
  {after : CategoryStack} {m : Machine}

theorem Front.onTop (h : Front t g rest m) {x : FrameM α} {Q : α → Frame → Prop}
    (hx : Ends (x g) Q Frame.Sane) {behind : FrameStack} :
    Ends (onTop x m) (fun a m' => ∃ g', Front t g' rest m' ∧ Q a g') (Fails f.code i behind) := by
  unfold Machine.onTop
  rw [h.active]
  dsimp only
  cases hr : x g with
  | ok a g' => exact ⟨g', ⟨rfl, h.known⟩, hx.of_ok hr⟩
  | error e g' => exact hx.of_error hr

/-- A computation that leaves frames alone, after the counter has moved on. -/
theorem Quiet.front {x : MachineM α} (hx : Quiet t x) (h : Front t g rest m) (hg : g.Guarded) :
    Ends (x m) (fun _ m' => Front t g rest m') (Fails g.code i rest) := by
  refine (hx m h.known).mono (fun _ m' hk => ?_) fun e m' ⟨hk, he⟩ => ?_
  · exact ⟨hk.active.trans h.active, UInt32.lt_of_lt_of_le h.known hk.threads.nextId⟩
  · cases e with
    | exception r => exact .inl ⟨g, hk.active.trans h.active, rfl, hg⟩
    | fatal error => exact he
    | outOfFuel => rfl

theorem Raises.front {x : MachineM α} (hx : Raises t x) (h : Front t g rest m) (hg : g.Guarded)
    {Q : α → Machine → Prop} : Ends (x m) Q (Fails g.code i rest) := by
  refine (hx m h.known).mono (fun _ _ h => h.elim) fun e m' ⟨hk, he⟩ => ?_
  cases e with
  | exception r => exact .inl ⟨g, hk.active.trans h.active, rfl, hg⟩
  | fatal error => exact he
  | outOfFuel => rfl

/-- Operands of an instruction that does not rearrange the stack. -/
theorem Site.operands (hs : Site f i after) (hi : ∀ op, i ≠ .stack op) :
    ∃ vs s, f.stack = vs ++ s ∧ vs.map Value.category = i.operands ∧
      after = i.result?.toList ++ s.map Value.category := by
  obtain ⟨_, tail, hcat, hafter⟩ := Frame.operands_of_edges hs.edges hi
  obtain ⟨vs, s, hstack, hvs, hs'⟩ := List.map_eq_append_iff.1 hcat
  exact ⟨vs, s, hstack, hvs, by rw [hafter, hs']⟩

theorem Site.operand (hs : Site f i after) (hi : ∀ op, i ≠ .stack op) {c : Category}
    (hc : i.operands = [c]) :
    ∃ v s, f.stack = v :: s ∧ v.category = c ∧ after = i.result?.toList ++ s.map Value.category := by
  obtain ⟨vs, s, hstack, hvs, hafter⟩ := hs.operands hi
  rw [hc] at hvs
  obtain ⟨v, tail, rfl, hv, htail⟩ := List.map_eq_cons_iff.1 hvs
  rw [List.map_eq_nil_iff.1 htail] at hstack
  exact ⟨v, s, hstack, hv, hafter⟩

theorem Site.operands_two (hs : Site f i after) (hi : ∀ op, i ≠ .stack op) {c d : Category}
    (hc : i.operands = [c, d]) :
    ∃ v w s, f.stack = v :: w :: s ∧ v.category = c ∧ w.category = d ∧
      after = i.result?.toList ++ s.map Value.category := by
  obtain ⟨vs, s, hstack, hvs, hafter⟩ := hs.operands hi
  rw [hc] at hvs
  obtain ⟨v, tail, rfl, hv, htail⟩ := List.map_eq_cons_iff.1 hvs
  obtain ⟨w, tail', rfl, hw, htail'⟩ := List.map_eq_cons_iff.1 htail
  rw [List.map_eq_nil_iff.1 htail'] at hstack
  exact ⟨v, w, s, hstack, hv, hw, hafter⟩

theorem Site.operands_three (hs : Site f i after) (hi : ∀ op, i ≠ .stack op) {b c d : Category}
    (hc : i.operands = [b, c, d]) :
    ∃ u v w s, f.stack = u :: v :: w :: s ∧ after = i.result?.toList ++ s.map Value.category := by
  obtain ⟨vs, s, hstack, hvs, hafter⟩ := hs.operands hi
  rw [hc] at hvs
  obtain ⟨u, tail, rfl, _, htail⟩ := List.map_eq_cons_iff.1 hvs
  obtain ⟨v, tail', rfl, _, htail'⟩ := List.map_eq_cons_iff.1 htail
  obtain ⟨w, tail'', rfl, _, htail''⟩ := List.map_eq_cons_iff.1 htail'
  rw [List.map_eq_nil_iff.1 htail''] at hstack
  exact ⟨u, v, w, s, hstack, hafter⟩

/-- The slot a local instruction touches is there. -/
theorem Site.local_lt (hs : Site f i after) (hi : ∀ op, i ≠ .stack op) {index : Nat} {c : Category}
    (hu : i.localUse? = some (index, c)) : index < f.locals.size := by
  obtain ⟨hcheck, _⟩ := Frame.operands_of_edges hs.edges hi
  unfold Instruction.checkLocal at hcheck
  rw [hu] at hcheck
  dsimp only at hcheck
  split at hcheck
  · cases hcheck
  · have hslots := c.slots_pos
    have hlocals := hs.inStep.locals
    omega

/-- The frame past an instruction that takes the operands `vs`. -/
theorem passed_eq {vs s : List Value} (hstack : f.stack = vs ++ s) (hlen : vs.length = i.operands.length) :
    f.passed i = { f with pc := f.pc + 1, stack := s } := by
  unfold Frame.passed
  rw [← hlen, hstack, List.drop_left]

/-- The operands are taken and the counter has moved on. -/
structure Taken (f : Frame) (i : Instruction) (after : CategoryStack) (g : Frame) : Prop where
  past : f.Past g
  stack : i.result?.toList ++ g.categories = after

theorem Taken.guarded (h : Taken f i after g) (hs : Site f i after) : g.Guarded :=
  h.past.guarded hs.inStep hs.edges

theorem Taken.awaits (h : Taken f i after g) (hs : Site f i after) (ht : i.isTerminator = false) :
    g.Awaits i.result? := h.past.awaits hs.inStep hs.edges ht h.stack

theorem Taken.yields (h : Taken f i after g) (hs : Site f i after) : g.Yields i := by
  refine ⟨f.pc, f.categories, ?_⟩
  rw [h.past.code, h.stack]
  exact ⟨hs.there, hs.inStep.recorded, hs.edges.simulated⟩

/-- The instruction has been done in the frame, and control goes on where it says. -/
structure Done (f : Frame) (i : Instruction) (after : CategoryStack) (g : Frame) : Prop where
  code : g.code = f.code
  locals : g.locals.size = f.locals.size
  stack : g.categories = after
  pc : i.isTerminator = false ∧ g.pc = f.pc + 1 ∨ g.pc ∈ i.branchTargets

theorem Done.inStep (h : Done f i after g) (hs : Site f i after) : g.InStep := by
  refine Frame.inStep_of_recorded hs.inStep h.code h.locals ?_
  rw [h.stack]
  rcases h.pc with ⟨ht, hpc⟩ | hmem
  · rw [hpc]
    exact hs.edges.falls ht
  · exact hs.edges.branches g.pc hmem

theorem frameStep_continues {x : FrameM Unit} (hs : Site f i after) (hm : Front t g rest m)
    (hx : Ends (x g) (fun _ g' => Done f i after g') Frame.Sane) :
    Ends (frameStep x m) (Continues f i rest) (Fails f.code i rest) := by
  unfold frameStep
  refine (hm.onTop hx).bind fun _ m' ⟨g', hm', hdone⟩ => ?_
  exact .stays g' hm'.active hdone.code (hdone.inStep hs) fun hp => by cases hp

/-- A value made by the machine is pushed. -/
theorem pushing_stays {x : MachineM Value} (hs : Site f i after) (ht : i.isTerminator = false)
    (hx : Ends (x m) (fun v m' => ∃ g', Front t g' rest m' ∧ Taken f i after g' ∧
      some v.category = i.result?) (Fails f.code i rest)) :
    Ends (pushing x m) (Continues f i rest) (Fails f.code i rest) := by
  unfold pushing
  refine hx.bind fun v m' ⟨g', hm', htaken, hv⟩ => ?_
  have hpush : Ends (Frame.push v g') (fun _ g'' => g'' = g'.receive (some v)) Frame.Sane := rfl
  refine (hm'.onTop hpush).bind fun _ m'' ⟨g'', hm'', hg''⟩ => ?_
  subst hg''
  have hstep := (htaken.awaits hs ht).received (some v) hv
  exact .stays _ hm''.active htaken.past.code hstep fun hp => by cases hp

/-- What was read is there still when the frames have changed. -/
theorem Reads.reframe {v : Value} (h : Reads f m i v) (frames : FrameStack) :
    Reads f { m with active := frames } i v := by
  cases h with
  | ofLocal h => exact .ofLocal h
  | ofArray hs ha h => exact .ofArray hs ha h
  | ofObject hs h => exact .ofObject hs h
  | ofSlot hs h => exact .ofSlot hs h
  | ofStatics h => exact .ofStatics h

/-- A value read elsewhere is pushed. -/
theorem pushing_obtains {x : MachineM Value} (hs : Site f i after) (ht : i.isTerminator = false)
    (hx : Ends (x m) (fun v m' => (Front t (f.passed i) rest m' ∧ Taken f i after (f.passed i)) ∧ Reads f m' i v)
      (Fails f.code i rest)) :
    Ends (pushing x m) (Continues f i rest) (Fails f.code i rest) := by
  unfold pushing
  refine hx.bind fun v m' ⟨⟨hm', htaken⟩, hv⟩ => ?_
  have hpush : push v m' = .ok () { m' with active := (f.passed i).receive (some v) :: rest } :=
    onTop_ok hm'.active rfl
  rw [bind_of_ok hpush]
  exact .obtains v (hv.reframe _) rfl (htaken.awaits hs ht)

theorem pushingRef_stays {x : MachineM Ref} (hs : Site f i after) (ht : i.isTerminator = false)
    (hr : i.result? = some .one)
    (hx : Ends (x m) (fun _ m' => ∃ g', Front t g' rest m' ∧ Taken f i after g') (Fails f.code i rest)) :
    Ends (pushingRef x m) (Continues f i rest) (Fails f.code i rest) := by
  unfold pushingRef
  refine hx.bind fun r m' ⟨g', hm', htaken⟩ => ?_
  have hpush : Ends (Frame.push (.ref r) g') (fun _ g'' => g'' = g'.receive (some (.ref r)))
      Frame.Sane := rfl
  refine (hm'.onTop hpush).bind fun _ m'' ⟨g'', hm'', hg''⟩ => ?_
  subst hg''
  exact .stays _ hm''.active htaken.past.code ((htaken.awaits hs ht).received (some (.ref r)) hr.symm)
    fun hp => by cases hp

end Rules

section Calls

variable {t : ThreadId} {f g : Frame} {rest : FrameStack} {i : Instruction} {m : Machine} {k : Nested}

/-- The caller gets the result, or the last frame has returned. -/
theorem deliver_eq (result : Option Value) (m : Machine) :
    ∃ flow, deliver result m = .ok flow { m with active := returned result m.active } ∧
      (flow = .next ∨ flow = .finished result) := by
  unfold deliver
  rw [bind_get]
  cases ha : m.active with
  | nil =>
    have hsame : ({ m with active := returned result [] } : Machine) = m := by
      rw [show returned result [] = m.active from ha.symm]
    exact ⟨.finished result, congrArg _ hsame.symm, .inr rfl⟩
  | cons g rest =>
    refine ⟨.next, ?_, .inl rfl⟩
    cases result with
    | none =>
      have hsame : ({ m with active := returned none (g :: rest) } : Machine) = m := by rw [returned_none, ← ha]
      exact congrArg _ hsame.symm
    | some v =>
      have hpush : push v m = .ok () { m with active := g.receive (some v) :: rest } := by
        unfold push onTop
        rw [ha]
        rfl
      dsimp only
      rw [bind_of_ok hpush]
      rfl

/-- What a call does to the frames: one is put in front, or the caller has got the result. -/
inductive Invoked (m m' : Machine) : Prop
  | entered (callee : Frame) (ha : m'.active = callee :: m.active)
      (hs : m.scheduler.Spares (fun _ => True) m'.scheduler)
  | answered (result : Option Value) (ha : m'.active = returned result m.active)
      (hs : m.scheduler.Spares (fun _ => True) m'.scheduler)

theorem Keeps.invoked {m m' m'' : Machine} (h : m.Keeps m') (h' : m'.Invoked m'') : m.Invoked m'' := by
  cases h' with
  | entered callee ha hs => exact .entered callee (by rw [ha, h.active]) (h.threads.trans hs)
  | answered result ha hs => exact .answered result (by rw [ha, h.active]) (h.threads.trans hs)

theorem takePause_quiet (thread : ThreadId) : Quiet t (takePause thread) :=
  fun _ _ => Keeps.of_eq rfl rfl

/-- A call that comes to a result has been made, and one that fails leaves the frames alone. -/
abbrev Invokes (t : ThreadId) (x : MachineM Flow) : Prop :=
  ∀ m : Machine, t < m.scheduler.nextId →
    Ends (x m) (fun _ m' => m.Invoked m') fun e m' => m.Keeps m' ∧ e.isFlow = false

theorem Quiet.invokes {α : Type} {x : MachineM α} {f : α → MachineM Flow} (hx : Quiet t x)
    (hf : ∀ a, Invokes t (f a)) : Invokes t (x >>= f) := by
  intro m hm
  cases hr : x m with
  | ok a m₁ =>
    have hk := (hx m hm).of_ok hr
    rw [bind_of_ok hr]
    exact (hf a m₁ (UInt32.lt_of_lt_of_le hm hk.threads.nextId)).mono (fun _ _ h => hk.invoked h)
      fun _ _ h => ⟨hk.trans h.1, h.2⟩
  | error e m₁ =>
    rw [bind_of_error hr]
    exact (hx m hm).of_error hr

theorem Raises.invokes {x : MachineM Flow} (hx : Raises t x) : Invokes t x := fun m hm =>
  (hx m hm).mono (fun _ _ h => h.elim) fun _ _ h => h

theorem callNative_invokes (hk : k.Quiet) (method : Method) (args : List Value) :
    Invokes t (callNative k t method args) := by
  unfold callNative
  refine Quiet.get.invokes fun _ => (Quiet.onLinker _).invokes fun binding => ?_
  refine (runNative_quiet hk _ _ _).invokes fun result => (takePause_quiet t).invokes fun paused => ?_
  intro m _
  obtain ⟨flow, hdel, -⟩ := deliver_eq result m
  rw [bind_of_ok hdel]
  cases flow <;> exact .answered result rfl (.refl _ _)

/-- The monitor of the frame just put in front is entered, or the frame is taken back. -/
theorem enterMonitor_ends {callee : Frame} {behind : FrameStack} (hm : m.active = callee :: behind)
    (ht : t < m.scheduler.nextId) (object : Ref) :
    Ends (enterMonitor t object m)
      (fun _ m' => (∃ callee, m'.active = callee :: behind) ∧
        m.scheduler.Spares (fun _ => True) m'.scheduler)
      fun e m' => (m'.active = behind ∧ m.scheduler.Spares (fun _ => True) m'.scheduler) ∧
        e.isFlow = false := by
  unfold enterMonitor
  refine ((onSync_ends (Sync.enter_tame t object) m).mono (fun _ _ h => h)
    fun _ _ h => h.elim).bind fun result m₁ h => ?_
  obtain ⟨hk, herror⟩ := h
  have hactive : m₁.active = callee :: behind := hk.active.trans hm
  cases result with
  | ok outcome =>
    have htop : onTop (modify fun f => { f with monitor := some object }) m₁ =
        .ok () { m₁ with active := { callee with monitor := some object } :: behind } := by
      unfold onTop
      rw [hactive]
      rfl
    dsimp only
    rw [bind_of_ok htop]
    exact ⟨⟨_, rfl⟩, hk.threads⟩
  | error e =>
    have hraise := raiseSync_raises (t := t) (α := Flow) (herror e rfl)
      { m₁ with active := m₁.active.tail } (UInt32.lt_of_lt_of_le ht hk.threads.nextId)
    refine hraise.mono (fun _ _ h => h.elim) fun e m' ⟨hk', he⟩ => ⟨⟨?_, ?_⟩, he⟩
    · rw [hk'.active, hactive]
      rfl
    · exact hk.threads.trans hk'.threads

theorem callBytecode_invokes (method : Method) (args : List Value) :
    Invokes t (callBytecode t method args) := by
  unfold callBytecode
  refine (Quiet.onLinker _).invokes fun linked => ?_
  cases linked with
  | error e => exact (Raises.throw rfl).invokes
  | ok code =>
    refine Quiet.get.invokes fun machine => ?_
    split
    · exact (raise_raises _ _).invokes
    intro m hm
    let callee := Frame.ofCall method.id code args
    let entered : Machine := { m with active := callee :: m.active }
    rw [bind_of_ok (show pushFrame callee m = .ok () entered from rfl)]
    have henter : ∀ object (m' : Machine), entered.Keeps m' →
        Ends (enterMonitor t object m') (fun _ m'' => m.Invoked m'')
          fun e m'' => m.Keeps m'' ∧ e.isFlow = false := by
      intro object m' hk
      have hknown := UInt32.lt_of_lt_of_le hm hk.threads.nextId
      refine (enterMonitor_ends hk.active hknown object).mono ?_ ?_
      · rintro _ m'' ⟨⟨callee', ha⟩, hs⟩
        exact .entered callee' ha (hk.threads.trans hs)
      · rintro e m'' ⟨⟨ha, hs⟩, he⟩
        exact ⟨⟨ha, hk.threads.trans hs⟩, he⟩
    split
    · split
      · have hmirror : Ends (orPopFrame (mirror method.id.owner) entered)
            (fun _ m' => entered.Keeps m') fun e m' => m.Keeps m' ∧ e.isFlow = false := by
          have hq := mirror_quiet (t := t) method.id.owner entered hm
          unfold orPopFrame
          cases hr : mirror method.id.owner entered with
          | ok object m' => exact hq.of_ok hr
          | error e m' =>
            obtain ⟨hk, he⟩ := hq.of_error hr
            refine ⟨⟨?_, hk.threads⟩, he⟩
            show m'.active.tail = m.active
            rw [hk.active]
            rfl
        exact hmirror.bind fun object m' hk => henter object m' hk
      · exact henter _ entered (.refl _)
    · exact .entered callee rfl (.refl _ _)

theorem invokeMethod_invokes (hk : k.Quiet) (method : MethodId) (args : List Value) :
    Invokes t (invokeMethod k t method args) := by
  unfold invokeMethod
  refine Quiet.get.invokes fun m => ?_
  cases m.classes.method? method with
  | none => exact (Raises.throw rfl).invokes
  | some found =>
    dsimp only
    cases found.body with
    | abstract => exact (raise_raises _ _).invokes
    | native binding => exact callNative_invokes hk found args
    | bytecode raw linked => exact callBytecode_invokes found args

theorem invokeMethod_continues (hk : k.Quiet) (hm : Front t (f.passed i) rest m) (hi : i.isCall = true)
    (hw : (f.passed i).Awaits i.result?) (hy : (f.passed i).Yields i) (method : MethodId) (args : List Value) :
    Ends (invokeMethod k t method args m) (Continues f i rest) (Fails f.code i rest) := by
  refine (invokeMethod_invokes hk method args m hm.known).mono (fun flow m' h => ?_)
    fun e m' ⟨hkeeps, he⟩ => ?_
  · cases h with
    | entered callee ha _ => exact .calls callee hi (by rw [ha, hm.active]) hw hy
    | answered result ha _ => exact .answers result hi (by rw [ha, hm.active]; rfl) hw
  · cases e with
    | exception r => exact .inl ⟨f.passed i, hkeeps.active.trans hm.active, rfl, hw.guarded⟩
    | fatal error => exact he
    | outOfFuel => rfl

/-- Leaving a frame hands the result to the one behind it. -/
theorem returnFrom_ends (hm : Front t g rest m) (result : Option Value) :
    Ends (returnFrom t result m)
      (fun _ m' => m'.active = returned result rest ∧
        m.scheduler.Spares (fun _ => True) m'.scheduler)
      fun e m' => (m'.active = rest ∧ m.scheduler.Spares (fun _ => True) m'.scheduler) ∧
        e.isFlow = false := by
  unfold returnFrom
  rw [bind_get, hm.active]
  dsimp only
  rw [bind_of_ok (show popFrame m = .ok () { m with active := m.active.tail } from rfl)]
  have hactive : m.active.tail = rest := by rw [hm.active]; rfl
  have hdeliver : ∀ m' : Machine, m'.active = rest → m.scheduler.Spares (fun _ => True) m'.scheduler →
      Ends (deliver result m') (fun _ m'' => m''.active = returned result rest ∧
        m.scheduler.Spares (fun _ => True) m''.scheduler)
      fun e m'' => (m''.active = rest ∧ m.scheduler.Spares (fun _ => True) m''.scheduler) ∧
        e.isFlow = false := by
    intro m' ha hs
    obtain ⟨flow, hdel, -⟩ := deliver_eq result m'
    rw [hdel]
    exact ⟨congrArg (returned result) ha, hs⟩
  cases g.monitor with
  | none => exact hdeliver _ hactive (.refl _ _)
  | some object =>
    have hexit : Ends (synchronize (Sync.exit t object) { m with active := m.active.tail })
        (fun _ m' => m'.active = rest ∧ m.scheduler.Spares (fun _ => True) m'.scheduler)
        fun e m' => (m'.active = rest ∧ m.scheduler.Spares (fun _ => True) m'.scheduler) ∧
          e.isFlow = false := by
      have hq := synchronize_quiet (t := t) (Sync.exit_tame t object)
        { m with active := m.active.tail } hm.known
      exact hq.mono (fun _ m' hk => ⟨hk.active.trans hactive, hk.threads⟩)
        fun e m' hk => ⟨⟨hk.1.active.trans hactive, hk.1.threads⟩, hk.2⟩
    exact hexit.bind fun _ m' h => hdeliver m' h.1 h.2

theorem returnFrom_continues (hm : Front t g rest m) (hi : i.isReturn = true)
    (result : Option Value) : Ends (returnFrom t result m) (Continues f i rest) (Fails f.code i rest) := by
  refine (returnFrom_ends hm result).mono (fun _ m' h => .returns result hi h.1) ?_
  intro e m' ⟨⟨ha, _⟩, he⟩
  cases e with
  | exception r => exact .inr ⟨hi, ha⟩
  | fatal error => exact he
  | outOfFuel => exact rfl

end Calls

section Instructions

variable {α : Type} {t : ThreadId} {f : Frame} {rest : FrameStack} {i : Instruction}
  {after : CategoryStack} {m : Machine} {k : Nested}

/-- The frame once its counter has moved past the instruction. -/
abbrev advanced (f : Frame) : Frame := { f with pc := f.pc + 1 }

theorem taken_of_stack {s : List Value} (h : after = i.result?.toList ++ s.map Value.category) :
    Taken f i after { advanced f with stack := s } := ⟨⟨rfl, rfl, rfl⟩, h.symm⟩

theorem done_of_stack {s : List Value} (ht : i.isTerminator = false)
    (h : s.map Value.category = after) : Done f i after { advanced f with stack := s } :=
  ⟨rfl, rfl, h, .inl ⟨ht, rfl⟩⟩

/-- Nothing is taken off the stack. -/
theorem Site.taken (hs : Site f i after) (hi : ∀ op, i ≠ .stack op) (ho : i.operands = []) :
    Taken f i after (advanced f) := by
  obtain ⟨vs, s, hstack, hvs, hafter⟩ := hs.operands hi
  rw [ho] at hvs
  rw [List.map_eq_nil_iff.1 hvs, List.nil_append] at hstack
  rw [← hstack] at hafter
  exact ⟨⟨rfl, rfl, rfl⟩, hafter.symm⟩

theorem push_continues (hs : Site f i after) (hm : Front t (advanced f) rest m)
    (hi : ∀ op, i ≠ .stack op) (ho : i.operands = []) (ht : i.isTerminator = false) {v : Value}
    (hv : i.result? = some v.category) :
    Ends (frameStep (Frame.push v) m) (Continues f i rest) (Fails f.code i rest) := by
  refine frameStep_continues hs hm ⟨rfl, rfl, ?_, .inl ⟨ht, rfl⟩⟩
  have htaken := (hs.taken hi ho).stack
  rw [hv] at htaken
  exact htaken

theorem load_continues {index : Nat} {c : Category} (hs : Site f (.load index c) after)
    (hm : Front t (advanced f) rest m) :
    Ends (frameStep (Frame.getLocal index >>= Frame.push) m) (Continues f (.load index c) rest)
      (Fails f.code (.load index c) rest) := by
  have hi : ∀ op, Instruction.load index c ≠ .stack op := fun _ h => by cases h
  have hlt : index < f.locals.size := hs.local_lt hi rfl
  have hget : Frame.getLocal index (advanced f) = .ok f.locals[index] (advanced f) := by
    unfold Frame.getLocal
    rw [show (advanced f).locals[index]? = some f.locals[index] from Array.getElem?_eq_getElem hlt]
  have hx : (Frame.getLocal index >>= Frame.push) (advanced f) =
      .ok () ((advanced f).receive (some f.locals[index])) := bind_of_ok hget
  unfold frameStep
  rw [bind_of_ok (onTop_ok hm.active hx)]
  exact .obtains _ (.ofLocal (Array.getElem?_eq_getElem hlt)) rfl ((hs.taken hi rfl).awaits hs rfl)

/-- An operand gives way to a result of a known category. -/
theorem replace_continues (hs : Site f i after) (hm : Front t (advanced f) rest m)
    (hi : ∀ op, i ≠ .stack op) {c d : Category} (ho : i.operands = [c]) (hr : i.result? = some d)
    (ht : i.isTerminator = false) {x : FrameM Unit}
    (hx : ∀ (g : Frame) (v : Value) (s : List Value), g.stack = v :: s → Ends (x g)
      (fun _ g' => ∃ w : Value, g' = { g with stack := w :: s } ∧ w.category = d) Frame.Sane) :
    Ends (frameStep x m) (Continues f i rest) (Fails f.code i rest) := by
  obtain ⟨v, s, hstack, _, hafter⟩ := hs.operand hi ho
  refine frameStep_continues hs hm ((hx (advanced f) v s hstack).mono ?_ fun _ _ h => h)
  rintro _ g ⟨w, rfl, hw⟩
  refine done_of_stack ht ?_
  rw [hafter, hr, List.map_cons, hw]
  rfl

/-- A branch on operands. -/
theorem branch_continues (hs : Site f i after) (hm : Front t (advanced f) rest m) {x : FrameM Unit}
    {s : List Value} (hafter : after = s.map Value.category)
    (hx : Ends (x (advanced f)) (fun _ g => ∃ pc, g = { f with pc := pc, stack := s } ∧
      (i.isTerminator = false ∧ pc = f.pc + 1 ∨ pc ∈ i.branchTargets)) Frame.Sane) :
    Ends (frameStep x m) (Continues f i rest) (Fails f.code i rest) := by
  refine frameStep_continues hs hm (hx.mono ?_ fun _ _ h => h)
  rintro _ g ⟨pc, rfl, hpc⟩
  exact ⟨rfl, rfl, hafter.symm, hpc⟩

/-- A conditional branch leads to its target or past the instruction. -/
theorem branchIf_ends {g : Frame} {s : List Value} {target : Nat}
    (hg : g = { advanced f with stack := s }) (ht : i.isTerminator = false)
    (hb : i.branchTargets = [target]) (holds : Bool) :
    Ends (branchIf holds target g) (fun _ g => ∃ pc, g = { f with pc := pc, stack := s } ∧
      (i.isTerminator = false ∧ pc = f.pc + 1 ∨ pc ∈ i.branchTargets)) Frame.Sane := by
  subst hg
  rw [branchIf_eq]
  cases holds with
  | false => exact ⟨f.pc + 1, rfl, .inl ⟨ht, rfl⟩⟩
  | true => exact ⟨target, rfl, .inr (by rw [hb]; exact List.mem_singleton.2 rfl)⟩

/-- A reference made by the machine, with no operands. -/
theorem make_continues (hs : Site f i after) (hm : Front t (advanced f) rest m)
    (hi : ∀ op, i ≠ .stack op) (ho : i.operands = []) (hr : i.result? = some .one)
    (ht : i.isTerminator = false) {x : MachineM Ref} (hx : Quiet t x) :
    Ends (pushingRef x m) (Continues f i rest) (Fails f.code i rest) := by
  have htaken := hs.taken hi ho
  refine pushingRef_stays (t := t) hs ht hr ((hx.front hm (htaken.guarded hs)).mono ?_ fun _ _ h => h)
  exact fun _ m' hm' => ⟨advanced f, hm', htaken⟩

/-- An `int` is taken off the stack before a computation that leaves frames alone. -/
theorem popInt_front (hs : Site f i after) (hm : Front t (advanced f) rest m) {v : Value}
    {s : List Value} (hstack : f.stack = v :: s)
    (hafter : after = i.result?.toList ++ s.map Value.category) {x : Int32 → MachineM α}
    (hx : ∀ n, Quiet t (x n)) :
    Ends ((onTop Frame.popInt >>= x) m) (fun _ m' => ∃ g, Front t g rest m' ∧ Taken f i after g)
      (Fails f.code i rest) := by
  refine (hm.onTop (Frame.popInt_ends (f := advanced f) hstack)).bind fun n m' ⟨g, hm', hg⟩ => ?_
  subst hg
  have htaken := taken_of_stack (f := f) hafter
  exact ((hx n).front hm' (htaken.guarded hs)).mono (fun _ m'' h => ⟨_, h, htaken⟩) fun _ _ h => h

/-- An instruction without a result that ends after a computation with all operands taken. -/
theorem Taken.continues {g : Frame} (h : Taken f i after g) (hs : Site f i after)
    (hm : Front t g rest m) (ht : i.isTerminator = false) (hr : i.result? = none) {flow : Flow} :
    Continues f i rest flow m := by
  have hstep := (h.awaits hs ht).received none (by rw [hr]; rfl)
  exact .stays g hm.active h.past.code hstep fun _ => h.guarded hs

theorem executeArith_continues {op : ArithOp} {type : NumType} (hs : Site f (.arith op type) after)
    (hm : Front t (advanced f) rest m) :
    Ends (executeArith op type m) (Continues f (.arith op type) rest)
      (Fails f.code (.arith op type) rest) := by
  obtain ⟨v, w, s, hstack, _, _, hafter⟩ := hs.operands_two (fun _ h => by cases h) rfl
  unfold executeArith
  refine (hm.onTop (arithmetic_ends (f := advanced f) op type hstack)).bind
    fun result m₁ ⟨g, h₁, hg, hcat⟩ => ?_
  subst hg
  have htaken := taken_of_stack (f := f) hafter
  cases result with
  | none => exact (raise_raises _ _).front h₁ (htaken.guarded hs)
  | some x =>
    have hpush : Ends (Frame.push x { advanced f with stack := s })
        (fun _ g => g = { advanced f with stack := x :: s }) Frame.Sane := rfl
    refine (h₁.onTop hpush).bind fun _ m₂ ⟨g, h₂, hg⟩ => ?_
    subst hg
    have hdone : Done f (.arith op type) after { advanced f with stack := x :: s } := by
      refine done_of_stack rfl ?_
      rw [hafter, List.map_cons, hcat x rfl]
      rfl
    exact .stays _ h₂.active rfl (hdone.inStep hs) fun hp => by cases hp

/-- As many operands as there are, whatever they are, are taken at once. -/
theorem popN_front (hs : Site f i after) (hi : ∀ op, i ≠ .stack op)
    (hm : Front t (advanced f) rest m) {n : Nat} (hn : n = i.operands.length) :
    Ends (onTop (Frame.popN n) m) (fun _ m' => Front t (f.passed i) rest m' ∧ Taken f i after (f.passed i))
      (Fails f.code i rest) := by
  obtain ⟨vs, s, hstack, hvs, hafter⟩ := hs.operands hi
  have hlen : vs.length = i.operands.length := by rw [← hvs, List.length_map]
  have hle : n ≤ (advanced f).stack.length := by
    show n ≤ f.stack.length
    rw [hstack, List.length_append]
    omega
  have htaken : Taken f i after (f.passed i) := by
    rw [passed_eq hstack hlen]
    exact taken_of_stack hafter
  refine (hm.onTop (Frame.popN_ends (f := advanced f) hle)).mono ?_ fun _ _ h => h
  rintro _ m₁ ⟨g, h₁, hg⟩
  subst hg hn
  exact ⟨h₁, htaken⟩

/-- A call takes its arguments and hands them on. -/
theorem popN_invoke (hs : Site f i after) (hi : ∀ op, i ≠ .stack op)
    (ht : i.isTerminator = false) (hm : Front t (advanced f) rest m) {n : Nat}
    (hn : n = i.operands.length) {x : List Value → MachineM Flow}
    (hx : ∀ (args : List Value) (m' : Machine), Front t (f.passed i) rest m' → (f.passed i).Awaits i.result? →
      (f.passed i).Yields i → Ends (x args m') (Continues f i rest) (Fails f.code i rest)) :
    Ends ((onTop (Frame.popN n) >>= x) m) (Continues f i rest) (Fails f.code i rest) :=
  (popN_front hs hi hm hn).bind fun args m₁ ⟨h₁, htaken⟩ =>
    hx args m₁ h₁ (htaken.awaits hs ht) (htaken.yields hs)

theorem invokeVirtual_continues (hk : k.Quiet) (hs : Site f i after) (hi : ∀ op, i ≠ .stack op)
    (ht : i.isTerminator = false) (hcall : i.isCall = true) (hm : Front t (advanced f) rest m)
    (signature : SignatureId) {params : Nat} (hn : params + 1 = i.operands.length) :
    Ends (invokeVirtual k t signature params m) (Continues f i rest) (Fails f.code i rest) := by
  refine popN_invoke hs hi ht hm hn fun args m₁ h₁ hw hy => ?_
  exact ((selectVirtual_quiet _ _).front h₁ hw.guarded).bind fun method m₂ h₂ =>
    invokeMethod_continues hk h₂ hcall hw hy method args

theorem invokeSpecial_continues (hk : k.Quiet) (hs : Site f i after) (hi : ∀ op, i ≠ .stack op)
    (ht : i.isTerminator = false) (hcall : i.isCall = true) (hm : Front t (advanced f) rest m)
    (method : MethodId) {params : Nat} (hn : params + 1 = i.operands.length) :
    Ends (invokeSpecial k t method params m) (Continues f i rest) (Fails f.code i rest) := by
  refine popN_invoke hs hi ht hm hn fun args m₁ h₁ hw hy => ?_
  split
  · exact raiseNullPointer_raises.front h₁ hw.guarded
  · exact invokeMethod_continues hk h₁ hcall hw hy method args

/-- An element that was read is there. -/
theorem loadElement_reads {array : Ref} {index : Int32} {v : Value} {m' : Machine}
    (h : loadElement array index m = .ok v m') : ∃ type elements,
      (m'.heap.get? array).bind Object.elements? = some (type, elements) ∧
        (position? index elements.size).bind (elements[·]?) = some v := by
  obtain ⟨elements, m₁, harray, h⟩ := bind_ok.1 h
  unfold elementsOf at harray
  split at harray
  · exact absurd harray (raise_ne_ok _ _)
  · rw [bind_get] at harray
    cases hfound : (m.heap.get? array).bind Object.elements? with
    | none =>
      rw [hfound] at harray
      cases harray
    | some found =>
      rw [hfound] at harray
      cases harray
      cases hget : (position? index found.2.size).bind (found.2[·]?) with
      | none =>
        rw [hget] at h
        exact absurd h (raise_ne_ok _ _)
      | some w =>
        rw [hget] at h
        cases h
        exact ⟨found.1, found.2, hfound, hget⟩

/-- A field that was read is there. -/
theorem readField_reads {object : Ref} {slot : Nat} {v : Value} {m' : Machine}
    (h : readField object slot m = .ok v m') : (m'.heap.get? object).bind (·.fields[slot]?) = some v := by
  unfold readField at h
  rw [bind_get] at h
  cases hfound : (m.heap.get? object).bind (·.fields[slot]?) with
  | none =>
    rw [hfound] at h
    cases h
  | some w =>
    rw [hfound] at h
    cases h
    exact hfound

theorem arrayLoad_continues {kind : Kind} (hs : Site f (.arrayLoad kind) after)
    (hm : Front t (advanced f) rest m) :
    Ends (executeInstruction k t (.arrayLoad kind) m) (Continues f (.arrayLoad kind) rest)
      (Fails f.code (.arrayLoad kind) rest) := by
  obtain ⟨v, w, s, hstack, _, _, hafter⟩ := hs.operands_two (fun _ h => by cases h) rfl
  have hpassed : f.passed (.arrayLoad kind) = { advanced f with stack := s } :=
    passed_eq (show f.stack = [v, w] ++ s from hstack) rfl
  refine pushing_obtains (t := t) hs rfl ?_
  rw [hpassed]
  refine (hm.onTop (Frame.popInt_takes (f := advanced f) hstack)).bind fun index m₁ ⟨g, h₁, hv, hg⟩ => ?_
  subst hv hg
  refine (h₁.onTop (Frame.popRef_takes rfl)).bind fun array m₂ ⟨g, h₂, hw, hg⟩ => ?_
  subst hw hg
  have htaken := taken_of_stack (f := f) hafter
  refine ((loadElement_quiet array index).front h₂ (htaken.guarded hs)).with_run fun x m₃ hrun h₃ => ?_
  obtain ⟨type, elements, ha, hget⟩ := loadElement_reads hrun
  exact ⟨⟨h₃, htaken⟩, .ofArray hstack ha hget⟩

theorem arrayStore_continues {kind : Kind} (hs : Site f (.arrayStore kind) after)
    (hm : Front t (advanced f) rest m) :
    Ends (executeInstruction k t (.arrayStore kind) m) (Continues f (.arrayStore kind) rest)
      (Fails f.code (.arrayStore kind) rest) := by
  obtain ⟨u, v, w, s, hstack, hafter⟩ := hs.operands_three (fun _ h => by cases h) rfl
  have hpop : Ends (Frame.pop (advanced f)) (fun _ g => g = { advanced f with stack := v :: w :: s })
      Frame.Sane := by
    rw [Frame.pop_eq (f := advanced f) hstack]
    exact rfl
  refine (hm.onTop hpop).bind fun x m₁ ⟨g, h₁, hg⟩ => ?_
  subst hg
  refine (h₁.onTop (Frame.popInt_ends rfl)).bind fun index m₂ ⟨g, h₂, hg⟩ => ?_
  subst hg
  refine (h₂.onTop (Frame.popRef_ends rfl)).bind fun array m₃ ⟨g, h₃, hg⟩ => ?_
  subst hg
  have htaken := taken_of_stack (f := f) hafter
  exact ((storeElement_quiet array index x).front h₃ (htaken.guarded hs)).bind fun _ m₄ h₄ =>
    htaken.continues hs h₄ rfl rfl

/-- A value and an object are taken before a field is written. -/
theorem popStore_continues (hs : Site f i after) (hm : Front t (advanced f) rest m)
    (hi : ∀ op, i ≠ .stack op) {c d : Category} (ho : i.operands = [c, d])
    (ht : i.isTerminator = false) (hr : i.result? = none) {x : Value × Ref → MachineM Flow}
    (hx : ∀ p, Quiet t (x p)) :
    Ends ((onTop popStore >>= x) m) (Continues f i rest) (Fails f.code i rest) := by
  obtain ⟨v, w, s, hstack, _, _, hafter⟩ := hs.operands_two hi ho
  refine (hm.onTop (popStore_ends (f := advanced f) hstack)).bind fun p m₁ ⟨g, h₁, hg⟩ => ?_
  subst hg
  have htaken := taken_of_stack (f := f) hafter
  exact ((hx p).front h₁ (htaken.guarded hs)).mono (fun _ m₂ h₂ => htaken.continues hs h₂ ht hr)
    fun _ _ h => h

end Instructions

end Machine

end ClassMachine
