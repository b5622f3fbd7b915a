import ClassMachine.Proofs.Machine.InStep
import ClassMachine.Proofs.Machine.OperandSlots

/-!
One case for each instruction: from a frame in step, control goes on as verification foresaw.
-/
namespace ClassMachine.Machine
open Stateful

variable {t : ThreadId} {f : Frame} {rest : FrameStack} {i : Instruction} {after : CategoryStack}
  {m : Machine} {k : Nested}

theorem raiseMissing_raises {α : Type} (u : Unresolved) :
    Raises t (raiseMissing u : MachineM α) := by
  unfold raiseMissing
  refine .bind .get fun m => ?_
  cases m.config.missingSymbol with
  | abort => exact .throw rfl
  | _ => exact raise_raises _ _

/-- The counter alone has moved on. -/
theorem Site.advanced_guarded (hs : Site f i after) : (advanced f).Guarded := by
  have hpast : f.Past (advanced f) := ⟨rfl, rfl, rfl⟩
  exact hpast.guarded hs.inStep hs.edges

theorem store_continues {index : Nat} {c : Category} (hs : Site f (.store index c) after)
    (hm : Front t (advanced f) rest m) :
    Ends (frameStep (Frame.store index) m) (Continues f (.store index c) rest)
      (Fails f.code (.store index c) rest) := by
  have hi : ∀ op, Instruction.store index c ≠ .stack op := fun _ h => by cases h
  obtain ⟨v, s, hstack, _, hafter⟩ := hs.operand hi rfl
  have hlt : index < (advanced f).locals.size := hs.local_lt hi rfl
  refine frameStep_continues hs hm ((Frame.store_ends (f := advanced f) hstack hlt).mono ?_
    fun _ _ h => h)
  rintro _ g ⟨hgs, hgc, hgp, hgl⟩
  refine ⟨hgc, hgl, ?_, .inl ⟨rfl, hgp⟩⟩
  unfold Frame.categories
  rw [hgs, hafter]
  rfl

theorem increment_continues {index : Nat} {delta : Int16} (hs : Site f (.increment index delta) after)
    (hm : Front t (advanced f) rest m) :
    Ends (frameStep (Frame.increment index delta) m) (Continues f (.increment index delta) rest)
      (Fails f.code (.increment index delta) rest) := by
  have hi : ∀ op, Instruction.increment index delta ≠ .stack op := fun _ h => by cases h
  have hlt : index < (advanced f).locals.size := hs.local_lt hi rfl
  refine frameStep_continues hs hm ((Frame.increment_ends (f := advanced f) hlt delta).mono ?_
    fun _ _ h => h)
  rintro _ g ⟨hgs, hgc, hgp, hgl⟩
  refine ⟨hgc, hgl, ?_, .inl ⟨rfl, hgp⟩⟩
  unfold Frame.categories
  rw [hgs]
  exact (hs.taken hi rfl).stack

theorem rearrange_continues {op : StackOp} (hs : Site f (.stack op) after)
    (hm : Front t (advanced f) rest m) :
    Ends (frameStep (Frame.rearrange op) m) (Continues f (.stack op) rest)
      (Fails f.code (.stack op) rest) := by
  have hsim : op.simulate f.pc (advanced f).categories = .ok after := hs.edges.simulated
  obtain ⟨s, hop, hcat⟩ := Frame.rearrange_ends hsim
  refine frameStep_continues hs hm ?_
  rw [hop]
  exact done_of_stack rfl hcat

theorem compare_continues {op : CompareOp} (hs : Site f (.compare op) after)
    (hm : Front t (advanced f) rest m) :
    Ends (frameStep (compareTop op) m) (Continues f (.compare op) rest)
      (Fails f.code (.compare op) rest) := by
  obtain ⟨v, w, s, hstack, _, _, hafter⟩ := hs.operands_two (fun _ h => by cases h) rfl
  refine frameStep_continues hs hm ((compareTop_ends (f := advanced f) op hstack).mono ?_
    fun _ _ h => h)
  rintro _ g ⟨x, rfl, hx⟩
  refine done_of_stack rfl ?_
  rw [hafter, List.map_cons, hx]
  rfl

theorem narrow_continues {kind : Kind} (hs : Site f (.narrow kind) after)
    (hm : Front t (advanced f) rest m) :
    Ends (executeInstruction k t (.narrow kind) m) (Continues f (.narrow kind) rest)
      (Fails f.code (.narrow kind) rest) := by
  refine replace_continues hs hm (fun _ h => by cases h) rfl rfl rfl fun g v s hstack => ?_
  refine (Frame.popInt_ends hstack).bind fun n g' hg => ?_
  subst hg
  exact ⟨(Value.int n).narrowTo kind, rfl, by cases kind <;> rfl⟩

/-- A branch on one operand. -/
theorem branchOne_continues {α : Type} (hs : Site f i after) (hm : Front t (advanced f) rest m)
    (hi : ∀ op, i ≠ .stack op) {c : Category} (ho : i.operands = [c]) (hr : i.result? = none)
    {pop : FrameM α} {next : α → FrameM Unit}
    (hpop : ∀ (g : Frame) (v : Value) (s : List Value), g.stack = v :: s →
      Ends (pop g) (fun _ g' => g' = { g with stack := s }) Frame.Sane)
    (hnext : ∀ (a : α) (s : List Value), Ends (next a { advanced f with stack := s })
      (fun _ g => ∃ pc, g = { f with pc := pc, stack := s } ∧
        (i.isTerminator = false ∧ pc = f.pc + 1 ∨ pc ∈ i.branchTargets)) Frame.Sane) :
    Ends (frameStep (pop >>= next) m) (Continues f i rest) (Fails f.code i rest) := by
  obtain ⟨v, s, hstack, _, hafter⟩ := hs.operand hi ho
  rw [hr] at hafter
  refine branch_continues hs hm hafter ((hpop (advanced f) v s hstack).bind fun a g hg => ?_)
  subst hg
  exact hnext a s

/-- A branch on two operands. -/
theorem branchTwo_continues {α : Type} (hs : Site f i after) (hm : Front t (advanced f) rest m)
    (hi : ∀ op, i ≠ .stack op) {c d : Category} (ho : i.operands = [c, d]) (hr : i.result? = none)
    (ht : i.isTerminator = false) {target : Nat} (hb : i.branchTargets = [target])
    {pop : FrameM α} {test : α → α → Bool}
    (hpop : ∀ (g : Frame) (v : Value) (s : List Value), g.stack = v :: s →
      Ends (pop g) (fun _ g' => g' = { g with stack := s }) Frame.Sane) :
    Ends (frameStep (pop >>= fun b => pop >>= fun a => branchIf (test a b) target) m)
      (Continues f i rest) (Fails f.code i rest) := by
  obtain ⟨v, w, s, hstack, _, _, hafter⟩ := hs.operands_two hi ho
  rw [hr] at hafter
  refine branch_continues hs hm hafter ((hpop (advanced f) v (w :: s) hstack).bind fun b g hg => ?_)
  subst hg
  refine (hpop _ w s rfl).bind fun a g hg => ?_
  subst hg
  exact branchIf_ends (f := f) rfl ht hb _

theorem getStatic_quiet (hk : k.Quiet) (owner : ClassId) (slot : Nat) :
    Quiet t (getStatic k t owner slot) := by
  unfold getStatic
  refine (ensureInitialized_quiet hk owner).bind fun _ => Quiet.get.bind fun m => ?_
  split
  · exact .pure _
  · exact .inconsistent rfl

/-- A static that was read is there. -/
theorem getStatic_reads {owner : ClassId} {slot : Nat} {v : Value} {m' : Machine}
    (h : getStatic k t owner slot m = .ok v m') : m'.statics.get? owner slot = some v := by
  obtain ⟨_, m₁, -, h⟩ := bind_ok.1 h
  rw [bind_get] at h
  cases hfound : m₁.statics.get? owner slot with
  | none =>
    rw [hfound] at h
    cases h
  | some w =>
    rw [hfound] at h
    cases h
    exact hfound

theorem getStatic_continues (hk : k.Quiet) {owner : ClassId} {slot : Nat} {kind : Kind}
    (hs : Site f (.getStatic owner slot kind) after) (hm : Front t (advanced f) rest m) :
    Ends (executeInstruction k t (.getStatic owner slot kind) m)
      (Continues f (.getStatic owner slot kind) rest)
      (Fails f.code (.getStatic owner slot kind) rest) := by
  have htaken := hs.taken (fun _ h => by cases h) rfl
  refine pushing_obtains (t := t) hs rfl
    (((getStatic_quiet hk owner slot).front hm hs.advanced_guarded).with_run fun v m' hrun hm' => ?_)
  exact ⟨⟨hm', htaken⟩, .ofStatics (getStatic_reads hrun)⟩

theorem putStatic_continues (hk : k.Quiet) {owner : ClassId} {slot : Nat} {kind : Kind}
    (hs : Site f (.putStatic owner slot kind) after) (hm : Front t (advanced f) rest m) :
    Ends (executeInstruction k t (.putStatic owner slot kind) m)
      (Continues f (.putStatic owner slot kind) rest)
      (Fails f.code (.putStatic owner slot kind) rest) := by
  obtain ⟨v, s, hstack, _, hafter⟩ := hs.operand (fun _ h => by cases h) rfl
  have htaken := taken_of_stack (f := f) hafter
  have hput : Ends (putStatic k t owner slot kind m)
      (fun _ m' => Front t { advanced f with stack := s } rest m')
      (Fails f.code (.putStatic owner slot kind) rest) := by
    unfold putStatic
    refine ((ensureInitialized_quiet hk owner).front hm hs.advanced_guarded).bind fun _ m₁ h₁ => ?_
    have hpop : Ends (Frame.pop (advanced f)) (fun _ g => g = { advanced f with stack := s })
        Frame.Sane := by
      rw [Frame.pop_eq (f := advanced f) hstack]
      exact rfl
    refine (h₁.onTop hpop).bind fun x m₂ ⟨g, h₂, hg⟩ => ?_
    subst hg
    rw [bind_get]
    cases m₂.statics.set? owner slot (x.narrowTo kind) with
    | none => exact rfl
    | some statics => exact ⟨h₂.active, h₂.known⟩
  exact hput.bind fun _ m' hm' => htaken.continues hs hm' rfl rfl

theorem invokeStatic_continues (hk : k.Quiet) {method : MethodId} {site : CallSite}
    (hs : Site f (.invokeStatic method site) after) (hm : Front t (advanced f) rest m) :
    Ends (executeInstruction k t (.invokeStatic method site) m)
      (Continues f (.invokeStatic method site) rest)
      (Fails f.code (.invokeStatic method site) rest) := by
  refine ((ensureInitialized_quiet hk method.owner).front hm hs.advanced_guarded).bind
    fun _ m₁ h₁ => ?_
  have hn : site.params.length = (Instruction.invokeStatic method site).operands.length :=
    List.length_reverse.symm
  exact popN_invoke hs (fun _ h => by cases h) rfl h₁ hn fun args m₂ h₂ hw hy =>
    invokeMethod_continues hk h₂ rfl hw hy method args

/-- A field is read out of an object taken off the stack. -/
theorem readFrom_continues (hs : Site f i after) (hm : Front t (advanced f) rest m)
    (hi : ∀ op, i ≠ .stack op) (ho : i.operands = [.one]) (ht : i.isTerminator = false)
    {α : Type} {find : Ref → MachineM α} {slot : α → Nat} (hfind : ∀ object, Quiet t (find object))
    (hreads : ∀ {object : Ref} {s : List Value} {a : α} {v : Value} {m' : Machine}, f.stack = .ref object :: s →
      (m'.heap.get? object).bind (·.fields[slot a]?) = some v → Reads f m' i v) :
    Ends (pushing (onTop Frame.popRef >>= fun object => find object >>= fun a => readField object (slot a)) m)
      (Continues f i rest) (Fails f.code i rest) := by
  obtain ⟨v, s, hstack, _, hafter⟩ := hs.operand hi ho
  have hpassed : f.passed i = { advanced f with stack := s } :=
    passed_eq (show f.stack = [v] ++ s from hstack) (by rw [ho]; rfl)
  have htaken := taken_of_stack (f := f) hafter
  refine pushing_obtains (t := t) hs ht ?_
  rw [hpassed]
  refine (hm.onTop (Frame.popRef_takes (f := advanced f) hstack)).bind fun object m₁ ⟨g, h₁, hv, hg⟩ => ?_
  subst hv hg
  refine ((hfind object).front h₁ (htaken.guarded hs)).bind fun a m₂ h₂ => ?_
  refine ((readField_quiet object (slot a)).front h₂ (htaken.guarded hs)).with_run fun x m₃ hrun h₃ => ?_
  exact ⟨⟨h₃, htaken⟩, hreads hstack (readField_reads hrun)⟩

/-- An `int` is told about an object taken off the stack. -/
theorem askInt_continues (hs : Site f i after) (hm : Front t (advanced f) rest m)
    (hi : ∀ op, i ≠ .stack op) (ho : i.operands = [.one]) (hr : i.result? = some .one)
    (ht : i.isTerminator = false) {x : Ref → MachineM Int32} (hx : ∀ object, Quiet t (x object)) :
    Ends (pushing (onTop Frame.popRef >>= fun object => x object >>= fun n => pure (.int n)) m)
      (Continues f i rest) (Fails f.code i rest) := by
  obtain ⟨v, s, hstack, _, hafter⟩ := hs.operand hi ho
  have htaken := taken_of_stack (f := f) hafter
  refine pushing_stays (t := t) hs ht ?_
  refine (hm.onTop (Frame.popRef_ends (f := advanced f) hstack)).bind fun r m₁ ⟨g, h₁, hg⟩ => ?_
  subst hg
  exact ((hx r).front h₁ (htaken.guarded hs)).bind fun n m₂ h₂ => ⟨_, h₂, htaken, hr.symm⟩

/-- An array is made of a length taken off the stack. -/
theorem makeArray_continues (hs : Site f i after) (hm : Front t (advanced f) rest m)
    (hi : ∀ op, i ≠ .stack op) (ho : i.operands = [.one]) (hr : i.result? = some .one)
    (ht : i.isTerminator = false) {x : Int32 → MachineM Ref} (hx : ∀ length, Quiet t (x length)) :
    Ends (pushingRef (onTop Frame.popInt >>= x) m) (Continues f i rest) (Fails f.code i rest) := by
  obtain ⟨v, s, hstack, _, hafter⟩ := hs.operand hi ho
  exact pushingRef_stays (t := t) hs ht hr (popInt_front hs hm hstack hafter hx)

theorem multiNewArray_continues {id : ClassId} {dims : Nat} (hs : Site f (.multiNewArray id dims) after)
    (hm : Front t (advanced f) rest m) :
    Ends (executeInstruction k t (.multiNewArray id dims) m)
      (Continues f (.multiNewArray id dims) rest)
      (Fails f.code (.multiNewArray id dims) rest) := by
  have hn : dims = (Instruction.multiNewArray id dims).operands.length := List.length_replicate.symm
  refine pushingRef_stays (t := t) hs rfl rfl ?_
  show Ends (newNestedArray id dims m) _ _
  unfold newNestedArray
  refine (popN_front hs (fun _ h => by cases h) hm hn).bind fun args m₁ ⟨h₁, htaken⟩ => ?_
  have hguard := htaken.guarded hs
  cases (args.map fun v => v.int?.getD 0).find? (· < 0) with
  | some negative =>
    exact ((raise_quiet _ _).front h₁ hguard).mono (fun _ _ h => ⟨_, h, htaken⟩) fun _ _ h => h
  | none =>
    exact ((newMultiArray_quiet _ _).front h₁ hguard).mono (fun _ _ h => ⟨_, h, htaken⟩)
      fun _ _ h => h

theorem throw_continues (hs : Site f .throw after) (hm : Front t (advanced f) rest m) :
    Ends (executeInstruction k t .throw m) (Continues f .throw rest)
      (Fails f.code .throw rest) := by
  obtain ⟨v, s, hstack, _, hafter⟩ := hs.operand (fun _ h => by cases h) rfl
  have hguard := (taken_of_stack (f := f) hafter).guarded hs
  refine (hm.onTop (Frame.popRef_ends (f := advanced f) hstack)).bind fun r m₁ ⟨g, h₁, hg⟩ => ?_
  subst hg
  split
  · exact raiseNullPointer_raises.front h₁ hguard
  · exact (Raises.throw rfl).front h₁ hguard

theorem checkCast_continues {id : ClassId} (hs : Site f (.checkCast id) after)
    (hm : Front t (advanced f) rest m) :
    Ends (executeInstruction k t (.checkCast id) m) (Continues f (.checkCast id) rest)
      (Fails f.code (.checkCast id) rest) := by
  obtain ⟨v, s, hstack, hv, hafter⟩ := hs.operand (fun _ h => by cases h) rfl
  have hpeek : Ends (Frame.peek (advanced f)) (fun _ g => g = advanced f) Frame.Sane := by
    unfold Frame.peek
    rw [show (advanced f).stack = v :: s from hstack]
    exact rfl
  have hcast : Ends (checkCast id m) (fun _ m' => Front t (advanced f) rest m')
      (Fails f.code (.checkCast id) rest) := by
    unfold checkCast
    refine (hm.onTop hpeek).bind fun top m₁ ⟨g, h₁, hg⟩ => ?_
    subst hg
    dsimp only
    refine Quiet.front ?_ h₁ hs.advanced_guarded
    split
    · refine (classOf_quiet _).bind fun actual => (Quiet.onClasses _).bind fun sub => ?_
      split
      · exact Quiet.get.bind fun _ => raise_quiet _ _
      · exact .pure _
    · exact .pure _
  refine hcast.bind fun _ m' hm' => ?_
  have hdone : Done f (.checkCast id) after (advanced f) := by
    refine ⟨rfl, rfl, ?_, .inl ⟨rfl, rfl⟩⟩
    unfold Frame.categories
    rw [hafter, show (advanced f).stack = v :: s from hstack, List.map_cons, hv]
    rfl
  exact .stays _ hm'.active rfl (hdone.inStep hs) fun hp => by cases hp

theorem instanceOf_continues {id : ClassId} (hs : Site f (.instanceOf id) after)
    (hm : Front t (advanced f) rest m) :
    Ends (executeInstruction k t (.instanceOf id) m) (Continues f (.instanceOf id) rest)
      (Fails f.code (.instanceOf id) rest) := by
  obtain ⟨v, s, hstack, _, hafter⟩ := hs.operand (fun _ h => by cases h) rfl
  have htaken := taken_of_stack (f := f) hafter
  refine pushing_stays (t := t) hs rfl ?_
  show Ends (instanceOf id m) _ _
  unfold instanceOf
  refine (hm.onTop (Frame.popRef_ends (f := advanced f) hstack)).bind fun r m₁ ⟨g, h₁, hg⟩ => ?_
  subst hg
  rw [bind_get]
  cases m₁.liveClass? r with
  | none => exact ⟨_, h₁, htaken, rfl⟩
  | some actual =>
    exact ((Quiet.onClasses _).front h₁ (htaken.guarded hs)).bind fun sub m₂ h₂ =>
      ⟨_, h₂, htaken, rfl⟩

theorem monitorEnter_continues (hs : Site f .monitorEnter after) (hm : Front t (advanced f) rest m) :
    Ends (monitorEnter t m) (Continues f .monitorEnter rest) (Fails f.code .monitorEnter rest) := by
  obtain ⟨v, s, hstack, _, hafter⟩ := hs.operand (fun _ h => by cases h) rfl
  have htaken := taken_of_stack (f := f) hafter
  unfold monitorEnter
  refine (hm.onTop (Frame.popRef_ends (f := advanced f) hstack)).bind fun r m₁ ⟨g, h₁, hg⟩ => ?_
  subst hg
  split
  · exact raiseNullPointer_raises.front h₁ (htaken.guarded hs)
  · refine ((synchronize_quiet (Sync.enter_tame t r)).front h₁ (htaken.guarded hs)).bind
      fun outcome m₂ h₂ => ?_
    cases outcome with
    | acquired => exact htaken.continues hs h₂ rfl rfl
    | blocked => exact htaken.continues hs h₂ rfl rfl

theorem monitorExit_continues (hs : Site f .monitorExit after) (hm : Front t (advanced f) rest m) :
    Ends (monitorExit t m) (Continues f .monitorExit rest) (Fails f.code .monitorExit rest) := by
  obtain ⟨v, s, hstack, _, hafter⟩ := hs.operand (fun _ h => by cases h) rfl
  have htaken := taken_of_stack (f := f) hafter
  unfold monitorExit
  refine (hm.onTop (Frame.popRef_ends (f := advanced f) hstack)).bind fun r m₁ ⟨g, h₁, hg⟩ => ?_
  subst hg
  split
  · exact raiseNullPointer_raises.front h₁ (htaken.guarded hs)
  · exact ((synchronize_quiet (Sync.exit_tame t r)).front h₁ (htaken.guarded hs)).bind
      fun _ m₂ h₂ => htaken.continues hs h₂ rfl rfl

theorem returnValue_continues {c : Category} (hs : Site f (.returnValue c) after)
    (hm : Front t (advanced f) rest m) :
    Ends (executeInstruction k t (.returnValue c) m) (Continues f (.returnValue c) rest)
      (Fails f.code (.returnValue c) rest) := by
  obtain ⟨v, s, hstack, _, hafter⟩ := hs.operand (fun _ h => by cases h) rfl
  have hpop : Ends (Frame.pop (advanced f)) (fun _ g => g = { advanced f with stack := s })
      Frame.Sane := by
    rw [Frame.pop_eq (f := advanced f) hstack]
    exact rfl
  exact (hm.onTop hpop).bind fun x m₁ ⟨g, h₁, _⟩ => returnFrom_continues h₁ rfl (some x)

/-- An instruction of a frame in step, whatever it is. -/
theorem executeInstruction_continues (hk : k.Quiet) (hs : Site f i after)
    (hm : Front t (advanced f) rest m) :
    Ends (executeInstruction k t i m) (Continues f i rest) (Fails f.code i rest) := by
  cases i with
  | nop => exact (hs.taken (fun _ h => by cases h) rfl).continues hs hm rfl rfl
  | pushInt v => exact push_continues hs hm (fun _ h => by cases h) rfl rfl rfl
  | pushLong v => exact push_continues hs hm (fun _ h => by cases h) rfl rfl rfl
  | pushFloat b => exact push_continues hs hm (fun _ h => by cases h) rfl rfl rfl
  | pushDouble b => exact push_continues hs hm (fun _ h => by cases h) rfl rfl rfl
  | pushNull => exact push_continues hs hm (fun _ h => by cases h) rfl rfl rfl
  | pushString text =>
    exact make_continues hs hm (fun _ h => by cases h) rfl rfl rfl (internString_quiet text)
  | pushClass id => exact make_continues hs hm (fun _ h => by cases h) rfl rfl rfl (mirror_quiet id)
  | load index c => exact load_continues hs hm
  | store index c => exact store_continues hs hm
  | increment index delta => exact increment_continues hs hm
  | arrayLoad kind => exact arrayLoad_continues hs hm
  | arrayStore kind => exact arrayStore_continues hs hm
  | stack op => exact rearrange_continues hs hm
  | arith op type => exact executeArith_continues hs hm
  | neg type =>
    exact replace_continues hs hm (fun _ h => by cases h) rfl rfl rfl fun _ _ _ => negate_ends type
  | convert source target =>
    exact replace_continues hs hm (fun _ h => by cases h) rfl rfl rfl fun _ _ _ => convert_ends target
  | narrow kind => exact narrow_continues hs hm
  | compare op => exact compare_continues hs hm
  | ifZero cond target =>
    exact branchOne_continues hs hm (fun _ h => by cases h) rfl rfl (fun _ _ _ => Frame.popInt_ends)
      fun _ _ => branchIf_ends (f := f) rfl rfl rfl _
  | ifCmp cond target =>
    exact branchTwo_continues hs hm (fun _ h => by cases h) rfl rfl rfl rfl
      fun _ _ _ => Frame.popInt_ends
  | ifRefEq equal target =>
    exact branchTwo_continues hs hm (fun _ h => by cases h) rfl rfl rfl rfl
      fun _ _ _ => Frame.popRef_ends
  | ifNull null target =>
    exact branchOne_continues hs hm (fun _ h => by cases h) rfl rfl (fun _ _ _ => Frame.popRef_ends)
      fun _ _ => branchIf_ends (f := f) rfl rfl rfl _
  | goto target =>
    have hafter := (hs.taken (fun _ h => by cases h) rfl).stack.symm
    exact branch_continues hs hm hafter ⟨target, rfl, .inr (List.mem_singleton.2 rfl)⟩
  | tableSwitch low targets default =>
    exact branchOne_continues hs hm (fun _ h => by cases h) rfl rfl (fun _ _ _ => Frame.popInt_ends)
      fun key _ => ⟨_, rfl, .inr (tableTarget_mem low targets default key)⟩
  | lookupSwitch pairs default =>
    exact branchOne_continues hs hm (fun _ h => by cases h) rfl rfl (fun _ _ _ => Frame.popInt_ends)
      fun key _ => ⟨_, rfl, .inr (lookupTarget_mem pairs default key)⟩
  | returnVoid => exact returnFrom_continues hm rfl none
  | returnValue c => exact returnValue_continues hs hm
  | getStatic owner slot kind => exact getStatic_continues hk hs hm
  | putStatic owner slot kind => exact putStatic_continues hk hs hm
  | getField name descriptor kind =>
    exact readFrom_continues hs hm (fun _ h => by cases h) rfl rfl
      (fun object => fieldSlot_quiet object name descriptor) .ofObject
  | putField name descriptor kind =>
    exact popStore_continues hs hm (fun _ h => by cases h) rfl rfl rfl fun (v, object) =>
      (fieldSlot_quiet object name descriptor).bind fun slot =>
        (writeField_quiet object slot _).bind fun _ => .pure _
  | getFieldSlot slot kind =>
    exact readFrom_continues hs hm (fun _ h => by cases h) rfl rfl classOf_quiet .ofSlot
  | putFieldSlot slot kind =>
    exact popStore_continues hs hm (fun _ h => by cases h) rfl rfl rfl fun (v, object) =>
      (classOf_quiet object).bind fun _ => (writeField_quiet object slot _).bind fun _ => .pure _
  | invokeStatic method site => exact invokeStatic_continues hk hs hm
  | invokeSpecial method site =>
    exact invokeSpecial_continues hk hs (fun _ h => by cases h) rfl rfl hm method
      (by simp [Instruction.operands])
  | invokeVirtual signature site =>
    exact invokeVirtual_continues hk hs (fun _ h => by cases h) rfl rfl hm signature
      (by simp [Instruction.operands])
  | invokeInterface signature site =>
    exact invokeVirtual_continues hk hs (fun _ h => by cases h) rfl rfl hm signature
      (by simp [Instruction.operands])
  | invokeVoidNoArgs signature =>
    exact invokeVirtual_continues hk hs (fun _ h => by cases h) rfl rfl hm signature rfl
  | new id =>
    exact make_continues hs hm (fun _ h => by cases h) rfl rfl rfl
      ((ensureInitialized_quiet hk id).bind fun _ => newInstance_quiet id)
  | newArray kind =>
    refine makeArray_continues hs hm (fun _ h => by cases h) rfl rfl rfl fun length => ?_
    refine (Quiet.onClasses _).bind fun found => ?_
    cases found with
    | ok id => exact newArray_quiet id kind length
    | error e => exact .inconsistent rfl
  | newRefArray id =>
    exact makeArray_continues hs hm (fun _ h => by cases h) rfl rfl rfl fun length =>
      newArray_quiet id .reference length
  | multiNewArray id dims => exact multiNewArray_continues hs hm
  | arrayLength =>
    exact askInt_continues hs hm (fun _ h => by cases h) rfl rfl rfl arrayLength_quiet
  | throw => exact throw_continues hs hm
  | checkCast id => exact checkCast_continues hs hm
  | instanceOf id => exact instanceOf_continues hs hm
  | monitorEnter => exact monitorEnter_continues hs hm
  | monitorExit => exact monitorExit_continues hs hm
  | unresolved symbol => exact (raiseMissing_raises symbol).front hm hs.advanced_guarded

/-- Execution of a frame in step: the instruction is there, and control goes on in step. -/
theorem executeOne_continues (hk : k.Quiet) (hf : f.InStep) (hm : Front t f rest m) :
    ∃ i, f.code.get? f.pc = some i ∧
      Ends (executeOne k t m) (Continues f i rest) (Fails f.code i rest) := by
  obtain ⟨i, after, hi, he⟩ := LinkedCode.exists_edges_of_recordedAt hf.recorded
  refine ⟨i, hi, ?_⟩
  have hfetch : Ends (fetch f) (fun j g => j = i ∧ g = advanced f) Frame.Sane := by
    unfold fetch
    rw [hi]
    exact ⟨rfl, rfl⟩
  refine (hm.onTop hfetch).bind fun j m₁ ⟨g, h₁, hj, hg⟩ => ?_
  subst hj hg
  exact executeInstruction_continues hk ⟨hf, hi, he⟩ h₁

end ClassMachine.Machine
