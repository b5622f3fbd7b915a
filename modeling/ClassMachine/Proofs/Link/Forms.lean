import ClassMachine.Proofs.Link.Independence
import ClassMachine.Proofs.Lists

/-!
The forms a decoded instruction takes when it is linked. Bytes and constants alone decide what an
instruction does to the stack; the classes around decide only which class, slot, method or signature
it carries, or that it stays a placeholder. So a body links everywhere or nowhere.
-/
namespace ClassMachine
open Stateful

namespace ConstantPool

/-- The constant names a field with a descriptor that can be read. -/
def NamesField (pool : ConstantPool) (index : Nat) (member : MemberRef) (type : FieldType) : Prop :=
  pool.get? index = some (.fieldRef member) ∧ FieldType.parse member.descriptor = .ok type

/-- The constant names a method with a descriptor that can be read. -/
def NamesMethod (pool : ConstantPool) (index : Nat) (member : MemberRef) (d : MethodDescriptor) : Prop :=
  (pool.get? index = some (.methodRef member) ∨ pool.get? index = some (.interfaceMethodRef member)) ∧
    MethodDescriptor.parse member.descriptor = .ok d

end ConstantPool

/-- Stands in for an instruction whose symbol is missing. -/
def Instruction.IsPlaceholder (i : Instruction) : Prop := ∃ symbol, i = .unresolved symbol

def MethodDescriptor.site (d : MethodDescriptor) : CallSite := ⟨d.paramCategories, d.returnCategory⟩

/-- A call that found its method. -/
def InvokeKind.Calls (kind : InvokeKind) (d : MethodDescriptor) (i : Instruction) : Prop :=
  match kind with
  | .static => ∃ method, i = .invokeStatic method d.site
  | .special => ∃ method, i = .invokeSpecial method d.site
  | .interface => ∃ signature, i = .invokeInterface signature d.site
  | .virtual => ∃ signature,
      i = if d.params.isEmpty && d.returns.isNone then .invokeVoidNoArgs signature
        else .invokeVirtual signature d.site

def ClassUse.instruction (id : ClassId) : ClassUse → Instruction
  | .new => .new id
  | .newRefArray => .newRefArray id
  | .multiNewArray dims => .multiNewArray id dims
  | .checkCast => .checkCast id
  | .instanceOf => .instanceOf id

/-- What a load of a constant comes to. -/
def Constant.Loads (c : Constant) (wide : Bool) (i : Instruction) : Prop :=
  match c, wide with
  | .integer v, false => i = .pushInt v
  | .float bits, false => i = .pushFloat bits
  | .string text, false => i = .pushString text
  | .long v, true => i = .pushLong v
  | .double bits, true => i = .pushDouble bits
  | .type _, false => (∃ id, i = .pushClass id) ∨ i.IsPlaceholder
  | _, _ => False

/-- The instructions a decoded one may be linked to, whatever is loaded. -/
def Operation.Form (pool : ConstantPool) (op : Operation) (i : Instruction) : Prop :=
  match op with
  | .plain j => i = j
  | .loadConstant index wide => ∃ c, pool.get? index = some c ∧ c.Loads wide i
  | .staticField index put => ∃ member type, pool.NamesField index member type ∧
      ((∃ owner slot, i = if put then .putStatic owner slot type.kind else .getStatic owner slot type.kind) ∨
        i.IsPlaceholder)
  | .instanceField index put => ∃ member type, pool.NamesField index member type ∧
      ((i = if put then .putField member.name member.descriptor type.kind
          else .getField member.name member.descriptor type.kind) ∨
        (∃ slot, i = if put then .putFieldSlot slot type.kind else .getFieldSlot slot type.kind) ∨
        i.IsPlaceholder)
  | .invoke kind index => ∃ member d, pool.NamesMethod index member d ∧ (kind.Calls d i ∨ i.IsPlaceholder)
  | .classUse use index => ∃ name, pool.get? index = some (.type name) ∧
      ((∃ id, i = use.instruction id) ∨ i.IsPlaceholder)

namespace LinkM

/-- A computation whose result, if it has one, is as `P` says whatever is loaded. -/
def Yields {α : Type} (P : α → Prop) (x : LinkM α) : Prop :=
  ∀ l, Ends (x l) (fun a _ => P a) fun _ _ => True

namespace Yields

variable {α β : Type} {P : α → Prop} {Q : β → Prop}

theorem pure {a : α} (h : P a) : Yields P (pure a) := fun _ => h

theorem throw (e : LinkError) : Yields P (throw e : LinkM α) := fun _ => trivial

theorem any (x : LinkM α) : Yields (fun _ => True) x := fun l => by cases x l <;> trivial

theorem bind {x : LinkM α} {f : α → LinkM β} (hx : Yields P x) (hf : ∀ a, P a → Yields Q (f a)) :
    Yields Q (x >>= f) := fun l => Ends.bind (hx l) fun a l' h => hf a h l'

theorem get {f : Linker → LinkM β} (hf : ∀ l, Yields Q (f l)) : Yields Q (get >>= f) := fun l => hf l l

theorem ofExcept {x : Except LinkError α} {f : α → LinkM β} (hf : ∀ a, x = .ok a → Yields Q (f a)) :
    Yields Q (LinkM.ofExcept x >>= f) := by
  cases x with
  | ok a => exact hf a rfl
  | error e => exact fun _ => trivial

theorem ofState {x : StateM Linker α} {f : α → LinkM β} (hf : ∀ a, Yields Q (f a)) :
    Yields Q (LinkM.ofState x >>= f) := fun l => hf (x l).1 (x l).2

theorem ofClasses {x : StateM ClassTable α} {f : α → LinkM β} (hf : ∀ a, Yields Q (f a)) :
    Yields Q (LinkM.ofClasses x >>= f) := ofState hf

/-- What two computations with a result in common say about it. -/
theorem outcome {x : LinkM α} (h : Yields P x) {l : Linker} {a : α} (hx : x.outcome l = .ok a) : P a := by
  have hl := h l
  unfold LinkM.outcome at hx
  cases hrun : x l with
  | ok b l' =>
    simp only [hrun, Except.ok.injEq] at hx hl
    subst hx
    exact hl
  | error e l' => simp [hrun] at hx

end Yields

end LinkM

namespace SymbolSite
open LinkM

variable {s : SymbolSite} {index : Nat}

theorem get?_of_constant {c : Constant} (h : s.constant index = .ok c) : s.pool.get? index = some c := by
  unfold constant at h
  split at h
  · simp at h
  · simp at h
  · next hc => simpa [← Except.ok.inj h] using hc

theorem get?_of_className {name : String} (h : s.className index = .ok name) :
    s.pool.get? index = some (.type name) := by
  obtain ⟨c, hc, h⟩ := except_bind_ok.1 h
  split at h
  · cases h
    exact get?_of_constant hc
  · simp at h

theorem get?_of_fieldMember {member : MemberRef} (h : s.fieldMember index = .ok member) :
    s.pool.get? index = some (.fieldRef member) := by
  obtain ⟨c, hc, h⟩ := except_bind_ok.1 h
  split at h
  · cases h
    exact get?_of_constant hc
  · simp at h

theorem get?_of_methodMember {member : MemberRef} (h : s.methodMember index = .ok member) :
    s.pool.get? index = some (.methodRef member) ∨ s.pool.get? index = some (.interfaceMethodRef member) := by
  obtain ⟨c, hc, h⟩ := except_bind_ok.1 h
  split at h
  · cases h
    exact .inl (get?_of_constant hc)
  · cases h
    exact .inr (get?_of_constant hc)
  · simp at h

theorem parse_of_methodDescriptor {member : MemberRef} {d : MethodDescriptor}
    (h : s.methodDescriptor index member = .ok d) : MethodDescriptor.parse member.descriptor = .ok d := by
  unfold methodDescriptor at h
  cases hparse : MethodDescriptor.parse member.descriptor with
  | ok d' => simpa [hparse, Except.mapError] using h
  | error e => simp [hparse, Except.mapError] at h

variable (s)

theorem missing_yields {P : Instruction → Prop} (hP : ∀ i : Instruction, i.IsPlaceholder → P i)
    (kind : SymbolKind) (symbol : String) (pops : List Category) (push : Option Category) :
    Yields P (s.missing kind symbol pops push) := .ofState fun _ => .pure (hP _ ⟨_, rfl⟩)

theorem loadConstant_form (index : Nat) (wide : Bool) :
    Yields ((Operation.loadConstant index wide).Form s.pool) (s.loadConstant index wide) := by
  apply Yields.ofExcept
  intro c hc
  have hform : ∀ i, c.Loads wide i → (Operation.loadConstant index wide).Form s.pool i :=
    fun i hi => ⟨c, get?_of_constant hc, hi⟩
  split
  · exact .pure (hform _ rfl)
  · exact .pure (hform _ rfl)
  · exact .pure (hform _ rfl)
  · apply Yields.ofClasses
    intro id?
    cases id? with
    | some id => exact .pure (hform _ (.inl ⟨id, rfl⟩))
    | none => exact s.missing_yields (fun i hi => hform i (.inr hi)) _ _ _ _
  · exact .pure (hform _ rfl)
  · exact .pure (hform _ rfl)
  · exact .throw _

theorem staticField_form (index : Nat) (put : Bool) :
    Yields ((Operation.staticField index put).Form s.pool) (s.staticField index put) := by
  apply Yields.ofExcept
  intro member hmember
  apply Yields.ofExcept
  intro type htype
  have hnames : s.pool.NamesField index member type :=
    ⟨get?_of_fieldMember hmember, parse_of_fieldType htype⟩
  have hmissing := s.missing_yields (P := (Operation.staticField index put).Form s.pool)
    fun i hi => ⟨member, type, hnames, .inr hi⟩
  intro l
  unfold staticAccess
  rw [bind_get]
  cases l.classes.lookup? member.owner with
  | none => exact hmissing _ _ _ _ _
  | some owner =>
    dsimp only
    cases hfound : ClassTable.resolveField owner member.name member.descriptor l.classes with
    | mk found t =>
      apply ofClasses_ends hfound
      cases found with
      | error e => exact hmissing _ _ _ _ _
      | ok id =>
        obtain ⟨c, f, hc, hf, hdescriptor⟩ := resolveField_found hfound
        dsimp only
        rw [bind_get]
        dsimp only
        cases hslot : staticSlot? t id with
        | none => exact hmissing _ _ _ _ _
        | some access =>
          have hkind : access.2 = type.kind :=
            (staticSlot?_kind hc hf hslot).trans (kind_of_descriptor hnames.2 hdescriptor)
          exact ⟨member, type, hnames, .inl ⟨id.owner, access.1, by cases put <;> simp [hkind]⟩⟩

theorem instanceField_form (index : Nat) (put : Bool) :
    Yields ((Operation.instanceField index put).Form s.pool) (s.instanceField index put) := by
  apply Yields.ofExcept
  intro member hmember
  apply Yields.ofExcept
  intro type htype
  have hnames : s.pool.NamesField index member type :=
    ⟨get?_of_fieldMember hmember, parse_of_fieldType htype⟩
  have hmissing := s.missing_yields (P := (Operation.instanceField index put).Form s.pool)
    fun i hi => ⟨member, type, hnames, .inr (.inr hi)⟩
  intro l
  unfold instanceAccess
  rw [bind_get]
  cases l.classes.lookup? member.owner with
  | none => exact hmissing _ _ _ _ _
  | some owner =>
    dsimp only
    cases hfound : ClassTable.resolveField owner member.name member.descriptor l.classes with
    | mk found t =>
      apply ofClasses_ends hfound
      cases found with
      | error e => exact hmissing _ _ _ _ _
      | ok id =>
        obtain ⟨c, f, hc, hf, hdescriptor⟩ := resolveField_found hfound
        apply Ends.bind ((fieldSlot?_kind hc hf).mono (fun _ _ h => h) fun _ _ => False.elim)
        intro slot? l' hslot
        cases slot? with
        | none => exact ⟨member, type, hnames, .inl (by cases put <;> rfl)⟩
        | some access =>
          have hkind : access.2 = type.kind :=
            (hslot access rfl).trans (kind_of_descriptor hnames.2 hdescriptor)
          exact ⟨member, type, hnames, .inr (.inl ⟨access.1, by cases put <;> simp [hkind]⟩)⟩

theorem invoke_form (kind : InvokeKind) (index : Nat) :
    Yields ((Operation.invoke kind index).Form s.pool) (s.invoke kind index) := by
  apply Yields.ofExcept
  intro member hmember
  apply Yields.ofExcept
  intro d hd
  have hnames : s.pool.NamesMethod index member d :=
    ⟨get?_of_methodMember hmember, parse_of_methodDescriptor hd⟩
  have hcalls : ∀ i, kind.Calls d i → (Operation.invoke kind index).Form s.pool i :=
    fun i hi => ⟨member, d, hnames, .inl hi⟩
  have hmissing := s.missing_yields (P := (Operation.invoke kind index).Form s.pool)
    fun i hi => ⟨member, d, hnames, .inr hi⟩
  apply Yields.ofClasses
  intro owner?
  cases owner? with
  | none => exact hmissing _ _ _ _
  | some owner =>
    apply Yields.ofClasses
    intro found
    cases found with
    | error e => exact hmissing _ _ _ _
    | ok method =>
      cases kind with
      | static => exact .pure (hcalls _ ⟨method, rfl⟩)
      | special => exact .pure (hcalls _ ⟨method, rfl⟩)
      | interface => exact .ofState fun signature => .pure (hcalls _ ⟨signature, rfl⟩)
      | virtual =>
        apply Yields.ofState
        intro signature
        split
        · next hvoid => exact .pure (hcalls _ ⟨signature, by rw [if_pos hvoid]⟩)
        · next hvoid => exact .pure (hcalls _ ⟨signature, by rw [if_neg hvoid]; rfl⟩)

theorem classUse_form (use : ClassUse) (index : Nat) :
    Yields ((Operation.classUse use index).Form s.pool) (s.classUse use index) := by
  apply Yields.ofExcept
  intro name hname
  have hmissing := s.missing_yields (P := (Operation.classUse use index).Form s.pool)
    fun i hi => ⟨name, get?_of_className hname, .inr hi⟩
  apply Yields.ofClasses
  intro id?
  cases id? with
  | some id =>
    have hform : (Operation.classUse use index).Form s.pool (use.instruction id) :=
      ⟨name, get?_of_className hname, .inl ⟨id, rfl⟩⟩
    cases use <;> exact .pure hform
  | none => cases use <;> exact hmissing _ _ _ _

theorem resolve_form (op : Operation) : Yields (op.Form s.pool) (s.resolve op) := by
  cases op with
  | plain i => exact .pure rfl
  | loadConstant index wide => exact s.loadConstant_form index wide
  | staticField index put => exact s.staticField_form index put
  | instanceField index put => exact s.instanceField_form index put
  | invoke kind index => exact s.invoke_form kind index
  | classUse use index => exact s.classUse_form use index

end SymbolSite

namespace Decoding
open LinkM

/-- The instruction at `pc` is a form of what the bytes there decode to. -/
def Rendered (pool : ConstantPool) (b : Body) (pc : Nat) (i : Instruction) : Prop :=
  ∃ op, operation b pc = .ok op ∧ op.Form pool i

/-- A handler with the indices its offsets stand for. -/
structure Placed (b : Body) (raw : RawHandler) (h : Handler) : Prop where
  start : b.handlerIndex raw raw.startPc false = .ok h.start
  stop : b.handlerIndex raw raw.endPc true = .ok h.stop
  target : b.handlerIndex raw raw.handlerPc false = .ok h.target

/-- A body made of what the bytes decode to, instruction by instruction and handler by handler. -/
structure Decoded (pool : ConstantPool) (raw : RawCode) (pcs : List Nat) (code : LinkedCode) : Prop where
  split : starts raw.code = .ok pcs
  instructions : List.Forall₂ (Rendered pool (.ofStarts raw.code pcs)) pcs code.instructions.toList
  handlers : List.Forall₂ (Placed (.ofStarts raw.code pcs)) raw.handlers code.handlers

theorem linkInstructions_rendered (pool : ConstantPool) (subject : String) (b : Body) (pcs : List Nat) :
    Yields (List.Forall₂ (Rendered pool b) pcs) (linkInstructions pool subject b pcs) := by
  induction pcs with
  | nil => exact .pure .nil
  | cons pc rest ih =>
    apply Yields.ofExcept
    intro op hop
    apply (SymbolSite.resolve_form ⟨pool, subject, pc⟩ op).bind
    intro i hi
    apply ih.bind
    intro is his
    exact .pure (.cons ⟨op, hop, hi⟩ his)

theorem linkHandlers_placed (pool : ConstantPool) (subject : String) (b : Body)
    (handlers : List RawHandler) :
    Yields (List.Forall₂ (Placed b) handlers) (linkHandlers pool subject b handlers) := by
  induction handlers with
  | nil => exact .pure .nil
  | cons h rest ih =>
    have hplaced : Yields (Placed b h) (linkHandler pool subject b h) := by
      apply Yields.bind (.any _)
      intro catches _
      apply Yields.ofExcept
      intro start hstart
      apply Yields.ofExcept
      intro stop hstop
      apply Yields.ofExcept
      intro target htarget
      exact .pure ⟨hstart, hstop, htarget⟩
    apply hplaced.bind
    intro handler hhandler
    apply ih.bind
    intro hs hhs
    exact .pure (.cons hhandler hhs)

theorem decode_decoded (pool : ConstantPool) (subject : String) (raw : RawCode) :
    Yields (fun code => ∃ pcs, Decoded pool raw pcs code) (decode pool subject raw) := by
  unfold decode
  dsimp only
  split
  · exact fun _ => trivial
  · apply Yields.ofExcept
    intro pcs hpcs
    apply (linkInstructions_rendered pool subject _ pcs).bind
    intro is his
    apply (linkHandlers_placed pool subject _ _).bind
    intro handlers hhandlers
    exact .pure ⟨pcs, hpcs, by simpa using his, hhandlers⟩

end Decoding

namespace Linker
open LinkM

theorem linkBody_decoded (pool : ConstantPool) (subject : String) (raw : RawCode) :
    Yields (fun code => (∃ pcs, Decoding.Decoded pool raw pcs code) ∧ ∃ depth, code.verify = .ok depth)
      (linkBody pool subject raw) := by
  apply (Decoding.decode_decoded pool subject raw).bind
  intro code hcode
  apply Yields.ofExcept
  intro depth hdepth
  exact .pure ⟨hcode, depth, hdepth⟩

/-- Two links of one body: instruction by instruction two forms of what the bytes decode to, with the
same effect on the stack and the same targets; the same guarded ranges; the same depth. -/
structure SameBody (pool : ConstantPool) (raw : RawCode) (code code' : LinkedCode) : Prop where
  length : code.length = code'.length
  instructions : ∃ pcs, Decoding.starts raw.code = .ok pcs ∧ code.length = pcs.length ∧
    ∀ k pc, pcs[k]? = some pc → ∃ op i i',
      Decoding.operation (.ofStarts raw.code pcs) pc = .ok op ∧
      code.get? k = some i ∧ code'.get? k = some i' ∧
      op.Form pool i ∧ op.Form pool i' ∧ i.SameEffect i'
  handlers : List.Forall₂ Handler.SameRange code.handlers code'.handlers
  limits : code.maxStack = code'.maxStack ∧ code.maxLocals = code'.maxLocals
  depth : ∃ depth, code.verify = .ok depth ∧ code'.verify = .ok depth

theorem sameBody_of_alike {pool : ConstantPool} {raw : RawCode} {code code' : LinkedCode}
    (h : code.Alike code') {pcs : List Nat} (hcode : Decoding.Decoded pool raw pcs code)
    {pcs' : List Nat} (hcode' : Decoding.Decoded pool raw pcs' code') {depth : Nat}
    (hdepth : code.verify = .ok depth) : SameBody pool raw code code' := by
  have hsame : pcs' = pcs := Except.ok.inj (hcode'.split.symm.trans hcode.split)
  subst hsame
  have hverify : code'.verify = code.verify := by
    unfold LinkedCode.verify
    rw [h.stackMap]
  have hlength : code.length = pcs'.length := by
    simpa [LinkedCode.length] using hcode.instructions.length_eq.symm
  refine ⟨h.length, ⟨pcs', hcode.split, hlength, ?_⟩, h.handlers, ⟨h.maxStack, h.maxLocals⟩, depth,
    hdepth, hverify.trans hdepth⟩
  intro k pc hpc
  obtain ⟨i, hi, op, hop, hform⟩ := Lists.getElem?_of_forall₂ hcode.instructions hpc
  obtain ⟨i', hi', op', hop', hform'⟩ := Lists.getElem?_of_forall₂ hcode'.instructions hpc
  have heq : op' = op := Except.ok.inj (hop'.symm.trans hop)
  subst heq
  have hrel := h.get? k
  rw [Array.getElem?_toList] at hi hi'
  rw [show code.get? k = some i from hi, show code'.get? k = some i' from hi', Option.rel_some_some] at hrel
  exact ⟨op', i, i', hop, hi, hi', hform, hform', hrel⟩

/-- A body links against all class tables and under both ways of field access or against none, with
one and the same error; where it links, the instructions differ in form only. -/
theorem linkBody_independent (pool : ConstantPool) (subject subject' : String) (raw : RawCode)
    (l l' : Linker) :
    OutcomesAgree (SameBody pool raw) ((linkBody pool subject raw).outcome l)
      ((linkBody pool subject' raw).outcome l') := by
  have hagree := linkBody_agree pool subject subject' raw l l'
  cases hrun : (linkBody pool subject raw).outcome l with
  | error e =>
    rw [hrun] at hagree
    cases hrun' : (linkBody pool subject' raw).outcome l' with
    | error e' =>
      rw [hrun'] at hagree
      cases hagree with
      | error => exact .error e
    | ok code' =>
      rw [hrun'] at hagree
      cases hagree
  | ok code =>
    rw [hrun] at hagree
    cases hrun' : (linkBody pool subject' raw).outcome l' with
    | error e' =>
      rw [hrun'] at hagree
      cases hagree
    | ok code' =>
      rw [hrun'] at hagree
      obtain ⟨⟨pcs, hcode⟩, depth, hdepth⟩ := (linkBody_decoded pool subject raw).outcome hrun
      obtain ⟨⟨pcs', hcode'⟩, _⟩ := (linkBody_decoded pool subject' raw).outcome hrun'
      cases hagree with
      | ok halike => exact .ok (sameBody_of_alike halike hcode hcode' hdepth)

end Linker

end ClassMachine
