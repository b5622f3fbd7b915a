import ClassMachine.Proofs.Link.Linking
import Mathlib.Data.List.Forall2

/-!
Whether a body links, and what its instructions do to the operand stack, is a matter of the body and
the constants of its class. What else is loaded decides only which form an instruction takes.
-/
namespace ClassMachine
open Stateful

/-- Two outcomes of the same kind: results in relation or one and the same error. -/
inductive OutcomesAgree {ε α β : Type} (R : α → β → Prop) : Except ε α → Except ε β → Prop
  | ok {a : α} {b : β} (h : R a b) : OutcomesAgree R (.ok a) (.ok b)
  | error (e : ε) : OutcomesAgree R (.error e) (.error e)

namespace Instruction

/-- Verification cannot tell the two apart. -/
structure SameEffect (i j : Instruction) : Prop where
  simulate : ∀ maxLocals index stack,
    i.simulate maxLocals index stack = j.simulate maxLocals index stack
  targets : i.branchTargets = j.branchTargets
  terminates : i.isTerminator = j.isTerminator

theorem SameEffect.refl (i : Instruction) : i.SameEffect i := ⟨fun _ _ _ => rfl, rfl, rfl⟩

/-- Takes and leaves the given categories, the top first, and goes on to the next instruction. -/
structure Plain (pops : List Category) (push : Option Category) (i : Instruction) : Prop where
  simulate : ∀ maxLocals index stack, i.simulate maxLocals index stack =
    (CategoryStack.popAll index pops stack).map (push.toList ++ ·)
  targets : i.branchTargets = []
  terminates : i.isTerminator = false

theorem Plain.sameEffect {pops : List Category} {push : Option Category} {i j : Instruction}
    (hi : i.Plain pops push) (hj : j.Plain pops push) : i.SameEffect j :=
  ⟨fun n index stack => (hi.simulate n index stack).trans (hj.simulate n index stack).symm,
    hi.targets.trans hj.targets.symm, hi.terminates.trans hj.terminates.symm⟩

theorem plain_of {i : Instruction} {pops : List Category} {push : Option Category}
    (hstack : ∀ op, i ≠ .stack op) (hlocal : i.localUse? = none) (htargets : i.branchTargets = [])
    (hterminates : i.isTerminator = false) (hpops : i.operands = pops) (hpush : i.result? = push) :
    i.Plain pops push := by
  refine ⟨fun n index stack => ?_, htargets, hterminates⟩
  unfold simulate
  split
  · next op => exact absurd rfl (hstack op)
  · rw [checkLocal, hlocal, hpops, hpush]
    cases CategoryStack.popAll index pops stack <;> rfl

end Instruction

namespace LinkM

/-- What a computation comes to, apart from what it found out about classes. -/
def outcome {α : Type} (x : LinkM α) (l : Linker) : Except LinkError α :=
  match x l with
  | .ok a _ => .ok a
  | .error e _ => .error e

/-- Two computations that agree whatever is loaded for the one and for the other. -/
def Agree {α β : Type} (R : α → β → Prop) (x : LinkM α) (y : LinkM β) : Prop :=
  ∀ l l', OutcomesAgree R (x.outcome l) (y.outcome l')

namespace Agree

variable {α β γ δ : Type} {R : α → β → Prop} {S : γ → δ → Prop}

theorem pure {a : α} {b : β} (h : R a b) : Agree R (pure a) (pure b) := fun _ _ => .ok h

theorem throw (e : LinkError) : Agree R (throw e) (throw e) := fun _ _ => .error e

theorem bind {x : LinkM α} {y : LinkM β} {f : α → LinkM γ} {g : β → LinkM δ} (hx : Agree R x y)
    (hf : ∀ a b, R a b → Agree S (f a) (g b)) : Agree S (x >>= f) (y >>= g) := by
  intro l l'
  have h := hx l l'
  unfold outcome at h ⊢
  cases hrun : x l with
  | ok a l₁ =>
    cases hrun' : y l' with
    | ok b l₁' =>
      rw [hrun, hrun'] at h
      rw [bind_of_ok hrun, bind_of_ok hrun']
      cases h with
      | ok hR => exact hf a b hR l₁ l₁'
    | error e' l₁' =>
      rw [hrun, hrun'] at h
      cases h
  | error e l₁ =>
    cases hrun' : y l' with
    | ok b l₁' =>
      rw [hrun, hrun'] at h
      cases h
    | error e' l₁' =>
      rw [hrun, hrun'] at h
      rw [bind_of_error hrun, bind_of_error hrun']
      cases h with
      | error => exact .error e

/-- A step that does not look at what is loaded. -/
theorem ofExcept (x : Except LinkError α) {f : α → LinkM γ} {g : α → LinkM δ}
    (hf : ∀ a, x = .ok a → Agree S (f a) (g a)) :
    Agree S (LinkM.ofExcept x >>= f) (LinkM.ofExcept x >>= g) := by
  cases x with
  | ok a => exact hf a rfl
  | error e => exact fun _ _ => .error e

theorem ofState {x : StateM Linker α} {y : StateM Linker β} {f : α → LinkM γ} {g : β → LinkM δ}
    (hf : ∀ a b, Agree S (f a) (g b)) : Agree S (LinkM.ofState x >>= f) (LinkM.ofState y >>= g) :=
  fun l l' => hf (x l).1 (y l').1 (x l).2 (y l').2

end Agree

/-- A computation that makes an instruction of the given effect whatever is loaded. -/
def Makes (pops : List Category) (push : Option Category) (x : LinkM Instruction) : Prop :=
  ∀ l, Ends (x l) (fun i _ => i.Plain pops push) fun _ _ => False

theorem ofClasses_ends {α β : Type} {x : StateM ClassTable α} {f : α → LinkM β} {l : Linker} {a : α}
    {t : ClassTable} {Q : β → Linker → Prop} {E : LinkError → Linker → Prop}
    (hx : x l.classes = (a, t)) (hf : Ends (f a { l with classes := t }) Q E) :
    Ends ((LinkM.ofClasses x >>= f) l) Q E := by
  show Ends (f (x l.classes).1 { l with classes := (x l.classes).2 }) Q E
  rw [hx]
  exact hf

variable {pops : List Category} {push : Option Category}

theorem Makes.agree {x y : LinkM Instruction} (hx : Makes pops push x) (hy : Makes pops push y) :
    Agree Instruction.SameEffect x y := by
  intro l l'
  have h := hx l
  have h' := hy l'
  unfold outcome
  cases hrun : x l with
  | error e l₁ =>
    rw [hrun] at h
    exact h.elim
  | ok i l₁ =>
    cases hrun' : y l' with
    | error e l₁' =>
      rw [hrun'] at h'
      exact h'.elim
    | ok j l₁' =>
      rw [hrun] at h
      rw [hrun'] at h'
      exact .ok (Instruction.Plain.sameEffect h h')

namespace Makes

theorem pure {i : Instruction} (h : i.Plain pops push) : Makes pops push (pure i) := fun _ => h

theorem get {f : Linker → LinkM Instruction} (hf : ∀ l, Makes pops push (f l)) :
    Makes pops push (get >>= f) := fun l => hf l l

theorem ofState {α : Type} {x : StateM Linker α} {f : α → LinkM Instruction}
    (hf : ∀ a, Makes pops push (f a)) : Makes pops push (LinkM.ofState x >>= f) :=
  fun l => hf (x l).1 (x l).2

theorem ofClasses {α : Type} {x : StateM ClassTable α} {f : α → LinkM Instruction}
    (hf : ∀ a, Makes pops push (f a)) : Makes pops push (LinkM.ofClasses x >>= f) := ofState hf

end Makes

end LinkM

section Fields

theorem of_lastIndex? {α : Type} {p : α → Bool} {xs : Array α} {i : Nat}
    (h : lastIndex? p xs = some i) : ∃ x, xs[i]? = some x ∧ p x = true := by
  have hp := List.find?_some h
  cases hx : xs[i]? with
  | none => simp [hx] at hp
  | some x => exact ⟨x, rfl, by simpa [hx] using hp⟩

/-- A field is found under the descriptor it was asked for. -/
theorem resolveField_found {t t' : ClassTable} {owner : ClassId} {name descriptor : String}
    {id : FieldId} (h : ClassTable.resolveField owner name descriptor t = (.ok id, t')) :
    ∃ c f, t'.get? id.owner = some c ∧ c.fields[id.index]? = some f ∧ f.descriptor = descriptor := by
  unfold ClassTable.resolveField at h
  rw [state_bind, state_get] at h
  generalize (ClassTable.ancestry owner t).1 = chain at h
  generalize (ClassTable.ancestry owner t).2 = t₁ at h
  cases hfind : chain.findSome? (t₁.declaredField? name descriptor) with
  | none =>
    rw [hfind] at h
    cases h
  | some field =>
    rw [hfind] at h
    cases h
    obtain ⟨holder, _, hdeclared⟩ := List.exists_of_findSome?_eq_some hfind
    obtain ⟨c, hc, hposition⟩ := Option.bind_eq_some_iff.1 hdeclared
    obtain ⟨index, hindex, rfl⟩ := Option.map_eq_some_iff.1 hposition
    obtain ⟨f, hf, hp⟩ := of_lastIndex? hindex
    simp only [Bool.and_eq_true, beq_iff_eq] at hp
    exact ⟨c, f, hc, hf, hp.2⟩

theorem prepare_fst (id : ClassId) (l : Linker) :
    (Linker.prepare id l).1 = (Linker.prepare id l).2.classes.get? id := by
  rw [Linker.prepare, state_get]
  cases hc : l.classes.get? id with
  | none => exact hc.symm
  | some c =>
    dsimp only
    split
    · exact hc.symm
    · rfl

/-- What a descriptor says of a field: every field of that descriptor is of this kind. -/
theorem kind_of_descriptor {f : Field} {descriptor : String} {type : FieldType}
    (h : FieldType.parse descriptor = .ok type) (hf : f.descriptor = descriptor) :
    f.kind = type.kind := by
  subst hf
  rw [f.typed] at h
  rw [Field.kind, Except.ok.inj h]

end Fields

namespace SymbolSite
open LinkM

variable (s : SymbolSite)

theorem missing_makes (kind : SymbolKind) (symbol : String) (pops : List Category)
    (push : Option Category) : Makes pops.reverse push (s.missing kind symbol pops push) := by
  refine .ofState fun _ => .pure ?_
  exact Instruction.plain_of (by simp) rfl rfl rfl rfl rfl

theorem loadClass_makes (name : String) : Makes [] (some .one) (s.loadClass name) := by
  refine .ofClasses fun id? => ?_
  cases id? with
  | some id => exact .pure (Instruction.plain_of (by simp) rfl rfl rfl rfl rfl)
  | none => exact s.missing_makes .type name [] (some .one)

/-- Categories a field access takes, the top first; a receiver lies below the value. -/
def accessPops (receiver : List Category) (put : Bool) (type : FieldType) : List Category :=
  (if put then [type.category] else []) ++ receiver

def accessPush (put : Bool) (type : FieldType) : Option Category :=
  if put then none else some type.category

theorem missing_access (receiver : List Category) (put : Bool) (type : FieldType) (kind : SymbolKind)
    (symbol : String) :
    Makes (accessPops receiver put type) (accessPush put type)
      (s.missing kind symbol (receiver.reverse ++ if put then [type.category] else [])
        (if put then none else some type.category)) := by
  have h := s.missing_makes kind symbol (receiver.reverse ++ if put then [type.category] else [])
    (if put then none else some type.category)
  rw [List.reverse_append, List.reverse_reverse] at h
  cases put <;> exact h

theorem staticSlot?_kind {t : ClassTable} {id : FieldId} {slot : Nat} {kind : Kind} {c : ClassInfo}
    {f : Field} (hc : t.get? id.owner = some c) (hf : c.fields[id.index]? = some f)
    (h : staticSlot? t id = some (slot, kind)) : kind = f.kind := by
  simp only [staticSlot?, hc, hf, Option.bind_eq_bind, Option.bind_some] at h
  split at h
  · obtain ⟨_, _, heq⟩ := Option.bind_eq_some_iff.1 h
    cases heq
    rfl
  · cases h

theorem staticAccess_makes (put : Bool) {member : MemberRef} {type : FieldType}
    (htype : FieldType.parse member.descriptor = .ok type) :
    Makes (accessPops [] put type) (accessPush put type) (s.staticAccess put member type) := by
  have hmissing := s.missing_access [] put type
  refine .get fun l => ?_
  cases l.classes.lookup? member.owner with
  | none => exact hmissing _ _
  | some owner =>
    intro l
    cases hfound : ClassTable.resolveField owner member.name member.descriptor l.classes with
    | mk found t =>
      refine ofClasses_ends hfound ?_
      cases found with
      | error e => exact hmissing _ _ _
      | ok id =>
        obtain ⟨c, f, hc, hf, hdescriptor⟩ := resolveField_found hfound
        dsimp only
        rw [bind_get]
        dsimp only
        cases hslot : staticSlot? t id with
        | none => exact hmissing _ _ _
        | some access =>
          obtain ⟨slot, kind⟩ := access
          have hkind : kind = type.kind :=
            (staticSlot?_kind hc hf hslot).trans (kind_of_descriptor htype hdescriptor)
          subst hkind
          cases put <;> exact Instruction.plain_of (by simp) rfl rfl rfl rfl rfl

/-- A slot that is bound at link time is of the kind its field is declared with. -/
theorem fieldSlot?_kind {l : Linker} {id : FieldId} {c : ClassInfo} {f : Field}
    (hc : l.classes.get? id.owner = some c) (hf : c.fields[id.index]? = some f) :
    Ends (fieldSlot? id l) (fun slot? _ => ∀ access, slot? = some access → access.2 = f.kind)
      fun _ _ => False := by
  unfold fieldSlot?
  rw [bind_get]
  cases l.access with
  | generic => exact fun _ h => by cases h
  | precompiledBridge =>
    show ∀ access, ((Linker.prepare id.owner l).1.bind fun c =>
      (c.fields[id.index]?).bind Field.accessor?) = some access → access.2 = f.kind
    intro access haccess
    rw [prepare_fst] at haccess
    obtain ⟨c', hc', haccess⟩ := Option.bind_eq_some_iff.1 haccess
    obtain ⟨f', hf', haccess⟩ := Option.bind_eq_some_iff.1 haccess
    obtain ⟨c'', hc'', hp⟩ := (Linker.prepare_grows id.owner l).classes.known _ c hc
    cases hc'.symm.trans hc''
    obtain ⟨f'', hf'', hplaces⟩ := hp.fields.of_some hf
    cases hf'.symm.trans hf''
    have hkind : f'.kind = f.kind := by cases hplaces <;> rfl
    unfold Field.accessor? at haccess
    split at haccess
    · cases haccess
    · obtain ⟨slot, _, rfl⟩ := Option.map_eq_some_iff.1 haccess
      exact hkind

theorem instanceAccess_makes (put : Bool) {member : MemberRef} {type : FieldType}
    (htype : FieldType.parse member.descriptor = .ok type) :
    Makes (accessPops [.one] put type) (accessPush put type) (s.instanceAccess put member type) := by
  have hmissing : ∀ kind symbol, Makes (accessPops [.one] put type) (accessPush put type)
      (s.missing kind symbol (if put then [.one, type.category] else [.one])
        (if put then none else some type.category)) := by
    intro kind symbol
    have h := s.missing_access [.one] put type kind symbol
    cases put <;> exact h
  refine .get fun l => ?_
  cases l.classes.lookup? member.owner with
  | none => exact hmissing _ _
  | some owner =>
    intro l
    cases hfound : ClassTable.resolveField owner member.name member.descriptor l.classes with
    | mk found t =>
      refine ofClasses_ends hfound ?_
      cases found with
      | error e => exact hmissing _ _ _
      | ok id =>
        obtain ⟨c, f, hc, hf, hdescriptor⟩ := resolveField_found hfound
        refine Ends.bind (fieldSlot?_kind hc hf) fun slot? l' hslot => ?_
        have hkind := kind_of_descriptor htype hdescriptor
        cases slot? with
        | none => cases put <;> exact Instruction.plain_of (by simp) rfl rfl rfl rfl rfl
        | some access =>
          obtain ⟨slot, kind⟩ := access
          have : kind = type.kind := (hslot _ rfl).trans hkind
          subst this
          cases put <;> exact Instruction.plain_of (by simp) rfl rfl rfl rfl rfl

/-- Categories a call takes, the top first. -/
def callPops (kind : InvokeKind) (descriptor : MethodDescriptor) : List Category :=
  descriptor.paramCategories.reverse ++ if kind = .static then [] else [.one]

theorem call_makes (kind : InvokeKind) (member : MemberRef) (descriptor : MethodDescriptor) :
    Makes (callPops kind descriptor) descriptor.returnCategory (s.call kind member descriptor) := by
  have hmissing : ∀ symbolKind symbol, Makes (callPops kind descriptor) descriptor.returnCategory
      (s.missing symbolKind symbol
        (if kind = .static then descriptor.paramCategories else .one :: descriptor.paramCategories)
        descriptor.returnCategory) := by
    intro symbolKind symbol
    have h := s.missing_makes symbolKind symbol
      (if kind = .static then descriptor.paramCategories else .one :: descriptor.paramCategories)
      descriptor.returnCategory
    unfold callPops
    split at h
    · next hstatic => simpa [hstatic] using h
    · next hstatic => simpa [hstatic] using h
  refine .ofClasses fun owner? => ?_
  cases owner? with
  | none => exact hmissing _ _
  | some owner =>
    refine .ofClasses fun found => ?_
    cases found with
    | error e => exact hmissing _ _
    | ok method =>
      cases kind with
      | static => exact .pure (Instruction.plain_of (by simp) rfl rfl rfl (by simp [Instruction.operands, callPops]) rfl)
      | special => exact .pure (Instruction.plain_of (by simp) rfl rfl rfl rfl rfl)
      | interface => exact .ofState fun _ => .pure (Instruction.plain_of (by simp) rfl rfl rfl rfl rfl)
      | virtual =>
        refine .ofState fun signature => ?_
        split
        · next hvoid =>
          simp only [Bool.and_eq_true, List.isEmpty_iff, Option.isNone_iff_eq_none] at hvoid
          refine .pure (Instruction.plain_of (by simp) rfl rfl rfl ?_ ?_)
          · simp [Instruction.operands, callPops, MethodDescriptor.paramCategories, hvoid.1]
          · show none = descriptor.returns.map FieldType.category
            rw [hvoid.2]
            rfl
        · exact .pure (Instruction.plain_of (by simp) rfl rfl rfl rfl rfl)

/-- Categories the use of a class takes. -/
def usePops : ClassUse → List Category
  | .new => []
  | .multiNewArray dims => List.replicate dims .one
  | _ => [.one]

theorem useClass_makes (use : ClassUse) (name : String) :
    Makes (usePops use) (some .one) (s.useClass use name) := by
  refine .ofClasses fun id? => ?_
  cases id? with
  | some id => cases use <;> exact .pure (Instruction.plain_of (by simp) rfl rfl rfl rfl rfl)
  | none =>
    cases use with
    | multiNewArray dims =>
      have h := s.missing_makes .type name (List.replicate dims .one) (some .one)
      rw [List.reverse_replicate] at h
      exact h
    | _ => exact s.missing_makes .type name _ (some .one)

section Agreement

variable (pool : ConstantPool) (subject subject' : String) (pc : Nat)

theorem loadConstant_agree (index : Nat) (wide : Bool) :
    Agree Instruction.SameEffect (loadConstant ⟨pool, subject, pc⟩ index wide)
      (loadConstant ⟨pool, subject', pc⟩ index wide) := by
  refine .ofExcept _ fun c _ => ?_
  split
  · exact .pure (.refl _)
  · exact .pure (.refl _)
  · exact .pure (.refl _)
  · exact (loadClass_makes _ _).agree (loadClass_makes _ _)
  · exact .pure (.refl _)
  · exact .pure (.refl _)
  · exact .throw _

theorem parse_of_fieldType {s : SymbolSite} {index : Nat} {member : MemberRef} {type : FieldType}
    (h : s.fieldType index member = .ok type) : FieldType.parse member.descriptor = .ok type := by
  unfold fieldType at h
  cases hparse : FieldType.parse member.descriptor with
  | ok type' =>
    rw [hparse] at h
    exact congrArg Except.ok (Except.ok.inj h)
  | error e =>
    rw [hparse] at h
    cases h

theorem resolve_agree (op : Operation) :
    Agree Instruction.SameEffect (resolve ⟨pool, subject, pc⟩ op)
      (resolve ⟨pool, subject', pc⟩ op) := by
  cases op with
  | plain i => exact .pure (.refl i)
  | loadConstant index wide => exact loadConstant_agree pool subject subject' pc index wide
  | staticField index put =>
    refine .ofExcept _ fun member _ => .ofExcept _ fun type htype => ?_
    have hparse := parse_of_fieldType htype
    exact (staticAccess_makes _ put hparse).agree (staticAccess_makes _ put hparse)
  | instanceField index put =>
    refine .ofExcept _ fun member _ => .ofExcept _ fun type htype => ?_
    have hparse := parse_of_fieldType htype
    exact (instanceAccess_makes _ put hparse).agree (instanceAccess_makes _ put hparse)
  | invoke kind index =>
    refine .ofExcept _ fun member _ => .ofExcept _ fun descriptor _ => ?_
    exact (call_makes _ kind member descriptor).agree (call_makes _ kind member descriptor)
  | classUse use index =>
    refine .ofExcept _ fun name _ => ?_
    exact (useClass_makes _ use name).agree (useClass_makes _ use name)

theorem catchType_agree (index : Nat) :
    Agree (fun _ _ => True) (catchType ⟨pool, subject, pc⟩ index)
      (catchType ⟨pool, subject', pc⟩ index) := by
  unfold catchType
  split
  · exact .pure trivial
  · refine .ofExcept _ fun name _ => ?_
    refine .ofState fun found found' => ?_
    cases found <;> cases found' <;> exact fun _ _ => .ok trivial

end Agreement

end SymbolSite

/-- Two handlers of the same range and target; what they catch may be known in one place only. -/
structure Handler.SameRange (h h' : Handler) : Prop where
  start : h.start = h'.start
  stop : h.stop = h'.stop
  target : h.target = h'.target

/-- Two bodies that verification cannot tell apart. -/
structure LinkedCode.Alike (c c' : LinkedCode) : Prop where
  instructions : List.Forall₂ Instruction.SameEffect c.instructions.toList c'.instructions.toList
  handlers : List.Forall₂ Handler.SameRange c.handlers c'.handlers
  maxStack : c.maxStack = c'.maxStack
  maxLocals : c.maxLocals = c'.maxLocals

namespace LinkedCode.Alike

variable {c c' : LinkedCode}

theorem length (h : c.Alike c') : c.length = c'.length := by
  simpa [LinkedCode.length] using h.instructions.length_eq

theorem get? (h : c.Alike c') (index : Nat) :
    Option.Rel Instruction.SameEffect (c.get? index) (c'.get? index) := by
  have hi := h.instructions
  unfold LinkedCode.get?
  rw [← Array.getElem?_toList, ← Array.getElem?_toList]
  generalize c.instructions.toList = is at hi
  generalize c'.instructions.toList = is' at hi
  induction hi generalizing index with
  | nil => exact .none
  | cons hhead _ ih =>
    cases index with
    | zero => exact .some hhead
    | succ index => exact ih index

theorem mergeHandlers (h : c.Alike c') (m : StackMap) (index : Nat) :
    m.mergeHandlers index c.handlers = m.mergeHandlers index c'.handlers := by
  have hhandlers := h.handlers
  generalize c.handlers = hs at hhandlers
  generalize c'.handlers = hs' at hhandlers
  unfold StackMap.mergeHandlers
  induction hhandlers generalizing m with
  | nil => rfl
  | @cons handler handler' hs hs' hrange _ ih =>
    simp only [List.foldlM_cons, Handler.covers, hrange.start, hrange.stop, hrange.target]
    exact bind_congr fun m' => ih m'

theorem follow (h : c.Alike c') {i i' : Instruction} (hi : i.SameEffect i') (m : StackMap) (index : Nat)
    (before : CategoryStack) : m.follow c index i before = m.follow c' index i' before := by
  unfold StackMap.follow
  simp only [h.mergeHandlers, h.maxStack, h.maxLocals, h.length, hi.simulate, hi.targets, hi.terminates]

theorem saturate (h : c.Alike c') (fuel : Nat) (m : StackMap) :
    StackMap.saturate c fuel m = StackMap.saturate c' fuel m := by
  induction fuel generalizing m with
  | zero =>
    unfold StackMap.saturate
    rfl
  | succ fuel ih =>
    have hget := h.get?
    unfold StackMap.saturate
    cases m.work with
    | nil => rfl
    | cons index work =>
      specialize hget index
      dsimp only
      generalize c.get? index = i? at hget
      generalize c'.get? index = i'? at hget
      cases hget with
      | none => rcases m.recorded[index]? with _ | _ | before <;> exact ih _
      | some hi =>
        rcases m.recorded[index]? with _ | _ | before
        · exact ih _
        · exact ih _
        · simp only [h.follow hi, ih]

theorem checkHandlers (h : c.Alike c') :
    c.checkHandlers c.handlers = c'.checkHandlers c'.handlers := by
  have hhandlers := h.handlers
  generalize c.handlers = hs at hhandlers
  generalize c'.handlers = hs' at hhandlers
  induction hhandlers with
  | nil => rfl
  | cons hrange _ ih =>
    simp only [LinkedCode.checkHandlers, h.length, hrange.start, hrange.stop, hrange.target, ih]

theorem stackMap (h : c.Alike c') : c.stackMap = c'.stackMap := by
  unfold LinkedCode.stackMap
  rw [h.length, h.checkHandlers, h.saturate]

end LinkedCode.Alike

namespace Decoding
open LinkM

variable (pool : ConstantPool) (subject subject' : String)

theorem linkInstructions_agree (b : Body) (pcs : List Nat) :
    Agree (List.Forall₂ Instruction.SameEffect) (linkInstructions pool subject b pcs)
      (linkInstructions pool subject' b pcs) := by
  induction pcs with
  | nil => exact .pure .nil
  | cons pc rest ih =>
    refine .ofExcept _ fun op _ => ?_
    refine (SymbolSite.resolve_agree pool subject subject' pc op).bind fun i i' hi => ?_
    exact ih.bind fun is is' his => .pure (.cons hi his)

theorem linkHandler_agree (b : Body) (h : RawHandler) :
    Agree Handler.SameRange (linkHandler pool subject b h) (linkHandler pool subject' b h) := by
  refine (SymbolSite.catchType_agree pool subject subject' _ _).bind fun catches catches' _ => ?_
  refine .ofExcept _ fun start _ => .ofExcept _ fun stop _ => .ofExcept _ fun target _ => ?_
  exact .pure ⟨rfl, rfl, rfl⟩

theorem linkHandlers_agree (b : Body) (handlers : List RawHandler) :
    Agree (List.Forall₂ Handler.SameRange) (linkHandlers pool subject b handlers)
      (linkHandlers pool subject' b handlers) := by
  induction handlers with
  | nil => exact .pure .nil
  | cons h rest ih =>
    refine (linkHandler_agree pool subject subject' b h).bind fun handler handler' hhandler => ?_
    exact ih.bind fun hs hs' hhs => .pure (.cons hhandler hhs)

theorem decode_agree (raw : RawCode) :
    Agree LinkedCode.Alike (decode pool subject raw) (decode pool subject' raw) := by
  unfold decode
  dsimp only
  split
  · exact fun _ _ => .error _
  · refine .ofExcept _ fun pcs _ => ?_
    refine (linkInstructions_agree pool subject subject' _ pcs).bind fun is is' his => ?_
    refine (linkHandlers_agree pool subject subject' _ _).bind fun hs hs' hhs => ?_
    exact .pure ⟨by simpa using his, hhs, rfl, rfl⟩

end Decoding

namespace Linker
open LinkM

/-- A body links against all class tables or against none, and to the same effect. -/
theorem linkBody_agree (pool : ConstantPool) (subject subject' : String) (raw : RawCode) :
    Agree LinkedCode.Alike (linkBody pool subject raw) (linkBody pool subject' raw) := by
  refine (Decoding.decode_agree pool subject subject' raw).bind fun code code' halike => ?_
  have hverify : code.verify = code'.verify := by
    unfold LinkedCode.verify
    rw [halike.stackMap]
  rw [hverify]
  exact .ofExcept _ fun _ _ => .pure halike

end Linker

end ClassMachine
