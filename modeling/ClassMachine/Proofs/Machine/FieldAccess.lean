import ClassMachine.Proofs.Link.Pairing
import ClassMachine.Proofs.Link.Requests
import ClassMachine.Proofs.Machine.FrameSteps

/-!
Field access by name and by slot. An access that is linked under both ways reads and writes the same
field of every object whose class inherits the field that the operand names. It need not do so where
a class below has a field of that name and descriptor of its own: a lookup by name starts at the
class of the object.
-/
namespace ClassMachine
open Stateful

namespace ClassTable

/-- The class has a field that `owner` declares: `owner` is in its chain, and no class before it
declares a field of that name and descriptor. -/
def Inherits (t : ClassTable) (id owner : ClassId) (name descriptor : String) : Prop :=
  ∃ before after, (ancestry id t).1 = before ++ owner :: after ∧
    ∀ x ∈ before, t.declaredField? name descriptor x = none

variable {t : ClassTable} {id : ClassId} {name descriptor : String} {field : FieldId}

theorem size_climb (origin : ClassId) (fuel : Nat) (chain : List ClassId) (current : ClassId) (t : ClassTable) :
    (climb origin fuel chain current t).2.size = t.size := by
  induction fuel generalizing chain current t with
  | zero => rfl
  | succ fuel ih =>
    rw [climb, state_bind, ← size_superclass current t]
    generalize superclass current t = r
    obtain ⟨link, t₁⟩ := r
    cases link with
    | none => rfl
    | some parent =>
      dsimp only
      split
      · rfl
      · exact ih _ _ _

/-- Climbing declares no field. -/
theorem declaredField?_ancestry (id : ClassId) (t : ClassTable) :
    (ancestry id t).2.declaredField? name descriptor = t.declaredField? name descriptor := by
  funext x
  cases hc : t.get? x with
  | some c => exact declaredField?_settles (ancestry_grows id t).settles hc name descriptor
  | none =>
    have hsize : t.size ≤ x := Array.getElem?_eq_none_iff.1 hc
    rw [← size_climb id (t.size + 1) [id] id t] at hsize
    simp only [declaredField?, hc, get?_eq_none_of_size_le (t := (ancestry id t).2) hsize]

theorem declaredField?_of_resolveField (h : (resolveField id name descriptor t).1 = .ok field) :
    t.declaredField? name descriptor field.owner = some field := by
  rw [resolveField_ok, declaredField?_ancestry] at h
  obtain ⟨x, _, hdeclared⟩ := List.exists_of_findSome?_eq_some h
  have howner : field.owner = x := by
    obtain ⟨c, _, hposition⟩ := Option.bind_eq_some_iff.1 hdeclared
    obtain ⟨index, _, rfl⟩ := Option.map_eq_some_iff.1 hposition
    rfl
  rwa [howner]

theorem Inherits.resolveField (h : t.Inherits id field.owner name descriptor)
    (hdeclared : t.declaredField? name descriptor field.owner = some field) :
    (resolveField id name descriptor t).1 = .ok field := by
  obtain ⟨before, after, hchain, hbefore⟩ := h
  rw [resolveField_ok, declaredField?_ancestry, hchain, List.findSome?_append,
    List.findSome?_eq_none_iff.2 hbefore, Option.none_or, List.findSome?_cons, hdeclared]

/-- Preparing a class does not change which field it has. -/
theorem resolveField_prepare {l : Linker} (ht : l.classes.Orderly)
    (h : (resolveField id name descriptor l.classes).1 = .ok field) :
    (resolveField id name descriptor (Linker.prepare id l).2.classes).1 = .ok field := by
  cases hc : l.classes.get? id with
  | none =>
    rw [Linker.prepare, state_get, hc]
    exact h
  | some c =>
    rw [Linker.prepare_eq hc]
    split
    · exact h
    · have hlays := Linker.foldlM_prepareOne_lays (ancestry id l.classes).1.reverse {}
        { l with classes := (ancestry id l.classes).2 }
      exact (resolveField_again ht hc hlays.settles).2 h

end ClassTable

namespace Decoding

variable {member : MemberRef} {l : Linker} {field : FieldId} {slot : Nat}

/-- What the class of the operand resolves to is the field that was bound. -/
theorem Bound.resolves (h : Bound member l field slot) {owner : ClassId} {field' : FieldId}
    (hl : l.classes.lookup? member.owner = some owner)
    (hfield : (ClassTable.resolveField owner member.name member.descriptor l.classes).1 = .ok field') :
    field' = field := by
  obtain ⟨t, owner', c, ht, hc, hfound, hsettles, hl'⟩ := h.found
  cases hl.symm.trans hl'
  have hagain := (ClassTable.resolveField_again ht hc hsettles).1 hfield
  rw [hfound] at hagain
  exact (Except.ok.inj hagain).symm

/-- The two forms of an access to an instance field, where a body is linked under both ways of access
from the same linker. Binding slots leads to the linker `k`. -/
def AccessForms (l : Linker) (pool : ConstantPool) (subject : String) (raw : RawCode) (put : Bool)
    (member : MemberRef) (named bound : Instruction) (k : Linker) : Prop :=
  ∃ (code code' : LinkedCode) (k₀ : Linker) (pcs : List Nat) (index pc cp : Nat),
    Linker.linkBody pool subject raw { l with access := .generic } = .ok code k₀ ∧
    Linker.linkBody pool subject raw { l with access := .precompiledBridge } = .ok code' k ∧
    starts raw.code = .ok pcs ∧ pcs[index]? = some pc ∧
    operation (.ofStarts raw.code pcs) pc = .ok (.instanceField cp put) ∧
    SymbolSite.fieldMember ⟨pool, subject, pc⟩ cp = .ok member ∧
    code.instructions[index]? = some named ∧ code'.instructions[index]? = some bound

variable {pool : ConstantPool} {subject : String} {raw : RawCode} {put : Bool} {i i' : Instruction} {k : Linker}

theorem linkBody_decodes {l k : Linker} {code : LinkedCode} (h : Linker.linkBody pool subject raw l = .ok code k) :
    decode pool subject raw l = .ok code k := by
  obtain ⟨code', l₁, hdecode, h⟩ := bind_ok.1 h
  obtain ⟨_, l₂, hverify, h⟩ := bind_ok.1 h
  obtain ⟨_, rfl⟩ := ofExcept_ok hverify
  cases h
  exact hdecode

theorem AccessForms.orderly (h : AccessForms l pool subject raw put member i i' k) (ht : l.classes.Orderly) :
    k.classes.Orderly := by
  obtain ⟨_, code', _, _, _, _, _, _, hrun', _⟩ := h
  have hmoves := (Linker.linkBody_moves pool subject raw { l with access := .precompiledBridge }).of_ok hrun'
  exact (Linker.Changes.becomes (Linker.Moves.changes hmoves)).orderly ht

/-- The forms are one, or a lookup by name and a slot. -/
theorem AccessForms.bound (h : AccessForms l pool subject raw put member i i' k) (ht : l.classes.Orderly) :
    i = i' ∨ ∃ field slot kind, Bound member k field slot ∧
      i = SymbolSite.namedAccess put member kind ∧ i' = SymbolSite.slotAccess put slot kind := by
  obtain ⟨code, code', k₀, pcs, index, pc, cp, hrun, hrun', hstarts, hpc, hop, hmember, hi, hi'⟩ := h
  have hpaired : Linker.Paired { l with access := .generic } { l with access := .precompiledBridge } :=
    ⟨⟨.refl _, ht, ht⟩, rfl, rfl⟩
  exact (decode_twice hpaired (linkBody_decodes hrun) (linkBody_decodes hrun') hstarts hpc hi hi').access
    hop hmember

end Decoding

namespace Machine

/-- Outcomes that differ at most in what is known about classes. -/
inductive SameOutcome {α : Type} : EStateM.Result Trap Machine α → EStateM.Result Trap Machine α → Prop
  | ok (a : α) (m : Machine) (l : Linker) : SameOutcome (.ok a m) (.ok a { m with linker := l })
  | error (e : Trap) (m : Machine) (l : Linker) : SameOutcome (.error e m) (.error e { m with linker := l })

/-- A computation that neither reads nor changes what is known about classes. -/
def Blind {α : Type} (x : MachineM α) : Prop := ∀ m l, SameOutcome (x m) (x { m with linker := l })

section Outcomes

variable {α β : Type}

theorem SameOutcome.refl (r : EStateM.Result Trap Machine α) : SameOutcome r r := by
  cases r with
  | ok a m => exact .ok a m m.linker
  | error e m => exact .error e m m.linker

theorem SameOutcome.bind {x y : MachineM α} {m m' : Machine} {f : α → MachineM β}
    (h : SameOutcome (x m) (y m')) (hf : ∀ a, Blind (f a)) : SameOutcome ((x >>= f) m) ((y >>= f) m') := by
  generalize hx : x m = r at h
  generalize hy : y m' = r' at h
  cases h with
  | ok a n l =>
    rw [bind_of_ok hx, bind_of_ok hy]
    exact hf a n l
  | error e n l =>
    rw [bind_of_error hx, bind_of_error hy]
    exact .error e n l

theorem blind_pure (a : α) : Blind (pure a : MachineM α) := fun m l => .ok a m l

theorem blind_bind {x : MachineM α} {f : α → MachineM β} (hx : Blind x) (hf : ∀ a, Blind (f a)) :
    Blind (x >>= f) := fun m l => (hx m l).bind hf

theorem blind_onTop (x : FrameM α) : Blind (onTop x) := by
  intro m l
  obtain hm | ⟨f, rest, hm⟩ : m.active = [] ∨ ∃ f rest, m.active = f :: rest := by
    cases m.active <;> simp
  · have hnone : ∀ m : Machine, m.active = [] →
        onTop x m = .error (.fatal (.inconsistent .noActiveFrame)) m := by
      intro m hm
      simp only [onTop, hm]
    rw [hnone m hm, hnone { m with linker := l } hm]
    exact .error _ m l
  · cases hx : x f with
    | ok a f' =>
      rw [onTop_ok hm hx, onTop_ok (m := { m with linker := l }) hm hx]
      exact .ok a { m with active := f' :: rest } l
    | error e f' =>
      rw [onTop_error hm hx, onTop_error (m := { m with linker := l }) hm hx]
      exact .error _ { m with active := f' :: rest } l

theorem blind_readField (object : Ref) (slot : Nat) : Blind (readField object slot) := by
  intro m l
  unfold readField
  rw [bind_get, bind_get]
  dsimp only
  cases (m.heap.get? object).bind (·.fields[slot]?) with
  | some v => exact .ok v m l
  | none => exact .error _ m l

theorem blind_writeField (object : Ref) (slot : Nat) (v : Value) : Blind (writeField object slot v) := by
  intro m l
  unfold writeField
  rw [bind_get, bind_get]
  dsimp only
  cases (m.heap.get? object).bind (·.fields[slot]?) with
  | some _ => exact .ok () { m with heap := m.heap.update object (·.setField slot v) } l
  | none => exact .error _ m l

end Outcomes

section Lookup

variable {member : MemberRef} {field : FieldId} {slot : Nat} {m : Machine} {object : Ref}

theorem classOf_live {id : ClassId} (h : m.liveClass? object = some id) : classOf object m = .ok id m := by
  obtain ⟨r, hr, h⟩ := Option.bind_eq_some_iff.1 h
  obtain ⟨o, ho, rfl⟩ := Option.map_eq_some_iff.1 h
  unfold Ref.nonNull? at hr
  split at hr
  · cases hr
  · next hnull =>
    cases hr
    unfold classOf
    rw [if_neg hnull, bind_get, ho]
    rfl

/-- A lookup by name in a class that inherits the field finds the slot that was bound. -/
theorem fieldSlot_bound (hb : Decoding.Bound member m.linker field slot) (ht : m.classes.Orderly) {id : ClassId}
    (hlive : m.liveClass? object = some id)
    (hdeclared : m.classes.declaredField? member.name member.descriptor field.owner = some field)
    (hinherits : m.classes.Inherits id field.owner member.name member.descriptor) :
    ∃ l, fieldSlot object member.name member.descriptor m = .ok slot { m with linker := l } := by
  obtain ⟨c, f, hc, hlaid, hf, hslot⟩ := hb.placed
  let l₁ := (Linker.prepare id m.linker).2
  have hfound : (ClassTable.resolveField id member.name member.descriptor l₁.classes).1 = .ok field :=
    ClassTable.resolveField_prepare ht (hinherits.resolveField hdeclared)
  let l₂ : Linker := { l₁ with
    classes := (ClassTable.resolveField id member.name member.descriptor l₁.classes).2 }
  have hplaced : (l₂.classes.get? field.owner).bind (fun c => (c.fields[field.index]?).bind (·.slot)) =
      some slot := by
    have hsettles : m.classes.Settles l₂.classes := by
      show m.classes.Settles (ClassTable.resolveField id member.name member.descriptor l₁.classes).2
      rw [ClassTable.resolveField_table]
      exact (Linker.prepare_grows id m.linker).classes.settles.trans (ClassTable.ancestry_grows id _).settles
    obtain ⟨c', hc', hsettled⟩ := hsettles field.owner c hc
    rw [hc', Option.bind_some, hsettled.fields_eq hlaid, hf, Option.bind_some, hslot]
  have hprepare : onLinker (Linker.prepare id) m = .ok (Linker.prepare id m.linker).1 { m with linker := l₁ } := rfl
  have hresolve : onClasses (ClassTable.resolveField id member.name member.descriptor) { m with linker := l₁ } =
      .ok (.ok field) { m with linker := l₂ } := by
    rw [← hfound]
    rfl
  refine ⟨l₂, ?_⟩
  unfold fieldSlot
  rw [bind_of_ok (classOf_live hlive), bind_of_ok hprepare, bind_of_ok hresolve, bind_get]
  simp only [Except.toOption, Option.bind_some]
  rw [show Machine.classes { m with linker := l₂ } = l₂.classes from rfl, hplaced]
  rfl

end Lookup

/-- Takes the object that a field access works on off the stack, with what is above it. -/
def popReceiver (put : Bool) : FrameM Ref := if put then Prod.snd <$> popStore else Frame.popRef

/-- Class of the object that a field access is about to work on. -/
def receiver? (put : Bool) (m : Machine) : Option ClassId :=
  match m.active with
  | [] => none
  | f :: _ =>
    match popReceiver put f with
    | .ok object _ => m.liveClass? object
    | .error _ _ => none

theorem receiver?_some {put : Bool} {m : Machine} {id : ClassId} (h : m.receiver? put = some id) :
    ∃ f f' rest object, m.active = f :: rest ∧ popReceiver put f = .ok object f' ∧
      m.liveClass? object = some id := by
  unfold receiver? at h
  split at h
  · cases h
  · next f rest hm =>
    split at h
    · next object f' hpop => exact ⟨f, f', rest, object, hm, hpop, h⟩
    · cases h

theorem popStore_ok {f f' : Frame} {object : Ref} (h : popReceiver true f = .ok object f') :
    ∃ v, popStore f = .ok (v, object) f' := by
  have hmap : popReceiver true f = (popStore >>= fun p => pure p.2) f := rfl
  rw [hmap] at h
  obtain ⟨⟨v, r⟩, f₁, hpop, h⟩ := bind_ok.1 h
  cases h
  exact ⟨v, hpop⟩

/-- What goes on with a slot goes on alike after a lookup that finds it. -/
theorem sameOutcome_lookup {α : Type} {f : Nat → MachineM α} {object : Ref} {m : Machine} {name descriptor : String}
    {slot : Nat} {id : ClassId} {l : Linker} (hlive : m.liveClass? object = some id)
    (hslot : fieldSlot object name descriptor m = .ok slot { m with linker := l }) (hf : Blind (f slot)) :
    SameOutcome ((classOf object >>= fun _ => f slot) m) ((fieldSlot object name descriptor >>= f) m) := by
  rw [bind_of_ok (classOf_live hlive), bind_of_ok hslot]
  exact hf m l

/-- Both forms of an access to a field that the receiver's class inherits come to the same. -/
theorem slotAccess_agrees {put : Bool} {member : MemberRef} {field : FieldId} {slot : Nat} {kind : Kind} {m : Machine}
    {id : ClassId} (n : Nested) (thread : ThreadId) (hb : Decoding.Bound member m.linker field slot)
    (ht : m.classes.Orderly) (hreceiver : m.receiver? put = some id)
    (hdeclared : m.classes.declaredField? member.name member.descriptor field.owner = some field)
    (hinherits : m.classes.Inherits id field.owner member.name member.descriptor) :
    SameOutcome (executeInstruction n thread (SymbolSite.slotAccess put slot kind) m)
      (executeInstruction n thread (SymbolSite.namedAccess put member kind) m) := by
  obtain ⟨f, f', rest, object, hm, hpop, hlive⟩ := receiver?_some hreceiver
  let m₁ : Machine := { m with active := f' :: rest }
  obtain ⟨l, hslot⟩ := fieldSlot_bound (m := m₁) hb ht hlive hdeclared hinherits
  cases put with
  | false =>
    have htop : onTop Frame.popRef m = .ok object m₁ := onTop_ok hm hpop
    show SameOutcome ((_ >>= _ : MachineM Flow) m) ((_ >>= _ : MachineM Flow) m)
    refine SameOutcome.bind ?_ fun v => blind_bind (blind_onTop _) fun _ => blind_pure _
    rw [bind_of_ok htop, bind_of_ok htop]
    exact sameOutcome_lookup hlive hslot (blind_readField object slot)
  | true =>
    obtain ⟨v, hpop⟩ := popStore_ok hpop
    have htop : onTop popStore m = .ok (v, object) m₁ := onTop_ok hm hpop
    show SameOutcome ((onTop popStore >>= _) m) ((onTop popStore >>= _) m)
    rw [bind_of_ok htop, bind_of_ok htop]
    exact sameOutcome_lookup (f := fun slot => writeField object slot (v.narrowTo kind) >>= fun _ => pure Flow.next)
      hlive hslot (blind_bind (blind_writeField object slot _) fun _ => blind_pure _)

/-- An access to an instance field, linked by name and linked by slot, comes to the same in every state
that the linker which has bound the slot goes on to, when the object's class inherits the field that
the operand names. The index of the field fits its sixteen bits where no class has more fields than that. -/
theorem fieldAccess_agrees {l k : Linker} {pool : ConstantPool} {subject : String} {raw : RawCode} {put : Bool}
    {member : MemberRef} {named bound : Instruction} {m : Machine} {owner id : ClassId} {field : FieldId}
    (n : Nested) (thread : ThreadId) (hl : l.Reachable)
    (hforms : Decoding.AccessForms l pool subject raw put member named bound k) (hk : k.Changes m.linker)
    (howner : m.classes.lookup? member.owner = some owner)
    (hfield : (ClassTable.resolveField owner member.name member.descriptor m.classes).1 = .ok field)
    (hreceiver : m.receiver? put = some id)
    (hinherits : m.classes.Inherits id field.owner member.name member.descriptor) :
    SameOutcome (executeInstruction n thread bound m) (executeInstruction n thread named m) ∧
      (m.classes.Narrow → field.index < 65536) := by
  have hdeclared := ClassTable.declaredField?_of_resolveField hfield
  refine ⟨?_, fun hnarrow => ?_⟩
  · rcases hforms.bound hl.orderly with rfl | ⟨field', slot, kind, hbound, rfl, rfl⟩
    · exact .refl _
    · have hbecomes := Linker.Changes.becomes hk
      have hbound' := hbound.later hbecomes.settles (Linker.Changes.names hk)
      obtain rfl := hbound'.resolves howner hfield
      exact slotAccess_agrees n thread hbound' (hbecomes.orderly (hforms.orderly hl.orderly)) hreceiver
        hdeclared hinherits
  · obtain ⟨c, hc, hposition⟩ := Option.bind_eq_some_iff.1 hdeclared
    obtain ⟨index, hindex, heq⟩ := Option.map_eq_some_iff.1 hposition
    obtain ⟨f, hf, _⟩ := of_lastIndex? hindex
    exact hnarrow.field_lt hc (show c.fields[field.index]? = some f by rw [← heq]; exact hf)

section Shadowing

/-- What stands at an index of a body that links. -/
def linkedAt? (l : Linker) (pool : ConstantPool) (raw : RawCode) (index : Nat) : Option Instruction :=
  match Linker.linkBody pool "" raw l with
  | .ok code _ => code.instructions[index]?
  | .error _ _ => none

theorem linkBody_of_linkedAt? (l : Linker) (pool : ConstantPool) (raw : RawCode) (index : Nat) (i : Instruction)
    (h : linkedAt? l pool raw index = some i) :
    ∃ code k, Linker.linkBody pool "" raw l = .ok code k ∧ code.instructions[index]? = some i := by
  unfold linkedAt? at h
  split at h
  · next code k hrun => exact ⟨code, k, hrun, h⟩
  · cases h

/-- A class with a field, one below it that adds none, and one that has a field of the same name. -/
def shadowing : Linker :=
  [Linker.Request.register { name := "Base", fields := [⟨"x", "I", {}⟩] },
    .register { name := "Plain", superName := some "Base" },
    .register { name := "Shadow", superName := some "Base", fields := [⟨"x", "I", {}⟩] },
    .prepare 1, .prepare 2].foldl (fun l r => r.run l) {}

def baseX : MemberRef := ⟨"Base", "x", "I"⟩

def baseXPool : ConstantPool := ⟨#[.unusable, .fieldRef baseX]⟩

/-- Reads the field of the first argument and returns it. -/
def readX : RawCode := { maxStack := 1, maxLocals := 1, code := #[0x2a, 0xb4, 0, 1, 0xac] }

/-- The linker that has bound the field to its slot. -/
def boundX : Linker :=
  match Linker.linkBody baseXPool "" readX { shadowing with access := .precompiledBridge } with
  | .ok _ k => k
  | .error _ k => k

theorem readX_forms : Decoding.AccessForms shadowing baseXPool "" readX false baseX (.getField "x" "I" .int)
    (.getFieldSlot 0 .int) boundX := by
  obtain ⟨code, k₀, hrun, hi⟩ := linkBody_of_linkedAt? { shadowing with access := .generic } baseXPool readX 1
    (.getField "x" "I" .int) (by decide)
  obtain ⟨code', k, hrun', hi'⟩ := linkBody_of_linkedAt? { shadowing with access := .precompiledBridge } baseXPool
    readX 1 (.getFieldSlot 0 .int) (by decide)
  have hk : boundX = k := by
    unfold boundX
    rw [hrun']
  refine ⟨code, code', k₀, [0, 1, 4], 1, 1, 1, hrun, hk ▸ hrun', ?_, rfl, ?_, ?_, hi, hi'⟩
  · decide
  · decide
  · decide

/-- About to read the field of an object. -/
def readingX (id : ClassId) (fields : Array Value) : Machine :=
  { (default : Machine) with
    linker := boundX
    heap := ((default : Heap).insert { type := id, fields := fields, weight := 0 }).2
    active := [{ (default : Frame) with stack := [.ref ⟨1⟩] }] }

/-- What an instruction leaves on top of the stack. -/
def topAfter? : EStateM.Result Trap Machine Flow → Option Value
  | .ok _ m => m.active.head?.bind (·.stack.head?)
  | .error _ _ => none

theorem SameOutcome.top {r r' : EStateM.Result Trap Machine Flow} (h : SameOutcome r r') :
    topAfter? r = topAfter? r' := by
  cases h <;> rfl

theorem shadowing_reachable : shadowing.Reachable := ⟨.generic, Linker.leads_foldl _ _⟩

/-- Calls that do nothing. -/
def idle : Nested := ⟨fun _ _ => pure none, fun _ _ _ => pure ()⟩

/-- An object of the class that adds no field: both forms read the one field there is. -/
theorem plain_reads_once : (readingX 1 #[.int 3]).receiver? false = some 1 ∧
    topAfter? (executeInstruction idle 0 (.getField "x" "I" .int) (readingX 1 #[.int 3])) = some (.int 3) ∧
    SameOutcome (executeInstruction idle 0 (.getFieldSlot 0 .int) (readingX 1 #[.int 3]))
      (executeInstruction idle 0 (.getField "x" "I" .int) (readingX 1 #[.int 3])) := by
  have howner : (readingX 1 #[.int 3]).classes.lookup? baseX.owner = some 0 := by decide
  have hfield : (ClassTable.resolveField 0 "x" "I" (readingX 1 #[.int 3]).classes).1 = .ok ⟨0, 0⟩ := by
    decide
  have hreceiver : (readingX 1 #[.int 3]).receiver? false = some 1 := by decide
  have hinherits : (readingX 1 #[.int 3]).classes.Inherits 1 0 "x" "I" :=
    ⟨[1], [], by decide, by decide⟩
  exact ⟨hreceiver, by decide,
    (fieldAccess_agrees idle 0 shadowing_reachable readX_forms .refl howner hfield hreceiver hinherits).1⟩

/-- An object of a class with a field of its own of that name: the class is a subclass of the one that
the operand names, and the two forms read two fields. -/
theorem shadow_reads_twice : ∃ (l k : Linker) (member : MemberRef) (named bound : Instruction) (m : Machine)
    (owner id : ClassId) (n : Nested), l.Reachable ∧
    Decoding.AccessForms l baseXPool "" readX false member named bound k ∧ k.Changes m.linker ∧
    m.classes.lookup? member.owner = some owner ∧ m.receiver? false = some id ∧
    (ClassTable.isSubclass id owner m.classes).1 = true ∧
    ¬ SameOutcome (executeInstruction n 0 bound m) (executeInstruction n 0 named m) := by
  have hslot : topAfter? (executeInstruction idle 0 (.getFieldSlot 0 .int) (readingX 2 #[.int 3, .int 4])) =
      some (.int 3) := by decide
  have hnamed : topAfter? (executeInstruction idle 0 (.getField "x" "I" .int) (readingX 2 #[.int 3, .int 4])) =
      some (.int 4) := by decide
  refine ⟨shadowing, boundX, baseX, _, _, readingX 2 #[.int 3, .int 4], 0, 2, idle, shadowing_reachable, readX_forms,
    .refl, by decide, by decide, by decide, fun hsame => ?_⟩
  have htop := hsame.top
  rw [hslot, hnamed] at htop
  cases htop

end Shadowing

end Machine

end ClassMachine
