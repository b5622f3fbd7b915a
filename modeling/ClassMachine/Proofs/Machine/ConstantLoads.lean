import ClassMachine.Proofs.Class.ConstantPool
import ClassMachine.Proofs.Heap.Elements
import ClassMachine.Proofs.Link.Arrays
import ClassMachine.Proofs.Link.Disassembly
import ClassMachine.Proofs.Link.Pairing
import ClassMachine.Proofs.Machine.Returns

/-!
Loads of constants, from the builder that gave the index to the value on the stack. Linking looks the index
up in the pool of the class and makes an instruction that carries the constant, or the class that it names;
execution pushes what the instruction carries. So what is pushed is what the builder was asked for. Only a
zero of floating point may come back with the other sign, where its pool had that one before.
-/
namespace ClassMachine
open Stateful

/-- What stands for a constant in the heap after a load, seen from the heap before it and the classes that
were there when the load was linked. Texts and classes are objects of their own, made when they are first
asked for. -/
def Constant.Denotes (classes : ClassTable) (before after : Heap) : Constant → Value → Prop
  | .integer x, v => v = .int x
  | .float bits, v => v = .float bits
  | .long x, v => v = .long x
  | .double bits, v => v = .double bits
  | .string text, v => ∃ r, v = .ref r ∧ after.interned? text = some r ∧
      (before.interned? text = some r ∨ before.interned? text = none ∧ after.text? r = some text)
  | .type name, v => ∃ r id, v = .ref r ∧ classes.lookup? name = some id ∧ after.mirror? id = some r ∧
      (before.mirror? id = some r ∨ before.mirror? id = none ∧
        (after.get? r).map Object.payload = some (.mirror id))
  | _, _ => False

/-- Constants that are objects on the stack. -/
def Constant.isObject : Constant → Bool
  | .string _ | .type _ => true
  | _ => false

/-- The instruction that a load of a constant becomes, with the class that is found under its name. A name
without a class leaves a placeholder. -/
def Constant.Linked (before after : ClassTable) : Constant → Instruction → Prop
  | .integer x, i => i = .pushInt x
  | .float bits, i => i = .pushFloat bits
  | .long x, i => i = .pushLong x
  | .double bits, i => i = .pushDouble bits
  | .string text, i => i = .pushString text
  | .type name, i => (∃ id, i = .pushClass id ∧ after.lookup? name = some id) ∨
      before.lookup? name = none ∧ i = .unresolved ⟨.type, name, [], some .one⟩
  | _, _ => False

namespace Decoding
open Bytes

/-- A load at `pc` of the constant at an index, and whether it is one for wide constants. -/
inductive LoadAt (code : Array UInt8) (pc index : Nat) : Bool → Prop
  | byte (hop : code[pc]? = some 0x12) (hindex : natAt code (pc + 1) = .ok index) : LoadAt code pc index false
  | word (hop : code[pc]? = some 0x13) (hindex : word16 code (pc + 1) = .ok index) : LoadAt code pc index false
  | wide (hop : code[pc]? = some 0x14) (hindex : word16 code (pc + 1) = .ok index) : LoadAt code pc index true

theorem operation_load {b : Body} {pc index : Nat} {wide : Bool} (h : LoadAt b.code pc index wide) :
    operation b pc = .ok (.loadConstant index wide) := by
  cases h with
  | byte hop hindex | word hop hindex | wide hop hindex =>
    unfold operation
    dsimp only
    rw [except_bind_of_ok (byteAt_eq_ok.2 hop)]
    simp only [UInt8.reduceToNat, Nat.reduceLeDiff, Nat.reduceEqDiff, or_self, if_false, if_true, simple]
    rw [except_bind_of_ok hindex]
    rfl

/-- Instructions are resolved one after the other. -/
theorem linkInstructions_resolved {pool : ConstantPool} {subject : String} {b : Body} {pcs : List Nat}
    {is : List Instruction} {l l' : Linker} (h : linkInstructions pool subject b pcs l = .ok is l') {k pc : Nat}
    (hpc : pcs[k]? = some pc) : ∃ op i l₁ l₂, operation b pc = .ok op ∧ l.Moves l₁ ∧
      SymbolSite.resolve ⟨pool, subject, pc⟩ op l₁ = .ok i l₂ ∧ l₂.Moves l' ∧ is[k]? = some i := by
  induction pcs generalizing k l is with
  | nil => cases hpc
  | cons first rest ih =>
    obtain ⟨op, l₁, hop, h⟩ := bind_ok.1 h
    obtain ⟨hoperation, rfl⟩ := ofExcept_ok hop
    obtain ⟨i, l₂, hi, h⟩ := bind_ok.1 h
    obtain ⟨is', l₃, his, h⟩ := bind_ok.1 h
    cases h
    cases k with
    | zero =>
      cases hpc
      exact ⟨op, i, l, l₂, hoperation, .refl, hi, (linkInstructions_moves pool subject b rest l₂).of_ok his, rfl⟩
    | succ k =>
      have hfirst := (SymbolSite.resolve_moves ⟨pool, subject, first⟩ op l).of_ok hi
      obtain ⟨op', i', l₄, l₅, hop', hmoves, hat⟩ := ih his hpc
      exact ⟨op', i', l₄, l₅, hop', hfirst.trans hmoves, hat⟩

end Decoding

namespace Linker
open Decoding

theorem linkBody_resolved {pool : ConstantPool} {subject : String} {raw : RawCode} {code : LinkedCode}
    {l l' : Linker} (h : linkBody pool subject raw l = .ok code l') {pcs : List Nat}
    (hpcs : starts raw.code = .ok pcs) {k pc : Nat} (hpc : pcs[k]? = some pc) :
    ∃ op i l₁ l₂, operation (.ofStarts raw.code pcs) pc = .ok op ∧ l.Moves l₁ ∧
      SymbolSite.resolve ⟨pool, subject, pc⟩ op l₁ = .ok i l₂ ∧ l₂.Moves l' ∧ code.get? k = some i := by
  obtain ⟨code', l₁, hdecode, h⟩ := bind_ok.1 h
  obtain ⟨_, l₂, hverify, h⟩ := bind_ok.1 h
  obtain ⟨_, rfl⟩ := ofExcept_ok hverify
  cases h
  unfold decode at hdecode
  split at hdecode
  · cases hdecode
  · obtain ⟨pcs', l₃, hpcs', hdecode⟩ := bind_ok.1 hdecode
    obtain ⟨hsplit, rfl⟩ := ofExcept_ok hpcs'
    cases hpcs.symm.trans hsplit
    obtain ⟨is, l₄, his, hdecode⟩ := bind_ok.1 hdecode
    obtain ⟨handlers, l₅, hhandlers, hdecode⟩ := bind_ok.1 hdecode
    cases hdecode
    obtain ⟨op, i, l₆, l₇, hop, hbefore, hi, hafter, hat⟩ := linkInstructions_resolved his hpc
    have hrest := (linkHandlers_moves pool subject _ raw.handlers l₄).of_ok hhandlers
    exact ⟨op, i, l₆, l₇, hop, hbefore, hi, hafter.trans hrest, by simpa [LinkedCode.get?] using hat⟩

/-- The first link of a method is one of its body. -/
theorem link_fresh {l l' : Linker} {id : MethodId} {c : ClassInfo} {m : Method} {raw : RawCode}
    {code : LinkedCode} (hc : l.classes.get? id.owner = some c) (hm : c.methods[id.index]? = some m)
    (hbody : m.body = .bytecode raw none) (h : link id l = (.ok code, l')) :
    ∃ l₁ l₂, l.Moves l₁ ∧ linkBody c.pool m.text raw l₁ = .ok code l₂ ∧
      l'.classes.byName = l₂.classes.byName := by
  rw [link, state_get, hc] at h
  dsimp only at h
  rw [hm] at h
  dsimp only at h
  rw [hbody] at h
  dsimp only at h
  rw [linkFresh, state_bind, state_bind] at h
  dsimp only at h
  cases hrun : linkBody c.pool m.text raw (prepare c.id l).2 with
  | ok code' l₂ =>
    rw [hrun] at h
    cases h
    exact ⟨_, l₂, .single (.prepare c.id), hrun, rfl⟩
  | error e l₂ =>
    rw [hrun] at h
    cases h

end Linker

theorem LinkM.ofExcept_ends {α β : Type} {x : Except LinkError α} {f : α → LinkM β} {l : Linker}
    {Q : β → Linker → Prop} (hf : ∀ a, x = .ok a → Ends (f a l) Q fun _ _ => True) :
    Ends ((LinkM.ofExcept x >>= f) l) Q fun _ _ => True := by
  cases x with
  | ok a => exact hf a rfl
  | error e => trivial

namespace SymbolSite
open LinkM ClassTable

variable (s : SymbolSite)

theorem loadClass_linked (name : String) (l : Linker) :
    Ends (s.loadClass name l) (fun i l' => (Constant.type name).Linked l.classes l'.classes i)
      fun _ _ => True := by
  unfold loadClass
  cases hfound : resolveName name l.classes with
  | mk found t =>
    apply ofClasses_ends hfound
    cases found with
    | none =>
      refine .inr ⟨?_, rfl⟩
      by_contra hnamed
      obtain ⟨id, hid⟩ := resolveName_found (.inl (Option.isSome_iff_ne_none.2 hnamed))
      rw [hfound] at hid
      cases hid
    | some id =>
      have hnamed : (resolveName name l.classes).2.lookup? name = some id :=
        lookup?_resolveName (congrArg Prod.fst hfound)
      exact .inl ⟨id, rfl, by rwa [hfound] at hnamed⟩

theorem loadConstant_linked (index : Nat) (wide : Bool) (l : Linker) :
    Ends (s.loadConstant index wide l)
      (fun i l' => ∃ e, s.pool.get? index = some e ∧ e.Linked l.classes l'.classes i) fun _ _ => True := by
  apply ofExcept_ends
  intro c hc
  have hpool := get?_of_constant hc
  split
  · exact ⟨_, hpool, rfl⟩
  · exact ⟨_, hpool, rfl⟩
  · exact ⟨_, hpool, rfl⟩
  · exact (s.loadClass_linked _ l).mono (fun _ _ h => ⟨_, hpool, h⟩) fun _ _ h => h
  · exact ⟨_, hpool, rfl⟩
  · exact ⟨_, hpool, rfl⟩
  · trivial

end SymbolSite

/-- Names that are known stay with their classes. -/
theorem Constant.Linked.around {t₀ t t' t₁ : ClassTable} {e : Constant} {i : Instruction} (h : e.Linked t t' i)
    (hbefore : ∀ name id, t₀.lookup? name = some id → t.lookup? name = some id)
    (hafter : ∀ name id, t'.lookup? name = some id → t₁.lookup? name = some id) : e.Linked t₀ t₁ i := by
  cases e with
  | type name =>
    refine h.imp (fun ⟨id, hi, hl⟩ => ⟨id, hi, hafter name id hl⟩) fun ⟨hnone, hi⟩ => ⟨?_, hi⟩
    exact Option.eq_none_iff_forall_ne_some.2 fun id hl => by
      rw [hbefore name id hl] at hnone
      cases hnone
  | _ => exact h

/-- What a load is linked to. -/
theorem Linker.linkBody_load {pool : ConstantPool} {subject : String} {raw : RawCode} {code : LinkedCode}
    {l l' : Linker} (h : linkBody pool subject raw l = .ok code l') {pcs : List Nat}
    (hpcs : Decoding.starts raw.code = .ok pcs) {k pc index : Nat} {wide : Bool} (hpc : pcs[k]? = some pc)
    (hload : Decoding.LoadAt raw.code pc index wide) {e : Constant} (he : pool.get? index = some e) :
    ∃ i, code.get? k = some i ∧ e.Linked l.classes l'.classes i := by
  obtain ⟨op, i, l₁, l₂, hop, hbefore, hi, hafter, hat⟩ := linkBody_resolved h hpcs hpc
  cases (Decoding.operation_load (b := .ofStarts raw.code pcs) hload).symm.trans hop
  obtain ⟨e', he', hlinked⟩ := (SymbolSite.loadConstant_linked ⟨pool, subject, pc⟩ index wide l₁).of_ok hi
  cases he.symm.trans he'
  exact ⟨i, hat, hlinked.around (Changes.names (Moves.changes hbefore)) (Changes.names (Moves.changes hafter))⟩

namespace Machine

variable {m : Machine} {f : Frame} {rest : FrameStack}

theorem internString_denotes (classes : ClassTable) (text : String) (m : Machine) :
    Ends (internString text m) (fun r m' => m'.active = m.active ∧
      (Constant.string text).Denotes classes m.heap m'.heap (.ref r)) fun _ _ => True := by
  unfold internString
  rw [bind_get]
  cases hi : m.heap.interned? text with
  | some r => exact ⟨rfl, r, rfl, hi, .inl hi⟩
  | none =>
    cases hmade : stringObject text m with
    | error e m' =>
      dsimp only
      rw [bind_of_error hmade]
      trivial
    | ok r m' =>
      dsimp only
      rw [bind_of_ok hmade]
      have hallocated : allocate (Object.ofPayload m.core.string [] (.str text)) m = .ok r m' := hmade
      obtain ⟨hsame, hobject⟩ := allocate_made hallocated
      have hinterned : (m'.heap.intern text r).interned? text = some r := Std.ExtTreeMap.getElem?_insert_self
      refine ⟨hsame, r, rfl, hinterned, .inr ⟨hi, ?_⟩⟩
      show (m'.heap.get? r).bind Object.text? = some text
      rw [hobject]
      rfl

theorem mirror_denotes {classes : ClassTable} {name : String} {id : ClassId}
    (hid : classes.lookup? name = some id) (m : Machine) :
    Ends (mirror id m) (fun r m' => m'.active = m.active ∧
      (Constant.type name).Denotes classes m.heap m'.heap (.ref r)) fun _ _ => True := by
  unfold mirror
  rw [bind_get]
  cases hi : m.heap.mirror? id with
  | some r => exact ⟨rfl, r, id, rfl, hid, hi, .inl hi⟩
  | none =>
    dsimp only
    rw [bind_get]
    cases hmade : allocate (Object.ofPayload m.core.type [] (.mirror id)) m with
    | error e m' =>
      rw [bind_of_error hmade]
      trivial
    | ok r m' =>
      rw [bind_of_ok hmade]
      obtain ⟨hsame, hobject⟩ := allocate_made hmade
      have hregistered : (m'.heap.registerMirror id r).mirror? id = some r :=
        Std.ExtTreeMap.getElem?_insert_self
      refine ⟨hsame, r, id, rfl, hid, hregistered, .inr ⟨hi, ?_⟩⟩
      show (m'.heap.get? r).map Object.payload = some (.mirror id)
      rw [hobject]
      rfl

/-- A step pushes what the constant stands for onto the frame in front and goes on behind the load. It
fails where an object has to be made and cannot be, and changes nothing else where there is no object. -/
def Pushes (classes : ClassTable) (e : Constant) (m : Machine) (f : Frame) (rest : FrameStack) :
    EStateM.Result Trap Machine Flow → Prop :=
  (Ends · (fun flow m' => flow = .next ∧ ∃ v, e.Denotes classes m.heap m'.heap v ∧
    m'.active = { f with pc := f.pc + 1, stack := v :: f.stack } :: rest ∧
    (e.isObject = false → m' = { m with active := m'.active })) fun _ _ => e.isObject = true)

theorem pushingRef_pushes {classes : ClassTable} {e : Constant} {x : MachineM Ref} (he : e.isObject = true)
    (hx : ∀ m : Machine, Ends (x m) (fun r m' => m'.active = m.active ∧
      e.Denotes classes m.heap m'.heap (.ref r)) fun _ _ => True) :
    Pushes classes e m f rest (pushingRef x { m with active := { f with pc := f.pc + 1 } :: rest }) := by
  unfold pushingRef
  refine Ends.bind ((hx _).mono (fun _ _ h => h) fun _ _ _ => he) fun r m' ⟨hsame, hdenotes⟩ => ?_
  have hpushed : push (.ref r) m' =
      .ok () { m' with active := { f with pc := f.pc + 1, stack := .ref r :: f.stack } :: rest } := by
    unfold push onTop
    rw [hsame]
    rfl
  rw [bind_of_ok hpushed]
  exact ⟨rfl, .ref r, hdenotes, rfl, fun hnone => by rw [he] at hnone; cases hnone⟩

/-- A load that was linked to more than a placeholder pushes its constant. -/
theorem executeOne_pushes {before classes : ClassTable} {e : Constant} {i : Instruction}
    (hlinked : e.Linked before classes i) (hfound : ¬ i.IsPlaceholder) (hactive : m.active = f :: rest)
    (hi : f.code.get? f.pc = some i) (n : Nested) (t : ThreadId) :
    Pushes classes e m f rest (executeOne n t m) := by
  rw [executeOne_at hactive hi]
  cases e with
  | integer x | float bits | long x | double bits =>
    cases hlinked
    exact ⟨rfl, _, rfl, rfl, fun _ => rfl⟩
  | string text =>
    cases hlinked
    exact pushingRef_pushes rfl (internString_denotes classes text)
  | type name =>
    rcases hlinked with ⟨id, rfl, hid⟩ | ⟨-, hplaceholder⟩
    · exact pushingRef_pushes rfl (mirror_denotes hid)
    · exact absurd ⟨_, hplaceholder⟩ hfound
  | _ => cases hlinked

/-- The instruction at an index of linked code loads a constant. Where it names a class that was unknown
before, there may be a placeholder in place of the load. -/
def LoadsAt (before classes : ClassTable) (code : LinkedCode) (k : Nat) (e : Constant) : Prop :=
  (∃ name, e = .type name ∧ before.lookup? name = none ∧
    code.get? k = some (.unresolved ⟨.type, name, [], some .one⟩)) ∨
    ∀ (n : Nested) (t : ThreadId) (m : Machine) (f : Frame) (rest : FrameStack), m.active = f :: rest →
      f.code = code → f.pc = k → Pushes classes e m f rest (executeOne n t m)

theorem loadsAt_of_linked {before classes : ClassTable} {code : LinkedCode} {k : Nat} {e : Constant}
    {i : Instruction} (hi : code.get? k = some i) (hlinked : e.Linked before classes i) :
    LoadsAt before classes code k e := by
  by_cases hplaceholder : i.IsPlaceholder
  · left
    obtain ⟨symbol, rfl⟩ := hplaceholder
    cases e with
    | type name =>
      rcases hlinked with ⟨id, heq, -⟩ | ⟨hnone, heq⟩
      · cases heq
      · exact ⟨name, rfl, hnone, heq ▸ hi⟩
    | _ => cases hlinked
  · right
    rintro n t m f rest hactive rfl rfl
    exact executeOne_pushes hlinked hplaceholder hactive hi n t

end Machine

namespace ClassBuilder
open ConstantPool

/-- A pool gives each constant an index at which it is found, now and later. So a load in a class that comes
of a builder, at an index that the builder gave, pushes what the builder was asked for. It is only a zero of
floating point that may come back as the other one, and only where that was in the pool before. -/
theorem constants_load (c : Constant) :
    (∀ additions : List Addition, let p := addAll additions .empty
      p.size < indexLimit → (∃ e, (p.intern c).2.get? (p.intern c).1 = some e ∧
        (e = c ∨ c.otherZero? = some e ∧ ∃ i, p.get? i = some e)) ∧
        ∀ (more : List Addition) i e, p.get? i = some e → (addAll more p).get? i = some e) ∧
    ∀ (b handing : ClassBuilder) (calls more : List Call) (index : Nat), b.Begins →
      (∀ call ∈ calls ++ .constant c :: more, call.Names) → (runAll calls b).constant c = (index, handing) →
      (runAll calls b).pool.size < indexLimit →
      ∃ e, (e = c ∨ c.otherZero? = some e ∧ ∃ i, (runAll calls b).pool.get? i = some e) ∧
        ∀ (l l₁ l₂ : Linker) (id : ClassId) (info : ClassInfo) (j : Nat) (m : Method) (raw : RawCode)
          (code : LinkedCode), (ClassTable.register (runAll more handing).build l.classes).1 = .ok id →
          ((Linker.Request.register (runAll more handing).build).run l).Leads l₁ →
          l₁.classes.get? id = some info → info.methods[j]? = some m → m.body = .bytecode raw none →
          Linker.link ⟨id, j⟩ l₁ = (.ok code, l₂) →
          ∀ (pcs : List Nat) (k pc : Nat) (wide : Bool), Decoding.starts raw.code = .ok pcs →
            pcs[k]? = some pc → Decoding.LoadAt raw.code pc index wide →
            Machine.LoadsAt l₁.classes l₂.classes code k e := by
  refine ⟨fun additions => ?_, fun b handing calls more index hb h hgiven hsmall => ?_⟩
  · intro p hsmall
    exact ⟨get?_intern hsmall c, fun more => extends_addAll more p⟩
  · have hmade : (runAll more handing).pool.Made := runAll_constant more hgiven ▸ made_runAll hb.made h
    obtain ⟨e, he, hasked⟩ := get?_intern hsmall c
    refine ⟨e, hasked, ?_⟩
    intro l l₁ l₂ id info j m raw code hregister hleads hinfo hm hbody hlink pcs k pc wide hpcs hpc hload
    obtain ⟨info', hinfo', hpool⟩ := pool_registered hmade hregister hleads
    cases hinfo.symm.trans hinfo'
    obtain ⟨l₃, l₄, hbefore, hlinked, hnames⟩ := Linker.link_fresh hinfo hm hbody hlink
    have hat : info.pool.get? index = some e := by
      cases hgiven
      rw [hpool, pool_runAll]
      exact extends_addAll _ _ _ e he
    obtain ⟨i, hi, hform⟩ := Linker.linkBody_load hlinked hpcs hpc hload hat
    refine Machine.loadsAt_of_linked hi
      (hform.around (Linker.Changes.names (Linker.Moves.changes hbefore)) fun name id hl => ?_)
    unfold ClassTable.lookup?
    rw [hnames]
    exact hl

/-- A body that loads the second constant and returns it. -/
def returningSecond : RawCode := { maxStack := 1, maxLocals := 0, code := #[0x12, 2, 0xae] }

/-- A class with a method that returns a pattern that is not a number. -/
def oddNumber : ClassBuilder :=
  runAll [.constant (.float 0x7fc00001),
    .method "odd" "()F" (AccessFlags.publicFlag.union .staticFlag) returningSecond]
    (runAll [.constant (.integer 7)] (ofName "Numbers"))

/-- The linker that has the class. -/
def oddLinker : Linker := (Linker.Request.register oddNumber.build).run {}

theorem constants_load_odd : ∃ code l, Linker.link ⟨0, 0⟩ oddLinker = (.ok code, l) ∧
    Machine.LoadsAt oddLinker.classes l.classes code 0 (.float 0x7fc00001) := by
  have hnamed : ∀ call ∈ [Call.constant (.integer 7)] ++ .constant (.float 0x7fc00001) ::
      [.method "odd" "()F" (AccessFlags.publicFlag.union .staticFlag) returningSecond], call.Names := by
    intro call hcall heq
    simp [heq] at hcall
  have hregister : (ClassTable.register oddNumber.build ({} : Linker).classes).1 = .ok 0 :=
    except_of_toOption (by decide +kernel)
  have hbody : ((oddLinker.classes.get? 0).bind (·.methods[0]?)).bind Method.unlinked? = some returningSecond := by
    decide +kernel
  have hlinks : (Linker.link ⟨0, 0⟩ oddLinker).1.toOption.isSome = true := by decide +kernel
  obtain ⟨m, hm, hraw⟩ := Option.bind_eq_some_iff.1 hbody
  obtain ⟨info, hinfo, hm⟩ := Option.bind_eq_some_iff.1 hm
  obtain ⟨code, hcode⟩ := Option.isSome_iff_exists.1 hlinks
  have hlink : Linker.link ⟨0, 0⟩ oddLinker = (.ok code, (Linker.link ⟨0, 0⟩ oddLinker).2) :=
    Prod.ext (except_of_toOption hcode) rfl
  obtain ⟨e, hasked, hloads⟩ := (constants_load (.float 0x7fc00001)).2 _ _ [.constant (.integer 7)]
    [.method "odd" "()F" (AccessFlags.publicFlag.union .staticFlag) returningSecond] 2 (.name "Numbers") hnamed rfl
    (by decide)
  have hexact : e = .float 0x7fc00001 := by
    rcases hasked with rfl | ⟨hzero, -⟩
    · rfl
    · cases hzero
  exact ⟨code, _, hlink, hexact ▸ hloads {} oddLinker _ 0 info 0 m returningSecond code hregister .refl hinfo hm
    (Method.unlinked?_eq_some.1 hraw) hlink [0, 2] 0 0 false (by decide +kernel) rfl (.byte rfl rfl)⟩

/-- Zero is there, and stands in for its opposite. -/
theorem intern_sharesZero : let p := (ConstantPool.empty.intern (.float 0)).2
    (p.intern (.float 0x80000000)).1 = 1 ∧ (p.intern (.float 0x80000000)).2.get? 1 = some (.float 0) := by
  decide

end ClassBuilder
end ClassMachine
