import ClassMachine.Proofs.Link.Dispatch
import ClassMachine.Proofs.Link.Forms
import ClassMachine.Proofs.Link.Initialization
import ClassMachine.Proofs.Link.Operations

/-!
Slots of static fields. They count up in each class, from the time it is loaded. So a field that is found
when a body is linked lies within the static fields of its class, and what was linked goes on fitting the
classes, however many are loaded after it.
-/
namespace ClassMachine
open Stateful

namespace ClassInfo

variable {c c' : ClassInfo}

/-- Static fields lie within the slots there are for them. Classes of arrays have none. -/
def NumbersStatics (c : ClassInfo) : Prop :=
  ∀ f ∈ c.fields, f.isStatic = true →
    c.element = none ∧ ∃ slot, f.slot = some slot ∧ slot < c.staticKinds.length

theorem unplaced_of_isStatic {f : Field} (hf : f.isStatic = true) : f.unplaced = f := by
  rw [Field.unplaced, if_pos hf]

theorem staticFields_unplaced (fields : List Field) :
    (fields.map Field.unplaced).filter Field.isStatic = fields.filter Field.isStatic := by
  induction fields with
  | nil => rfl
  | cons f fields ih =>
    rw [List.map_cons, List.filter_cons, List.filter_cons, Field.isStatic_unplaced, ih]
    split
    · next hf => rw [unplaced_of_isStatic hf]
    · rfl

/-- Static fields are not touched by laying out a class. -/
theorem staticFields_bare (h : c'.bare = c.bare) :
    c'.fields.toList.filter Field.isStatic = c.fields.toList.filter Field.isStatic := by
  rw [← staticFields_unplaced, ← staticFields_unplaced c.fields.toList,
    show c'.fields.toList.map Field.unplaced = _ from congrArg Prod.snd h]
  rfl

theorem staticKinds_bare (h : c'.bare = c.bare) : c'.staticKinds = c.staticKinds :=
  congrArg (List.map Field.kind) (staticFields_bare h)

theorem NumbersStatics.settles (h : c.NumbersStatics) (hs : c.Settles c') (he : c'.element = c.element) :
    c'.NumbersStatics := by
  intro f hf hstatic
  have hmem : f ∈ c'.fields.toList.filter Field.isStatic :=
    List.mem_filter.2 ⟨Array.mem_toList_iff.2 hf, hstatic⟩
  rw [staticFields_bare hs.bare] at hmem
  obtain ⟨helement, slot, hslot, hlt⟩ :=
    h f (Array.mem_toList_iff.1 (List.mem_filter.1 hmem).1) hstatic
  exact ⟨he.trans helement, slot, hslot, staticKinds_bare hs.bare ▸ hlt⟩

theorem MadeForArray.numbersStatics (h : c.MadeForArray) : c.NumbersStatics := by
  intro f hf
  rw [h.fields] at hf
  simp at hf

end ClassInfo

namespace ClassTable

variable {t t' : ClassTable} {owner : ClassId} {slot : Nat}

theorem slots_numberStatics (next : Nat) (fields : List Field) :
    ((numberStatics next fields).filter Field.isStatic).map Field.slot =
      (List.range' next (fields.filter Field.isStatic).length).map some := by
  induction fields generalizing next with
  | nil => rfl
  | cons f fields ih =>
    unfold numberStatics
    by_cases hstatic : f.isStatic
    · have hplaced : Field.isStatic { f with slot := some next } = true := hstatic
      simp [hstatic, hplaced, ih, List.range'_succ]
    · simp [hstatic, ih]

theorem length_numberStatics (next : Nat) (fields : List Field) :
    ((numberStatics next fields).filter Field.isStatic).length = (fields.filter Field.isStatic).length := by
  have hslots := congrArg List.length (slots_numberStatics next fields)
  simpa using hslots

/-- A class numbers its static fields when it is loaded. -/
theorem numbersStatics_definedInfo (d : ClassDefinition) (fields : List Field)
    (signatures : List MethodDescriptor) (id : ClassId) :
    (definedInfo d fields signatures id).NumbersStatics := by
  intro f hf hstatic
  refine ⟨rfl, ?_⟩
  have hfields : (definedInfo d fields signatures id).fields.toList = numberStatics 0 fields := rfl
  have hmem : f ∈ (numberStatics 0 fields).filter Field.isStatic :=
    List.mem_filter.2 ⟨hfields ▸ Array.mem_toList_iff.2 hf, hstatic⟩
  have hslot : f.slot ∈ ((numberStatics 0 fields).filter Field.isStatic).map Field.slot :=
    List.mem_map_of_mem hmem
  rw [slots_numberStatics] at hslot
  obtain ⟨slot, hrange, hslot⟩ := List.mem_map.1 hslot
  refine ⟨slot, hslot.symm, ?_⟩
  rw [ClassInfo.staticKinds, List.length_map, hfields, length_numberStatics]
  simpa using hrange

/-- A class that is there has a static field in that slot. -/
def HasStatic (t : ClassTable) (owner : ClassId) (slot : Nat) : Prop :=
  ∃ c, t.get? owner = some c ∧ c.element = none ∧ slot < c.staticKinds.length

theorem HasStatic.precedes (h : t.HasStatic owner slot) (hp : t.Precedes t') : t'.HasStatic owner slot := by
  obtain ⟨c, hc, helement, hlt⟩ := h
  obtain ⟨c', hc', hsettles, helement', _⟩ := hp owner c hc
  exact ⟨c', hc', helement'.trans helement, ClassInfo.staticKinds_bare hsettles.bare ▸ hlt⟩

end ClassTable

/-- Accesses a static field that is there, if it accesses one at all. -/
def Instruction.Sited (t : ClassTable) : Instruction → Prop
  | .getStatic owner slot _ => t.HasStatic owner slot
  | .putStatic owner slot _ => t.HasStatic owner slot
  | _ => True

theorem Instruction.sited_of_not_static {i : Instruction} (hi : i.isStaticAccess = false) (t : ClassTable) :
    i.Sited t := by
  cases i with
  | getStatic owner slot kind => cases hi
  | putStatic owner slot kind => cases hi
  | _ => trivial

theorem Instruction.Sited.precedes {i : Instruction} {t t' : ClassTable} (h : i.Sited t) (hp : t.Precedes t') :
    i.Sited t' := by
  cases i with
  | getStatic owner slot kind => exact ClassTable.HasStatic.precedes h hp
  | putStatic owner slot kind => exact ClassTable.HasStatic.precedes h hp
  | _ => trivial

/-- All static fields that are accessed are there. -/
def LinkedCode.Sited (t : ClassTable) (code : LinkedCode) : Prop := ∀ i ∈ code.instructions, i.Sited t

theorem LinkedCode.Sited.precedes {code : LinkedCode} {t t' : ClassTable} (h : code.Sited t)
    (hp : t.Precedes t') : code.Sited t' := fun i hi => (h i hi).precedes hp

namespace ClassTable

/-- Static fields are numbered, and bodies that were linked access those that are there. -/
structure Sited (t : ClassTable) : Prop where
  numbered : ∀ id c, t.get? id = some c → c.NumbersStatics
  bodies : ∀ id c, t.get? id = some c → ∀ m ∈ c.methods, ∀ code, m.linked? = some code → code.Sited t

variable {t t' : ClassTable}

theorem sited_empty : ({} : ClassTable).Sited := by
  constructor <;> intro id c hc <;>
    rw [show ({} : ClassTable).get? id = none from rfl] at hc <;> cases hc

/-- What is kept when classes are added and methods change. -/
theorem Sited.become (h : t.Sited) (hp : t.Precedes t')
    (hadded : ∀ id c, t.get? id = none → t'.get? id = some c → c.NumbersStatics)
    (hbodies : ∀ id c', t'.get? id = some c' → ∀ m' ∈ c'.methods, ∀ code, m'.linked? = some code →
      code.Sited t' ∨ ∃ c m, t.get? id = some c ∧ m ∈ c.methods ∧ m.linked? = some code) : t'.Sited := by
  constructor
  · intro id c' hc'
    cases hc : t.get? id with
    | none => exact hadded id c' hc hc'
    | some c =>
      obtain ⟨c'', hc'', hsettles, helement, _⟩ := hp id c hc
      cases hc'.symm.trans hc''
      exact (h.numbered id c hc).settles hsettles helement
  · intro id c' hc' m' hm' code hcode
    rcases hbodies id c' hc' m' hm' code hcode with hsited | ⟨c, m, hc, hm, hlinked⟩
    · exact hsited
    · exact (h.bodies id c hc m hm code hlinked).precedes hp

theorem Sited.takePendingInit (h : t.Sited) (id : ClassId) : (takePendingInit id t).2.Sited := by
  have hbefore : ∀ x c', (ClassTable.takePendingInit id t).2.get? x = some c' →
      ∃ c, t.get? x = some c ∧ c'.methods = c.methods := by
    intro x c' hc'
    rw [get?_takePendingInit] at hc'
    split at hc'
    · obtain ⟨c, hc, rfl⟩ := Option.map_eq_some_iff.1 hc'
      exact ⟨c, hc, rfl⟩
    · exact ⟨c', hc', rfl⟩
  refine h.become (takePendingInit_precedes id t) (fun x c' hnone hc' => ?_) fun x c' hc' m' hm' code hcode => ?_
  · obtain ⟨c, hc, _⟩ := hbefore x c' hc'
    cases hnone.symm.trans hc
  · obtain ⟨c, hc, hmethods⟩ := hbefore x c' hc'
    exact .inr ⟨c, m', hc, hmethods ▸ hm', hcode⟩

/-- Methods change in a way that leaves the classes as they are. -/
theorem Sited.updateMethod (h : t.Sited) (id : MethodId) {f : Method → Method} (hid : ∀ m, (f m).id = m.id)
    (hf : ∀ m code, (f m).linked? = some code → code.Sited t) : (t.updateMethod id f).Sited := by
  have hprecedes := (unfolds_updateMethod t id hid).precedes
  refine h.become hprecedes (fun x c' hnone hc' => ?_) fun x c' hc' m' hm' code hcode => ?_
  · rw [get?_updateMethod, hnone] at hc'
    simp at hc'
  · rw [get?_updateMethod] at hc'
    split at hc'
    · obtain ⟨c, hc, rfl⟩ := Option.map_eq_some_iff.1 hc'
      obtain ⟨i, hi⟩ := Array.mem_iff_getElem?.1 hm'
      rw [Array.getElem?_modify] at hi
      split at hi
      · obtain ⟨m, _, rfl⟩ := Option.map_eq_some_iff.1 hi
        exact .inl ((hf m code hcode).precedes hprecedes)
      · exact .inr ⟨c, m', hc, Array.mem_of_getElem? hi, hcode⟩
    · exact .inr ⟨c', m', hc', hm', hcode⟩

/-- A class comes without linked bodies. -/
theorem Sited.loaded {d : ClassDefinition} {fields : List Field} {signatures : List MethodDescriptor}
    {id : ClassId} (h : t.Sited) (hinsert : t.insert d.name (definedInfo d fields signatures) = .ok (id, t')) :
    t'.Sited := by
  obtain ⟨_, _, _, hpush, _⟩ := insert_eq hinsert
  refine h.become (unfolds_loaded hinsert).precedes (fun x c' hnone hc' => ?_)
    fun x c' hc' m' hm' code hcode => ?_
  · rw [get?_push hpush, hnone] at hc'
    split at hc'
    · cases hc'
      exact numbersStatics_definedInfo d fields signatures _
    · cases hc'
  · rw [get?_push hpush] at hc'
    split at hc'
    · cases hc'
      simp only [definedInfo, buildMethods, List.mem_toArray, List.mem_map] at hm'
      obtain ⟨⟨⟨md, signature⟩, index⟩, _, rfl⟩ := hm'
      unfold Method.linked? bodyOf at hcode
      dsimp only at hcode
      split at hcode
      · next hbody =>
        split at hbody
        · cases hbody
        · split at hbody <;> cases hbody
      · cases hcode
    · exact .inr ⟨c', m', hc', hm', hcode⟩

end ClassTable

namespace Linker
open ClassTable

variable {l l' : Linker}

theorem prepareOne_methods (inherited : Inheritance) (id : ClassId) (l : Linker) {x : ClassId} {c : ClassInfo}
    (hc : l.classes.get? x = some c) :
    ∃ c', (prepareOne inherited id l).2.classes.get? x = some c' ∧ c'.methods = c.methods := by
  obtain ⟨c₁, hc₁, hmethods⟩ := Asks.methods (interfaces_asks id l.classes) hc
  cases hid : (interfaces id l.classes).2.get? id with
  | none =>
    rw [prepareOne_unknown hid]
    exact ⟨c₁, hc₁, hmethods⟩
  | some c₂ =>
    rw [prepareOne_run hid rfl]
    dsimp only
    rw [get?_update]
    split
    · next hx =>
      subst hx
      cases hid.symm.trans hc₁
      refine ⟨_, by rw [hid]; rfl, ?_⟩
      show (layOut inherited.kinds c₁).methods = c.methods
      rw [← hmethods]
      unfold layOut
      split <;> rfl
    · exact ⟨c₁, hc₁, hmethods⟩

theorem foldlM_prepareOne_methods (ids : List ClassId) (inherited : Inheritance) (l : Linker) {x : ClassId}
    {c : ClassInfo} (hc : l.classes.get? x = some c) :
    ∃ c', (ids.foldlM prepareOne inherited l).2.classes.get? x = some c' ∧ c'.methods = c.methods := by
  induction ids generalizing inherited l c with
  | nil => exact ⟨c, hc, rfl⟩
  | cons id ids ih =>
    obtain ⟨c₁, hc₁, hmethods⟩ := prepareOne_methods inherited id l hc
    rw [List.foldlM_cons, state_bind]
    obtain ⟨c₂, hc₂, hmethods₂⟩ := ih (prepareOne inherited id l).1 (prepareOne inherited id l).2 hc₁
    exact ⟨c₂, hc₂, hmethods₂.trans hmethods⟩

theorem prepare_methods (id : ClassId) (l : Linker) {x : ClassId} {c : ClassInfo}
    (hc : l.classes.get? x = some c) :
    ∃ c', (prepare id l).2.classes.get? x = some c' ∧ c'.methods = c.methods := by
  rw [prepare, state_get]
  cases l.classes.get? id with
  | none => exact ⟨c, hc, rfl⟩
  | some c₀ =>
    dsimp only
    split
    · exact ⟨c, hc, rfl⟩
    · obtain ⟨c₁, hc₁, hmethods⟩ := Asks.methods (ancestry_asks id l.classes) hc
      obtain ⟨c₂, hc₂, hmethods₂⟩ := foldlM_prepareOne_methods (ancestry id l.classes).1.reverse {}
        { l with classes := (ancestry id l.classes).2 } hc₁
      exact ⟨c₂, hc₂, hmethods₂.trans hmethods⟩

/-- Bodies are linked by nothing a linker does on the way. -/
theorem Move.methods (h : l.Move l') {x : ClassId} {c : ClassInfo} (hc : l.classes.get? x = some c) :
    ∃ c', l'.classes.get? x = some c' ∧ c'.methods = c.methods := by
  cases h with
  | ask hask => exact Asks.methods (.single hask) hc
  | intern name descriptor => exact ⟨c, hc, rfl⟩
  | prepare id => exact prepare_methods id l hc

theorem Move.sited (h : l.Move l') (hl : l.classes.Sited) : l'.classes.Sited := by
  have hgrows := h.grows.classes
  refine hl.become hgrows.unfolds.precedes (fun x c' hnone hc' => (hgrows.added x c' hnone hc').1.numbersStatics)
    fun x c' hc' m' hm' code hcode => ?_
  cases hc : l.classes.get? x with
  | none =>
    rw [(hgrows.added x c' hc hc').1.methods] at hm'
    simp at hm'
  | some c =>
    obtain ⟨c'', hc'', hmethods⟩ := h.methods hc
    cases hc'.symm.trans hc''
    exact .inr ⟨c, m', rfl, hmethods ▸ hm', hcode⟩

theorem Moves.sited (h : l.Moves l') (hl : l.classes.Sited) : l'.classes.Sited := by
  induction h with
  | refl => exact hl
  | tail _ hmove ih => exact hmove.sited ih

theorem Moves.precedes (h : l.Moves l') : l.classes.Precedes l'.classes := (Moves.grows h).classes.unfolds.precedes

theorem register_sited (d : ClassDefinition) (l : Linker) (hl : l.classes.Sited) :
    (ClassTable.register d l.classes).2.Sited := by
  have hlogged : ∀ (ms : List MethodDefinition) (t : ClassTable), t.Sited → ClassTable.Sited
      (ms.foldl (fun t m => t.record .warning s!"{d.name}.{m.name}{m.descriptor}"
        "concrete method has no code; treated as abstract") t) := by
    intro ms
    induction ms with
    | nil => exact fun _ h => h
    | cons m ms ih => exact fun t h => ih _ ⟨h.numbered, h.bodies⟩
  unfold ClassTable.register
  split
  · next id t hload =>
    obtain ⟨fields, _, hload⟩ := except_bind_ok.1 hload
    obtain ⟨signatures, _, hload⟩ := except_bind_ok.1 hload
    obtain ⟨⟨id₁, t₁⟩, hinsert, hload⟩ := except_bind_ok.1 hload
    cases hload
    exact hlogged _ t₁ (hl.loaded hinsert)
  · exact ⟨hl.numbered, hl.bodies⟩

end Linker

/-- Only where a static field is named is one accessed. -/
theorem Operation.Form.isStaticAccess {pool : ConstantPool} {op : Operation} {i : Instruction}
    (h : op.Form pool i) (hi : i.isStaticAccess = true) :
    op = .plain i ∨ ∃ index put, op = .staticField index put := by
  have hplaceholder : i.IsPlaceholder → False := by
    rintro ⟨symbol, rfl⟩
    cases hi
  cases op with
  | plain j =>
    cases (show i = j from h)
    exact .inl rfl
  | staticField index put => exact .inr ⟨index, put, rfl⟩
  | loadConstant index wide =>
    obtain ⟨c, _, hloads⟩ := h
    exfalso
    unfold Constant.Loads at hloads
    split at hloads
    all_goals first
      | subst hloads; cases hi
      | exact hloads.elim (fun ⟨_, h⟩ => by subst h; cases hi) hplaceholder
      | exact hloads
  | instanceField index put =>
    obtain ⟨member, type, _, rfl | ⟨slot, rfl⟩ | h⟩ := h
    · cases put <;> cases hi
    · cases put <;> cases hi
    · exact (hplaceholder h).elim
  | invoke kind index =>
    obtain ⟨member, d, _, h | h⟩ := h
    · exfalso
      cases kind with
      | static => obtain ⟨method, rfl⟩ := h; cases hi
      | special => obtain ⟨method, rfl⟩ := h; cases hi
      | interface => obtain ⟨signature, rfl⟩ := h; cases hi
      | virtual =>
        obtain ⟨signature, rfl⟩ := h
        split at hi <;> cases hi
    · exact (hplaceholder h).elim
  | classUse use index =>
    obtain ⟨name, _, ⟨id, rfl⟩ | h⟩ := h
    · cases use <;> cases hi
    · exact (hplaceholder h).elim

namespace SymbolSite
open LinkM ClassTable

variable (s : SymbolSite) {t : ClassTable} {l l' : Linker}

/-- The slot of a field that is found is one its class has. -/
theorem staticSlot?_hasStatic (ht : t.Sited) {id : FieldId} {slot : Nat} {kind : Kind}
    (h : staticSlot? t id = some (slot, kind)) : t.HasStatic id.owner slot := by
  obtain ⟨c, hc, h⟩ := Option.bind_eq_some_iff.1 h
  obtain ⟨f, hf, h⟩ := Option.bind_eq_some_iff.1 h
  split at h
  · next hstatic =>
    obtain ⟨found, hslot, h⟩ := Option.bind_eq_some_iff.1 h
    cases h
    obtain ⟨helement, slot', hslot', hlt⟩ := ht.numbered _ c hc f (Array.mem_of_getElem? hf) hstatic
    cases hslot.symm.trans hslot'
    exact ⟨c, hc, helement, hlt⟩
  · cases h

theorem staticAccess_sited (put : Bool) (member : MemberRef) (type : FieldType) (hl : l.classes.Sited) :
    Ends (s.staticAccess put member type l) (fun i l' => i.Sited l'.classes) fun _ _ => True := by
  have hmissing : ∀ kind symbol pops push l, Ends (s.missing kind symbol pops push l)
      (fun i l' => i.Sited l'.classes) fun _ _ => True := fun _ _ _ _ _ => trivial
  unfold staticAccess
  rw [bind_get]
  cases l.classes.lookup? member.owner with
  | none => exact hmissing _ _ _ _ _
  | some owner =>
    dsimp only
    cases hfound : ClassTable.resolveField owner member.name member.descriptor l.classes with
    | mk found t =>
      apply ofClasses_ends hfound
      cases found with
      | error e => exact hmissing _ _ _ _ _
      | ok id =>
        have hasks : l.classes.Asks t := by
          have := resolveField_asks owner member.name member.descriptor l.classes
          rwa [hfound] at this
        have ht : t.Sited := Linker.Moves.sited (Linker.moves_of_asks hasks) hl
        dsimp only
        rw [bind_get]
        dsimp only
        cases hslot : staticSlot? t id with
        | none => exact hmissing _ _ _ _ _
        | some access =>
          have hstatic : t.HasStatic id.owner access.1 := staticSlot?_hasStatic ht hslot
          cases put <;> exact hstatic

/-- An instruction that was resolved accesses a static field that is there. -/
theorem resolve_sited {b : Decoding.Body} {pc : Nat} {op : Operation} {i : Instruction}
    (hop : Decoding.operation b pc = .ok op) (hl : l.classes.Sited) (h : s.resolve op l = .ok i l') :
    i.Sited l'.classes := by
  cases hi : i.isStaticAccess with
  | false => exact i.sited_of_not_static hi _
  | true =>
    rcases ((s.resolve_form op l).of_ok h).isStaticAccess hi with rfl | ⟨index, put, rfl⟩
    · rw [Decoding.operation_plain hop] at hi
      cases hi
    · obtain ⟨member, l₁, hmember, h⟩ := bind_ok.1 h
      obtain ⟨type, l₂, htype, h⟩ := bind_ok.1 h
      obtain ⟨_, rfl⟩ := Decoding.ofExcept_ok hmember
      obtain ⟨_, rfl⟩ := Decoding.ofExcept_ok htype
      exact (s.staticAccess_sited put member type hl).of_ok h

end SymbolSite

namespace Linker
open ClassTable Decoding

variable {l l' : Linker}

theorem linkInstructions_sited {pool : ConstantPool} {subject : String} {b : Decoding.Body} {pcs : List Nat}
    {is : List Instruction} (hl : l.classes.Sited)
    (h : Decoding.linkInstructions pool subject b pcs l = .ok is l') : ∀ i ∈ is, i.Sited l'.classes := by
  induction pcs generalizing l is with
  | nil =>
    cases h
    simp
  | cons pc rest ih =>
    obtain ⟨op, l₁, hop, h⟩ := bind_ok.1 h
    obtain ⟨hoperation, rfl⟩ := ofExcept_ok hop
    obtain ⟨i, l₂, hi, h⟩ := bind_ok.1 h
    obtain ⟨is', l₃, his, h⟩ := bind_ok.1 h
    cases h
    have hmoves := (SymbolSite.resolve_moves ⟨pool, subject, pc⟩ op l).of_ok hi
    have hrest := (Decoding.linkInstructions_moves pool subject b rest l₂).of_ok his
    intro j hj
    rcases List.mem_cons.1 hj with rfl | hj
    · exact (SymbolSite.resolve_sited ⟨pool, subject, pc⟩ hoperation hl hi).precedes (Moves.precedes hrest)
    · exact ih (Moves.sited hmoves hl) his j hj

theorem linkBody_sited {pool : ConstantPool} {subject : String} {raw : RawCode} {code : LinkedCode}
    (hl : l.classes.Sited) (h : linkBody pool subject raw l = .ok code l') : code.Sited l'.classes := by
  obtain ⟨code', l₁, hdecode, h⟩ := bind_ok.1 h
  obtain ⟨_, l₂, hverify, h⟩ := bind_ok.1 h
  obtain ⟨_, rfl⟩ := ofExcept_ok hverify
  cases h
  unfold Decoding.decode at hdecode
  split at hdecode
  · cases hdecode
  · obtain ⟨pcs, l₃, hpcs, hdecode⟩ := bind_ok.1 hdecode
    obtain ⟨_, rfl⟩ := ofExcept_ok hpcs
    obtain ⟨is, l₄, his, hdecode⟩ := bind_ok.1 hdecode
    obtain ⟨handlers, l₅, hhandlers, hdecode⟩ := bind_ok.1 hdecode
    cases hdecode
    have hrest := (Decoding.linkHandlers_moves pool subject _ raw.handlers l₄).of_ok hhandlers
    intro i hi
    exact (linkInstructions_sited hl his i (List.mem_toArray.1 hi)).precedes (Moves.precedes hrest)

/-- An outcome is kept; a body among the outcomes finds its static fields. -/
theorem store_sited (id : MethodId) (raw : RawCode) (result : Except LinkError LinkedCode) (hl : l.classes.Sited)
    (hresult : ∀ code, result = .ok code → code.Sited l.classes) :
    (store id raw result l).2.classes.Sited ∧
      ∀ code, result = .ok code → code.Sited (store id raw result l).2.classes := by
  have hprecedes := (unfolds_updateMethod l.classes id
    (f := fun m => { m with body := .bytecode raw (some result) }) fun _ => rfl).precedes
  refine ⟨hl.updateMethod id (fun _ => rfl) fun m code hcode => hresult code ?_,
    fun code h => (hresult code h).precedes hprecedes⟩
  unfold Method.linked? at hcode
  dsimp only at hcode
  split at hcode
  · next hbody =>
    cases hbody
    cases hcode
    rfl
  · cases hcode

theorem linkFresh_sited (id : MethodId) (c : ClassInfo) (m : Method) (raw : RawCode) (hl : l.classes.Sited) :
    (linkFresh id c m raw l).2.classes.Sited ∧
      ∀ code, (linkFresh id c m raw l).1 = .ok code → code.Sited (linkFresh id c m raw l).2.classes := by
  have hprepared : (prepare c.id l).2.classes.Sited := (Move.prepare c.id).sited hl
  have hbody := linkBody_moves c.pool m.text raw (prepare c.id l).2
  rw [linkFresh, state_bind]
  generalize (prepare c.id l).2 = l₁ at hprepared hbody
  rw [state_bind]
  dsimp only
  cases hrun : linkBody c.pool m.text raw l₁ with
  | ok code l₂ =>
    have hsited := Moves.sited (hbody.of_ok hrun) hprepared
    refine store_sited id raw (.ok code) hsited fun code' h => ?_
    cases h
    exact linkBody_sited hprepared hrun
  | error e l₂ =>
    have hlogged := (Move.ask (.record .error m.text s!"link failed: {e.message}")).sited
      (Moves.sited (hbody.of_error hrun) hprepared)
    exact store_sited id raw (.error e) hlogged fun code h => by cases h

/-- Linking a method keeps static fields in their places, and the body it gives finds them there. -/
theorem link_sited (id : MethodId) (hl : l.classes.Sited) :
    (link id l).2.classes.Sited ∧ ∀ code, (link id l).1 = .ok code → code.Sited (link id l).2.classes := by
  have hunlinked : l.classes.Sited ∧ ∀ code, Except.error (α := LinkedCode) LinkError.emptyCode = .ok code →
      code.Sited l.classes := ⟨hl, fun code h => by cases h⟩
  rw [link, state_get]
  cases hc : l.classes.get? id.owner with
  | none => exact hunlinked
  | some c =>
    dsimp only
    cases hm : c.methods[id.index]? with
    | none => exact hunlinked
    | some m =>
      dsimp only
      cases hbody : m.body with
      | native binding => exact hunlinked
      | abstract => exact hunlinked
      | bytecode raw linked =>
        cases linked with
        | some result =>
          refine ⟨hl, fun code h => ?_⟩
          cases (show result = .ok code from h)
          exact hl.bodies _ c hc m (Array.mem_of_getElem? hm) code (by rw [Method.linked?, hbody])
        | none => exact linkFresh_sited id c m raw hl

theorem Consults.sited (h : l.Consults l') (hl : l.classes.Sited) : l'.classes.Sited := by
  induction h with
  | refl => exact hl
  | tail _ hconsult ih =>
    cases hconsult with
    | move hmove => exact hmove.sited ih
    | linked id => exact (link_sited id ih).1
    | bound id binding => exact ih.updateMethod id (fun _ => rfl) fun m code hcode => by cases hcode

/-- Natives may be bound to the methods of a class. -/
theorem regular_bound (h : l.classes.Regular) (id : MethodId) (binding : NativeBinding) : ClassTable.Regular
    (l.classes.updateMethod id fun m => { m with body := .native (some binding) }) := by
  constructor
  · intro x c' hc'
    have hfound := hc'
    rw [get?_updateMethod] at hc'
    split at hc'
    · obtain ⟨c, hc, rfl⟩ := Option.map_eq_some_iff.1 hc'
      obtain ⟨hlists, hsound⟩ := h.listed x c hc
      refine ⟨⟨hfound, hlists.numbered, hlists.named⟩, fun i m hm => ?_, fun i m raw result hm hbody => ?_,
        fun harray => ?_⟩
      · rw [Array.getElem?_modify] at hm
        split at hm
        · obtain ⟨before, hbefore, rfl⟩ := Option.map_eq_some_iff.1 hm
          exact hsound.numbered i before hbefore
        · exact hsound.numbered i m hm
      · rw [Array.getElem?_modify] at hm
        split at hm
        · obtain ⟨m, _, rfl⟩ := Option.map_eq_some_iff.1 hm
          cases hbody
        · exact hsound.genuine i m raw result hm hbody
      · have hmade := hsound.made harray
        exact ⟨hmade.isArray, hmade.superName, hmade.interfaceNames, hmade.flags, hmade.pool, hmade.fields,
          by simp [hmade.methods], hmade.pendingInit⟩
    · obtain ⟨hlists, hsound⟩ := h.listed x c' hc'
      exact ⟨⟨hfound, hlists.numbered, hlists.named⟩, hsound⟩
  · intro name x hx
    obtain ⟨c, hc, hname⟩ := h.named name x hx
    rw [get?_updateMethod, hc]
    split
    · exact ⟨_, rfl, hname⟩
    · exact ⟨c, rfl, hname⟩

theorem Consults.regular (h : l.Consults l') (hl : l.classes.Regular) : l'.classes.Regular := by
  induction h with
  | refl => exact hl
  | tail _ hconsult ih =>
    cases hconsult with
    | move hmove => exact ih.grows hmove.grows.classes
    | linked id => exact ih.grows (link_grows id _).classes
    | bound id binding => exact regular_bound ih id binding

end Linker

end ClassMachine
