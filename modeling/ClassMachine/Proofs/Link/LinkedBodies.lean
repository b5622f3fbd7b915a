import ClassMachine.Proofs.Link.Arrays
import ClassMachine.Proofs.Link.Requests
import ClassMachine.Proofs.Link.StaticSlots
import ClassMachine.Proofs.Link.Subtypes

/-!
What holds of the bodies in a class table. An instruction is linked against a table in which something is
known, and what is known stays known, so a property that resolution gives an instruction, and that is kept as
tables grow, is one of every instruction of every body that was ever linked. So it is with the classes an
instruction makes arrays of references of: they were found when the instruction was linked, and what they say
of the elements stays.
-/
namespace ClassMachine
open Stateful

/-- What resolution gives an instruction in a table that is as `N` says, and the tables that follow keep. -/
structure Lasting (N : ClassTable → Prop) (P : ClassTable → Instruction → Prop) : Prop where
  turns : ∀ {l l' : Linker}, l.Turns l' → N l.classes → N l'.classes
  precedes : ∀ {i : Instruction} {t t' : ClassTable}, P t i → t.Precedes t' → P t' i
  resolved : ∀ {s : SymbolSite} {b : Decoding.Body} {pc : Nat} {op : Operation} {i : Instruction} {l l' : Linker},
    Decoding.operation b pc = .ok op → N l.classes → s.resolve op l = .ok i l' → P l'.classes i

def LinkedCode.All (P : ClassTable → Instruction → Prop) (t : ClassTable) (code : LinkedCode) : Prop :=
  ∀ i ∈ code.instructions, P t i

/-- Of all that was linked `P` holds. -/
def ClassTable.Bodies (P : ClassTable → Instruction → Prop) (t : ClassTable) : Prop :=
  ∀ id c, t.get? id = some c → ∀ m ∈ c.methods, ∀ code, m.linked? = some code → code.All P t

variable {N : ClassTable → Prop} {P : ClassTable → Instruction → Prop}

theorem Lasting.code (hP : Lasting N P) {code : LinkedCode} {t t' : ClassTable} (h : code.All P t)
    (hp : t.Precedes t') : code.All P t' := fun i hi => hP.precedes (h i hi) hp

theorem Lasting.moves (hP : Lasting N P) {l l' : Linker} (h : l.Moves l') (hl : N l.classes) : N l'.classes :=
  hP.turns (Linker.Changes.turns (Linker.Moves.changes h)) hl

namespace ClassTable

variable {t t' : ClassTable}

theorem bodies_empty : ({} : ClassTable).Bodies P := by
  intro id c hc
  rw [show ({} : ClassTable).get? id = none from rfl] at hc
  cases hc

/-- Bodies were linked before, or are as `P` says. -/
theorem Bodies.become (hP : Lasting N P) (h : t.Bodies P) (hp : t.Precedes t')
    (hbodies : ∀ id c', t'.get? id = some c' → ∀ m' ∈ c'.methods, ∀ code, m'.linked? = some code →
      code.All P t' ∨ ∃ c m, t.get? id = some c ∧ m ∈ c.methods ∧ m.linked? = some code) : t'.Bodies P := by
  intro id c' hc' m' hm' code hcode
  rcases hbodies id c' hc' m' hm' code hcode with hall | ⟨c, m, hc, hm, hlinked⟩
  · exact hall
  · exact hP.code (h id c hc m hm code hlinked) hp

theorem Bodies.takePendingInit (hP : Lasting N P) (h : t.Bodies P) (id : ClassId) :
    (takePendingInit id t).2.Bodies P := by
  refine h.become hP (takePendingInit_precedes id t) fun x c' hc' m' hm' code hcode => .inr ?_
  rw [get?_takePendingInit] at hc'
  split at hc'
  · obtain ⟨c, hc, rfl⟩ := Option.map_eq_some_iff.1 hc'
    exact ⟨c, m', hc, hm', hcode⟩
  · exact ⟨c', m', hc', hm', hcode⟩

theorem Bodies.updateMethod (hP : Lasting N P) (h : t.Bodies P) (id : MethodId) {f : Method → Method}
    (hid : ∀ m, (f m).id = m.id) (hf : ∀ m code, (f m).linked? = some code → code.All P t) :
    (t.updateMethod id f).Bodies P := by
  have hprecedes := (unfolds_updateMethod t id hid).precedes
  refine h.become hP hprecedes fun x c' hc' m' hm' code hcode => ?_
  rw [get?_updateMethod] at hc'
  split at hc'
  · obtain ⟨c, hc, rfl⟩ := Option.map_eq_some_iff.1 hc'
    obtain ⟨i, hi⟩ := Array.mem_iff_getElem?.1 hm'
    rw [Array.getElem?_modify] at hi
    split at hi
    · obtain ⟨m, _, rfl⟩ := Option.map_eq_some_iff.1 hi
      exact .inl (hP.code (hf m code hcode) hprecedes)
    · exact .inr ⟨c, m', hc, Array.mem_of_getElem? hi, hcode⟩
  · exact .inr ⟨c', m', hc', hm', hcode⟩

/-- A class comes without linked bodies. -/
theorem Bodies.loaded (hP : Lasting N P) {d : ClassDefinition} {fields : List Field}
    {signatures : List MethodDescriptor} {id : ClassId} (h : t.Bodies P)
    (hinsert : t.insert d.name (definedInfo d fields signatures) = .ok (id, t')) : t'.Bodies P := by
  obtain ⟨_, _, _, hpush, _⟩ := insert_eq hinsert
  refine h.become hP (unfolds_loaded hinsert).precedes fun x c' hc' m' hm' code hcode => .inr ?_
  rw [get?_push hpush] at hc'
  split at hc'
  · cases hc'
    simp only [definedInfo, buildMethods, List.mem_toArray, List.mem_map] at hm'
    obtain ⟨⟨⟨md, signature⟩, index⟩, _, rfl⟩ := hm'
    unfold Method.linked? bodyOf at hcode
    dsimp only at hcode
    split at hcode
    · next hbody =>
      split at hbody
      · cases hbody
      · split at hbody <;> cases hbody
    · cases hcode
  · exact ⟨c', m', hc', hm', hcode⟩

end ClassTable

namespace Linker
open ClassTable Decoding

variable {l l' : Linker}

theorem Move.bodies (hP : Lasting N P) (h : l.Move l') (hl : l.classes.Bodies P) : l'.classes.Bodies P := by
  have hgrows := h.grows.classes
  refine hl.become hP hgrows.unfolds.precedes fun x c' hc' m' hm' code hcode => .inr ?_
  cases hc : l.classes.get? x with
  | none =>
    rw [(hgrows.added x c' hc hc').1.methods] at hm'
    simp at hm'
  | some c =>
    obtain ⟨c'', hc'', hmethods⟩ := h.methods hc
    cases hc'.symm.trans hc''
    exact ⟨c, m', rfl, hmethods ▸ hm', hcode⟩

theorem Moves.bodies (hP : Lasting N P) (h : l.Moves l') (hl : l.classes.Bodies P) : l'.classes.Bodies P := by
  induction h with
  | refl => exact hl
  | tail _ hmove ih => exact hmove.bodies hP ih

theorem record_bodies (hP : Lasting N P) {t : ClassTable} (h : t.Bodies P) (severity : Severity)
    (subject message : String) : (t.record severity subject message).Bodies P :=
  (Move.ask (l := { classes := t, access := .generic }) (.record severity subject message)).bodies hP h

theorem register_bodies (hP : Lasting N P) (d : ClassDefinition) (l : Linker) (hl : l.classes.Bodies P) :
    (ClassTable.register d l.classes).2.Bodies P := by
  have hlogged : ∀ (ms : List MethodDefinition) (t : ClassTable), t.Bodies P → ClassTable.Bodies P
      (ms.foldl (fun t m => t.record .warning s!"{d.name}.{m.name}{m.descriptor}"
        "concrete method has no code; treated as abstract") t) := by
    intro ms
    induction ms with
    | nil => exact fun _ h => h
    | cons m ms ih => exact fun t h => ih _ (record_bodies hP h _ _ _)
  unfold ClassTable.register
  split
  · next id t hload =>
    obtain ⟨fields, _, hload⟩ := except_bind_ok.1 hload
    obtain ⟨signatures, _, hload⟩ := except_bind_ok.1 hload
    obtain ⟨⟨id₁, t₁⟩, hinsert, hload⟩ := except_bind_ok.1 hload
    cases hload
    exact hlogged _ t₁ (hl.loaded hP hinsert)
  · exact record_bodies hP hl _ _ _

theorem linkInstructions_all (hP : Lasting N P) {pool : ConstantPool} {subject : String} {b : Decoding.Body}
    {pcs : List Nat} {is : List Instruction} (hl : N l.classes)
    (h : Decoding.linkInstructions pool subject b pcs l = .ok is l') : ∀ i ∈ is, P l'.classes i := by
  induction pcs generalizing l is with
  | nil =>
    cases h
    simp
  | cons pc rest ih =>
    obtain ⟨op, l₁, hop, h⟩ := bind_ok.1 h
    obtain ⟨hoperation, rfl⟩ := ofExcept_ok hop
    obtain ⟨i, l₂, hi, h⟩ := bind_ok.1 h
    obtain ⟨is', l₃, his, h⟩ := bind_ok.1 h
    cases h
    have hmoves := (SymbolSite.resolve_moves ⟨pool, subject, pc⟩ op l).of_ok hi
    have hrest := (Decoding.linkInstructions_moves pool subject b rest l₂).of_ok his
    intro j hj
    rcases List.mem_cons.1 hj with rfl | hj
    · exact hP.precedes (hP.resolved hoperation hl hi) (Moves.precedes hrest)
    · exact ih (hP.moves hmoves hl) his j hj

theorem linkBody_all (hP : Lasting N P) {pool : ConstantPool} {subject : String} {raw : RawCode} {code : LinkedCode}
    (hl : N l.classes) (h : linkBody pool subject raw l = .ok code l') : code.All P l'.classes := by
  obtain ⟨code', l₁, hdecode, h⟩ := bind_ok.1 h
  obtain ⟨_, l₂, hverify, h⟩ := bind_ok.1 h
  obtain ⟨_, rfl⟩ := ofExcept_ok hverify
  cases h
  unfold Decoding.decode at hdecode
  split at hdecode
  · cases hdecode
  · obtain ⟨pcs, l₃, hpcs, hdecode⟩ := bind_ok.1 hdecode
    obtain ⟨_, rfl⟩ := ofExcept_ok hpcs
    obtain ⟨is, l₄, his, hdecode⟩ := bind_ok.1 hdecode
    obtain ⟨handlers, l₅, hhandlers, hdecode⟩ := bind_ok.1 hdecode
    cases hdecode
    have hrest := (Decoding.linkHandlers_moves pool subject _ raw.handlers l₄).of_ok hhandlers
    intro i hi
    exact hP.precedes (linkInstructions_all hP hl his i (List.mem_toArray.1 hi)) (Moves.precedes hrest)

/-- An outcome is kept. -/
theorem store_bodies (hP : Lasting N P) (id : MethodId) (raw : RawCode) (result : Except LinkError LinkedCode)
    (hl : l.classes.Bodies P) (hresult : ∀ code, result = .ok code → code.All P l.classes) :
    (store id raw result l).2.classes.Bodies P ∧
      ∀ code, result = .ok code → code.All P (store id raw result l).2.classes := by
  have hprecedes := (unfolds_updateMethod l.classes id
    (f := fun m => { m with body := .bytecode raw (some result) }) fun _ => rfl).precedes
  refine ⟨hl.updateMethod hP id (fun _ => rfl) fun m code hcode => hresult code ?_,
    fun code h => hP.code (hresult code h) hprecedes⟩
  unfold Method.linked? at hcode
  dsimp only at hcode
  split at hcode
  · next hbody =>
    cases hbody
    cases hcode
    rfl
  · cases hcode

theorem linkFresh_bodies (hP : Lasting N P) (id : MethodId) (c : ClassInfo) (m : Method) (raw : RawCode)
    (hn : N l.classes) (hl : l.classes.Bodies P) :
    (linkFresh id c m raw l).2.classes.Bodies P ∧
      ∀ code, (linkFresh id c m raw l).1 = .ok code → code.All P (linkFresh id c m raw l).2.classes := by
  have hprepared : (prepare c.id l).2.classes.Bodies P := (Move.prepare c.id).bodies hP hl
  have hready : N (prepare c.id l).2.classes := hP.moves (.single (.prepare c.id)) hn
  have hbody := linkBody_moves c.pool m.text raw (prepare c.id l).2
  rw [linkFresh, state_bind]
  generalize (prepare c.id l).2 = l₁ at hprepared hready hbody
  rw [state_bind]
  dsimp only
  cases hrun : linkBody c.pool m.text raw l₁ with
  | ok code l₂ =>
    have hlinked := Moves.bodies hP (hbody.of_ok hrun) hprepared
    refine store_bodies hP id raw (.ok code) hlinked fun code' h => ?_
    cases h
    exact linkBody_all hP hready hrun
  | error e l₂ =>
    have hlogged := (Move.ask (.record .error m.text s!"link failed: {e.message}")).bodies hP
      (Moves.bodies hP (hbody.of_error hrun) hprepared)
    exact store_bodies hP id raw (.error e) hlogged fun code h => by cases h

/-- Linking a method gives a body of which `P` holds. -/
theorem link_bodies (hP : Lasting N P) (id : MethodId) (hn : N l.classes) (hl : l.classes.Bodies P) :
    (link id l).2.classes.Bodies P ∧ ∀ code, (link id l).1 = .ok code → code.All P (link id l).2.classes := by
  have hunlinked : l.classes.Bodies P ∧ ∀ code, Except.error (α := LinkedCode) LinkError.emptyCode = .ok code →
      code.All P l.classes := ⟨hl, fun code h => by cases h⟩
  rw [link, state_get]
  cases hc : l.classes.get? id.owner with
  | none => exact hunlinked
  | some c =>
    dsimp only
    cases hm : c.methods[id.index]? with
    | none => exact hunlinked
    | some m =>
      dsimp only
      cases hbody : m.body with
      | native binding => exact hunlinked
      | abstract => exact hunlinked
      | bytecode raw linked =>
        cases linked with
        | some result =>
          refine ⟨hl, fun code h => ?_⟩
          cases (show result = .ok code from h)
          exact hl _ c hc m (Array.mem_of_getElem? hm) code (by rw [Method.linked?, hbody])
        | none => exact linkFresh_bodies hP id c m raw hn hl

theorem Consults.bodies (hP : Lasting N P) (h : l.Consults l') (hn : N l.classes) (hl : l.classes.Bodies P) :
    l'.classes.Bodies P := by
  induction h with
  | refl => exact hl
  | tail hbefore hconsult ih =>
    cases hconsult with
    | move hmove => exact hmove.bodies hP ih
    | linked id => exact (link_bodies hP id (hP.turns (Consults.turns hbefore) hn) ih).1
    | bound id binding => exact ih.updateMethod hP id (fun _ => rfl) fun m code hcode => by cases hcode

theorem Request.bodies (hP : Lasting N P) (r : Request) (hn : N l.classes) (hl : l.classes.Bodies P) :
    (r.run l).classes.Bodies P := by
  have hasks : ∀ {α : Type} {x : StateM ClassTable α}, ClassTable.Asking x →
      (onClasses x l).2.classes.Bodies P := fun hx => Moves.bodies hP (moves_of_asks (hx l.classes)) hl
  cases r with
  | register d => exact register_bodies hP d l hl
  | arrayClass name => exact hasks (ClassTable.arrayClass_asks name)
  | arrayOf element => exact hasks (ClassTable.arrayOf_asks element)
  | prepare id => exact Move.bodies hP (.prepare id) hl
  | link id => exact (link_bodies hP id hn hl).1
  | intern name descriptor => exact Move.bodies hP (.intern name descriptor) hl
  | superclass id => exact hasks (ClassTable.superclass_asks id)
  | interfaces id => exact hasks (ClassTable.interfaces_asks id)
  | ancestry id => exact hasks (ClassTable.ancestry_asks id)
  | isSubclass sub sup => exact hasks (ClassTable.isSubclass_asks sub sup)
  | resolveMethod id name descriptor => exact hasks (ClassTable.resolveMethod_asks id name descriptor)
  | resolveField id name descriptor => exact hasks (ClassTable.resolveField_asks id name descriptor)

/-- Whatever a linker was asked for, of all that it linked `P` holds. -/
theorem Reachable.bodies (hP : Lasting N P) (hempty : N {}) (h : l.Reachable) :
    N l.classes ∧ l.classes.Bodies P := by
  obtain ⟨access, hleads⟩ := h
  induction hleads with
  | refl => exact ⟨hempty, bodies_empty⟩
  | tail _ hr ih =>
    obtain ⟨r, rfl⟩ := hr
    exact ⟨hP.turns (Changes.turns (r.changes _)) ih.1, r.bodies hP ih.1 ih.2⟩

end Linker

/-- The class of the arrays that an instruction makes is there. -/
def Instruction.Grounded (t : ClassTable) : Instruction → Prop
  | .newRefArray id => ∃ c, t.get? id = some c
  | _ => True

theorem Instruction.Grounded.precedes {i : Instruction} {t t' : ClassTable} (h : i.Grounded t)
    (hp : t.Precedes t') : i.Grounded t' := by
  cases i with
  | newRefArray id =>
    obtain ⟨c, hc⟩ := h
    obtain ⟨c', hc', _⟩ := hp id c hc
    exact ⟨c', hc'⟩
  | _ => trivial

/-- Only where a class is named is an array of references made. -/
theorem Operation.Form.isNewRefArray {pool : ConstantPool} {op : Operation} {i : Instruction}
    (h : op.Form pool i) (hi : i.isNewRefArray = true) :
    op = .plain i ∨ ∃ index, op = .classUse .newRefArray index := by
  have hplaceholder : i.IsPlaceholder → False := by
    rintro ⟨symbol, rfl⟩
    cases hi
  cases op with
  | plain j =>
    cases (show i = j from h)
    exact .inl rfl
  | classUse use index =>
    obtain ⟨name, _, ⟨id, rfl⟩ | h⟩ := h
    · cases use with
      | newRefArray => exact .inr ⟨index, rfl⟩
      | _ => cases hi
    · exact (hplaceholder h).elim
  | loadConstant index wide =>
    obtain ⟨c, _, hloads⟩ := h
    exfalso
    unfold Constant.Loads at hloads
    split at hloads
    all_goals first
      | subst hloads; cases hi
      | exact hloads.elim (fun ⟨_, h⟩ => by subst h; cases hi) hplaceholder
      | exact hloads
  | staticField index put =>
    obtain ⟨member, type, _, ⟨owner, slot, rfl⟩ | h⟩ := h
    · cases put <;> cases hi
    · exact (hplaceholder h).elim
  | instanceField index put =>
    obtain ⟨member, type, _, rfl | ⟨slot, rfl⟩ | h⟩ := h
    · cases put <;> cases hi
    · cases put <;> cases hi
    · exact (hplaceholder h).elim
  | invoke kind index =>
    obtain ⟨member, d, _, h | h⟩ := h
    · exfalso
      cases kind with
      | static => obtain ⟨method, rfl⟩ := h; cases hi
      | special => obtain ⟨method, rfl⟩ := h; cases hi
      | interface => obtain ⟨signature, rfl⟩ := h; cases hi
      | virtual =>
        obtain ⟨signature, rfl⟩ := h
        split at hi <;> cases hi
    · exact (hplaceholder h).elim

namespace SymbolSite
open LinkM ClassTable

variable {s : SymbolSite} {l l' : Linker}

/-- The class of the arrays an instruction makes is found by a name that spells references. -/
theorem useClass_names (name : String) (l : Linker) : Ends (s.useClass .newRefArray name l)
    (fun i l' => ∀ id, i = .newRefArray id → l.classes.Retains l'.classes ∧
      l'.classes.lookup? (if name.toList.head? = some '[' then s!"[{name}" else s!"[L{name};") = some id)
    fun _ _ => True := by
  unfold useClass
  dsimp only
  generalize (if name.toList.head? = some '[' then s!"[{name}" else s!"[L{name};") = wanted
  cases hfound : resolveName wanted l.classes with
  | mk found t =>
    apply ofClasses_ends hfound
    cases found with
    | none => exact fun id h => by cases h
    | some id =>
      intro id' h
      cases h
      have hasks := resolveName_asks wanted l.classes
      have hnamed : (resolveName wanted l.classes).2.lookup? wanted = some id :=
        lookup?_resolveName (congrArg Prod.fst hfound)
      rw [hfound] at hasks hnamed
      exact ⟨hasks.retains, hnamed⟩

/-- An instruction that was resolved makes arrays of a class that was found by such a name. -/
theorem resolve_names {b : Decoding.Body} {pc : Nat} {op : Operation} {id : ClassId}
    (hop : Decoding.operation b pc = .ok op) (h : s.resolve op l = .ok (.newRefArray id) l') :
    l.classes.Retains l'.classes ∧ ∃ name : String,
      l'.classes.lookup? (if name.toList.head? = some '[' then s!"[{name}" else s!"[L{name};") = some id := by
  rcases ((s.resolve_form op l).of_ok h).isNewRefArray rfl with rfl | ⟨index, rfl⟩
  · cases Decoding.operation_makes hop
  · obtain ⟨name, l₁, hname, h⟩ := bind_ok.1 h
    obtain ⟨_, rfl⟩ := Decoding.ofExcept_ok hname
    obtain ⟨hretains, hlookup⟩ := (useClass_names name l).of_ok h id rfl
    exact ⟨hretains, name, hlookup⟩

end SymbolSite

theorem lasting_grounded : Lasting ClassTable.Moored fun t i => i.Grounded t where
  turns h hl := (Linker.Turns.retains h).moored hl
  precedes h hp := h.precedes hp
  resolved {_ _ _ _ i _ _} hop hl h := by
    cases i with
    | newRefArray id =>
      obtain ⟨hretains, name, hlookup⟩ := SymbolSite.resolve_names hop h
      exact (hretains.moored hl).named _ id hlookup
    | _ => trivial

/-- In all bodies that were linked, classes of arrays are there. -/
abbrev ClassTable.Grounded (t : ClassTable) : Prop := t.Bodies fun t i => i.Grounded t

abbrev LinkedCode.Grounded (t : ClassTable) (code : LinkedCode) : Prop :=
  code.All (fun t i => i.Grounded t) t

/-- The class of the arrays that an instruction makes is one of arrays of references, if of arrays. -/
def Instruction.Referring (t : ClassTable) : Instruction → Prop
  | .newRefArray id => ∃ c, t.get? id = some c ∧ ∀ element, c.element = some element → element.kind = .reference
  | _ => True

theorem lasting_referring : Lasting ClassTable.Titled fun t i => i.Referring t where
  turns h hl := (Linker.Turns.retains h).titled hl
  precedes {i _ _} h hp := by
    cases i with
    | newRefArray id =>
      obtain ⟨c, hc, hreference⟩ := h
      obtain ⟨c', hc', _, hsame, _⟩ := hp id c hc
      exact ⟨c', hc', hsame ▸ hreference⟩
    | _ => trivial
  resolved {_ _ _ _ i _ _} hop hl h := by
    cases i with
    | newRefArray id =>
      obtain ⟨hretains, name, hlookup⟩ := SymbolSite.resolve_names hop h
      have htitled := hretains.titled hl
      obtain ⟨c, hc⟩ := htitled.named _ id hlookup
      refine ⟨c, hc, fun element helement => ?_⟩
      obtain ⟨component, htext, hkind⟩ := htitled.kinds _ id c element hlookup hc helement
      exact hkind.trans (ClassTable.kind_of_className htext)
    | _ => trivial

end ClassMachine
