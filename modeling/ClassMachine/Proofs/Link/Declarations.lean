import ClassMachine.Class.StructuralHash
import ClassMachine.Proofs.Link.Independence

/-!
Classes by what they are declared as. Hashes, method positions and the outcome of linking are a
matter of the declaration, so they are the same wherever the class is loaded and however much of it
has been prepared.
-/
namespace ClassMachine
open Stateful

def Field.declaration (f : Field) : FieldDefinition := ⟨f.name, f.descriptor, f.flags⟩

def Method.code? (m : Method) : Option RawCode :=
  match m.body with
  | .bytecode raw _ => some raw
  | _ => none

/-- The code of a method that has not been linked yet. -/
def Method.unlinked? (m : Method) : Option RawCode :=
  match m.body with
  | .bytecode raw none => some raw
  | _ => none

theorem Method.unlinked?_eq_some {m : Method} {raw : RawCode} :
    m.unlinked? = some raw ↔ m.body = .bytecode raw none := by
  unfold Method.unlinked?
  split
  · next h => simp [h]
  · next h => exact iff_of_false (by simp) (h raw)

def Method.declaration (m : Method) : MethodDefinition := ⟨m.name, m.descriptor, m.flags, m.code?⟩

/-- What a class was declared as, with its constants by index. -/
def ClassInfo.declaration (c : ClassInfo) : ClassDefinition :=
  { name := c.name, superName := c.superName, interfaces := c.interfaceNames, flags := c.flags
    constants := c.pool.entries.toList
    fields := c.fields.toList.map Field.declaration
    methods := c.methods.toList.map Method.declaration }

theorem Method.structuralHash_congr {m m' : Method} (h : m'.declaration = m.declaration) :
    m'.structuralHash = m.structuralHash := by
  simp only [declaration, MethodDefinition.mk.injEq] at h
  simp only [structuralHash, shapeBytes, h]

theorem Aligned.of_some' {α : Type} {R : α → α → Prop} {xs ys : Array α} (h : Aligned R xs ys) {i : Nat}
    {y : α} (hy : ys[i]? = some y) : ∃ x, xs[i]? = some x ∧ R x y := by
  have hi := h i
  rw [hy] at hi
  generalize xs[i]? = x at *
  cases hi with
  | some hr => exact ⟨_, rfl, hr⟩

theorem Aligned.map_eq {α β : Type} {R : α → α → Prop} {xs ys : Array α} {f : α → β}
    (h : Aligned R xs ys) (hf : ∀ x y, R x y → f y = f x) : ys.toList.map f = xs.toList.map f := by
  refine List.ext_getElem? fun i => ?_
  have hi := h i
  simp only [List.getElem?_map, Array.getElem?_toList]
  generalize xs[i]? = x at hi
  generalize ys[i]? = y at hi
  cases hi with
  | none => rfl
  | some hR => exact congrArg some (hf _ _ hR)

/-- Positions are found by what the entries look like under the test. -/
theorem lastIndex?_congr {α β : Type} {p : α → Bool} {q : β → Bool} {xs : Array α} {ys : Array β}
    (h : xs.toList.map p = ys.toList.map q) : lastIndex? p xs = lastIndex? q ys := by
  have hsize : xs.size = ys.size := by simpa using congrArg List.length h
  have htest : ∀ i : Nat, xs[i]?.map p = ys[i]?.map q := by
    intro i
    simpa using congrArg (·[i]?) h
  unfold lastIndex?
  rw [hsize]
  refine congrArg (List.find? · _) (funext fun i => ?_)
  have hi := htest i
  cases hx : xs[i]? with
  | none => cases hy : ys[i]? <;> simp_all
  | some x => cases hy : ys[i]? <;> simp_all

namespace ClassInfo

variable {c c' : ClassInfo}

theorem pool_congr (h : c'.declaration = c.declaration) : c'.pool = c.pool := by
  have hentries := congrArg ClassDefinition.constants h
  simp only [declaration] at hentries
  cases hc : c.pool
  cases hc' : c'.pool
  simp_all [Array.toList_inj]

theorem shapeBytes_congr (h : c'.declaration = c.declaration) : c'.shapeBytes = c.shapeBytes := by
  have hfields := congrArg ClassDefinition.fields h
  have hmethods := congrArg ClassDefinition.methods h
  have hfieldBytes : ∀ c : ClassInfo, c.fields.toList.flatMap (fun f =>
      memberBytes f.name f.descriptor f.flags) =
        c.declaration.fields.flatMap fun d => memberBytes d.name d.descriptor d.flags := by
    intro c
    simp [declaration, List.flatMap_map, Field.declaration]
  have hmethodBytes : ∀ c : ClassInfo, c.methods.toList.flatMap Method.shapeBytes =
      c.declaration.methods.flatMap fun d => memberBytes d.name d.descriptor d.flags := by
    intro c
    simp only [declaration, List.flatMap_map, Method.declaration]
    rfl
  have hsizes : c'.fields.size = c.fields.size ∧ c'.methods.size = c.methods.size := by
    constructor
    · simpa [declaration] using congrArg List.length hfields
    · simpa [declaration] using congrArg List.length hmethods
  have hname : c'.name = c.name := congrArg ClassDefinition.name h
  have hsuper : c'.superName = c.superName := congrArg ClassDefinition.superName h
  have hinterfaces : c'.interfaceNames = c.interfaceNames := congrArg ClassDefinition.interfaces h
  have hflags : c'.flags = c.flags := congrArg ClassDefinition.flags h
  unfold shapeBytes
  rw [hfieldBytes, hmethodBytes, hfieldBytes, hmethodBytes, hfields, hmethods, hsizes.1, hsizes.2, hname,
    hsuper, hinterfaces, hflags]

theorem structuralHash_congr (h : c'.declaration = c.declaration) :
    c'.structuralHash = c.structuralHash := by
  unfold structuralHash
  rw [shapeBytes_congr h]

theorem getElem?_methods (h : c'.declaration = c.declaration) (i : Nat) :
    c'.methods[i]?.map Method.declaration = c.methods[i]?.map Method.declaration := by
  have hmethods := congrArg (·.methods[i]?) h
  simpa [declaration] using hmethods

theorem methodPosition?_congr (h : c'.declaration = c.declaration) (name descriptor : String) :
    c'.methodPosition? name descriptor = c.methodPosition? name descriptor := by
  have hmethods := congrArg ClassDefinition.methods h
  refine lastIndex?_congr ?_
  have htests := congrArg (List.map fun d : MethodDefinition =>
    d.name == name && d.descriptor == descriptor) hmethods
  simpa [declaration, Method.declaration, Function.comp_def] using htests

theorem Prepares.declaration (h : c.Prepares c') :
    c'.declaration = c.declaration ∧ c'.isArray = c.isArray := by
  have hfields : c'.fields.toList.map Field.declaration = c.fields.toList.map Field.declaration :=
    h.fields.map_eq fun f f' hf => by cases hf <;> rfl
  have hmethods : c'.methods.toList.map Method.declaration = c.methods.toList.map Method.declaration := by
    refine h.methods.map_eq fun m m' hm => ?_
    cases hm with
    | same => rfl
    | linked hbody _ => simp [Method.declaration, Method.code?, hbody]
  unfold ClassInfo.declaration
  rw [hfields, hmethods, h.declared]
  exact ⟨rfl, rfl⟩

/-- Array classes of one name are declared alike. -/
theorem MadeForArray.declaration (h : c.MadeForArray) (h' : c'.MadeForArray) (hname : c'.name = c.name) :
    c'.declaration = c.declaration := by
  simp only [ClassInfo.declaration, hname, h.superName, h.interfaceNames, h.flags, h.pool, h.fields,
    h.methods, h'.superName, h'.interfaceNames, h'.flags, h'.pool, h'.fields, h'.methods]

end ClassInfo

/-- A class as loading and linking leave it under the number `id`. -/
structure ClassInfo.Sound (id : ClassId) (c : ClassInfo) : Prop where
  numbered : ∀ (i : Nat) (m : Method), c.methods[i]? = some m → m.id = ⟨id, i⟩
  genuine : ∀ (i : Nat) (m : Method) (raw : RawCode) (result : Except LinkError LinkedCode),
    c.methods[i]? = some m → m.body = .bytecode raw (some result) → Linker.Gives c.pool raw result
  made : c.isArray = true → c.MadeForArray

theorem ClassInfo.MadeForArray.sound {c : ClassInfo} (h : c.MadeForArray) (id : ClassId) :
    c.Sound id := by
  refine ⟨fun i m hm => ?_, fun i m _ _ hm => ?_, fun _ => h⟩ <;>
  · rw [h.methods] at hm
    simp at hm

theorem ClassInfo.Sound.prepares {c c' : ClassInfo} {id : ClassId} (h : c.Sound id)
    (hp : c.Prepares c') : c'.Sound id := by
  have hpool : c'.pool = c.pool := by rw [hp.declared]
  refine ⟨fun i m' hm' => ?_, fun i m' raw result hm' hbody => ?_, fun harray => ?_⟩
  · obtain ⟨m, hm, hlinks⟩ := hp.methods.of_some' hm'
    cases hlinks with
    | same => exact h.numbered i _ hm
    | linked _ _ => exact h.numbered i m hm
  · obtain ⟨m, hm, hlinks⟩ := hp.methods.of_some' hm'
    rw [hpool]
    cases hlinks with
    | same => exact h.genuine i _ raw result hm hbody
    | linked _ hgives =>
      cases hbody
      exact hgives
  · exact hp.madeForArray (h.made (hp.declaration.2 ▸ harray))

/-- A class table as loading and linking leave it. -/
structure ClassTable.Regular (t : ClassTable) : Prop where
  listed : ∀ id c, t.get? id = some c → t.Lists id c ∧ c.Sound id
  named : ∀ name id, t.lookup? name = some id → ∃ c, t.get? id = some c ∧ c.name = name

theorem Linker.gives_outcome (pool : ConstantPool) (subject : String) (raw : RawCode) (l : Linker) :
    Gives pool raw ((linkBody pool subject raw).outcome l) := by
  refine ⟨subject, l, ?_⟩
  unfold LinkM.outcome
  cases linkBody pool subject raw l <;> rfl

theorem Linker.Gives.agrees {pool : ConstantPool} {raw : RawCode} {r r' : Except LinkError LinkedCode}
    (h : Gives pool raw r) (h' : Gives pool raw r') : OutcomesAgree LinkedCode.Alike r r' := by
  obtain ⟨subject, l, hends⟩ := h
  obtain ⟨subject', l', hends'⟩ := h'
  have hagree := linkBody_agree pool subject subject' raw l l'
  unfold LinkM.outcome at hagree
  unfold Ends at hends hends'
  cases hrun : linkBody pool subject raw l <;> cases hrun' : linkBody pool subject' raw l' <;>
    simp_all

/-- Every class of the first table is there in the second, declared as it was. -/
def ClassTable.Keeps (t t' : ClassTable) : Prop :=
  ∀ id c, t.get? id = some c → ∃ c', t'.get? id = some c' ∧ c'.declaration = c.declaration

theorem ClassTable.Keeps.trans {t₁ t₂ t₃ : ClassTable} (h : t₁.Keeps t₂) (h' : t₂.Keeps t₃) :
    t₁.Keeps t₃ := by
  intro id c hc
  obtain ⟨c₂, hc₂, hd⟩ := h id c hc
  obtain ⟨c₃, hc₃, hd'⟩ := h' id c₂ hc₂
  exact ⟨c₃, hc₃, hd'.trans hd⟩

theorem ClassTable.Grows.keeps {t t' : ClassTable} (h : t.Grows t') : t.Keeps t' := by
  intro id c hc
  obtain ⟨c', hc', hp⟩ := h.known id c hc
  exact ⟨c', hc', hp.declaration.1⟩

namespace ClassTable.Regular

variable {t t' : ClassTable}

theorem lookup? (h : t.Regular) {id : ClassId} {c : ClassInfo} (hc : t.get? id = some c) :
    t.lookup? c.name = some id := (h.listed id c hc).1.named

/-- Classes of one name are one class. -/
theorem eq_of_name (h : t.Regular) {id id' : ClassId} {c c' : ClassInfo} (hc : t.get? id = some c)
    (hc' : t.get? id' = some c') (hname : c'.name = c.name) : id' = id := by
  have hlookup := h.lookup? hc'
  rw [hname, h.lookup? hc] at hlookup
  exact (Option.some.inj hlookup).symm

theorem grows (h : t.Regular) (hg : t.Grows t') : t'.Regular := by
  refine ⟨fun id c' hc' => ?_, fun name id hl => ?_⟩
  · cases hc : t.get? id with
    | none =>
      obtain ⟨hmade, hlists⟩ := hg.added id c' hc hc'
      exact ⟨hlists, hmade.sound id⟩
    | some c =>
      obtain ⟨c'', hc'', hp⟩ := hg.known id c hc
      cases hc'.symm.trans hc''
      obtain ⟨hlists, hsound⟩ := h.listed id c hc
      refine ⟨⟨hc', ?_, ?_⟩, hsound.prepares hp⟩
      · rw [hp.declared]
        exact hlists.numbered
      · rw [hp.declared]
        exact hg.names _ _ hlists.named
  · rcases hg.named name id hl with hl | ⟨_, hc'⟩
    · obtain ⟨c, hc, hname⟩ := h.named name id hl
      obtain ⟨c', hc', hp⟩ := hg.known id c hc
      refine ⟨c', hc', ?_⟩
      rw [hp.declared]
      exact hname
    · exact hc'

end ClassTable.Regular

theorem Linker.linkFresh_fst (id : MethodId) (c : ClassInfo) (m : Method) (raw : RawCode) (l : Linker) :
    (linkFresh id c m raw l).1 = (linkBody c.pool m.text raw).outcome (prepare c.id l).2 := by
  rw [linkFresh, state_bind]
  show ((_ >>= _ : StateM Linker _) (prepare c.id l).2).1 = _
  rw [state_bind]
  unfold LinkM.outcome
  dsimp only
  cases linkBody c.pool m.text raw (prepare c.id l).2 <;> rfl

/-- Linking a method gives what linking its body gives, and not for want of a body. -/
theorem Linker.link_gives {l : Linker} {id : MethodId} {c : ClassInfo} {m : Method} {raw : RawCode}
    (h : l.classes.Regular) (hc : l.classes.get? id.owner = some c) (hm : c.methods[id.index]? = some m)
    (hcode : m.code? = some raw) : Gives c.pool raw (link id l).1 := by
  unfold Method.code? at hcode
  rw [link, state_get, hc]
  dsimp only
  rw [hm]
  dsimp only
  cases hbody : m.body with
  | native binding => simp [hbody] at hcode
  | abstract => simp [hbody] at hcode
  | bytecode raw' linked =>
    simp only [hbody, Option.some.injEq] at hcode
    subst hcode
    cases linked with
    | some result => exact (h.listed _ c hc).2.genuine _ m _ result hm hbody
    | none =>
      rw [linkFresh_fst]
      exact gives_outcome ..

end ClassMachine
