import ClassMachine.Proofs.Link.Moves
import ClassMachine.Proofs.Maps

/-!
What linking does to a machine's classes. Questions about classes and the linking of methods fill in
what is found out once and make array classes; what a class is declared as, and whether its static
initializer is pending, stays as it was.
-/
namespace ClassMachine
open Stateful

/-- Two arrays of one length that are related position by position. -/
def Aligned {α : Type} (R : α → α → Prop) (xs ys : Array α) : Prop :=
  ∀ i : Nat, Option.Rel R xs[i]? ys[i]?

namespace Aligned

variable {α : Type} {R : α → α → Prop} {xs ys zs : Array α}

theorem refl (hR : ∀ x, R x x) (xs : Array α) : Aligned R xs xs := by
  intro i
  cases xs[i]? with
  | none => exact .none
  | some x => exact .some (hR x)

theorem trans (hR : ∀ x y z, R x y → R y z → R x z) (hxy : Aligned R xs ys) (hyz : Aligned R ys zs) :
    Aligned R xs zs := by
  intro i
  have hx := hxy i
  have hy := hyz i
  generalize xs[i]? = x at *
  generalize ys[i]? = y at *
  generalize zs[i]? = z at *
  cases hx with
  | none =>
    cases hy with
    | none => exact .none
  | some h =>
    cases hy with
    | some h' => exact .some (hR _ _ _ h h')

theorem of_some (h : Aligned R xs ys) {i : Nat} {x : α} (hx : xs[i]? = some x) :
    ∃ y, ys[i]? = some y ∧ R x y := by
  have hi := h i
  rw [hx] at hi
  generalize ys[i]? = y at *
  cases hi with
  | some hr => exact ⟨_, rfl, hr⟩

theorem eq_empty (h : Aligned R #[] ys) : ys = #[] := by
  have h0 := h 0
  cases hy : ys[0]? with
  | none => simpa using hy
  | some y =>
    rw [hy] at h0
    cases h0

end Aligned

/-- What linking a body against some classes comes to. -/
def Linker.Gives (pool : ConstantPool) (raw : RawCode) (result : Except LinkError LinkedCode) : Prop :=
  ∃ subject l, Ends (linkBody pool subject raw l) (fun code _ => result = .ok code)
    fun e _ => result = .error e

/-- A method whose body was linked meanwhile, or nothing happened to it. -/
inductive Method.Links (pool : ConstantPool) (m : Method) : Method → Prop
  | same : m.Links pool m
  | linked {raw : RawCode} {result : Except LinkError LinkedCode} (h : m.body = .bytecode raw none)
      (hgives : Linker.Gives pool raw result) :
      m.Links pool { m with body := .bytecode raw (some result) }

theorem Method.Links.trans {pool : ConstantPool} {m₁ m₂ m₃ : Method} (h : m₁.Links pool m₂)
    (h' : m₂.Links pool m₃) : m₁.Links pool m₃ := by
  cases h with
  | same => exact h'
  | linked hbody hgives =>
    cases h' with
    | same => exact .linked hbody hgives
    | linked hbody' _ => simp at hbody'

/-- An instance field that was given a slot, or nothing happened to it. -/
inductive Field.Places (f : Field) : Field → Prop
  | same : f.Places f
  | placed {slot : Option Nat} (h : f.isStatic = false) : f.Places { f with slot := slot }

theorem Field.Places.trans {f₁ f₂ f₃ : Field} (h : f₁.Places f₂) (h' : f₂.Places f₃) : f₁.Places f₃ := by
  cases h with
  | same => exact h'
  | placed hf =>
    cases h' with
    | same => exact .placed hf
    | placed _ => exact .placed hf

/-- What is found out about a class is kept once it is there, and what it is declared as stays. -/
structure ClassInfo.Prepares (c c' : ClassInfo) : Prop where
  declared : c' =
    { c with
      fields := c'.fields, methods := c'.methods, superLink := c'.superLink
      interfaceLinks := c'.interfaceLinks, dispatch := c'.dispatch, layout := c'.layout }
  fields : Aligned Field.Places c.fields c'.fields
  methods : Aligned (Method.Links c.pool) c.methods c'.methods
  superLink : ∀ link, c.superLink = some link → c'.superLink = some link
  interfaceLinks : ∀ links, c.interfaceLinks = some links → c'.interfaceLinks = some links
  dispatch : ∀ table, c.dispatch = some table → c'.dispatch = some table
  layout : ∀ layout, c.layout = some layout → c'.layout = some layout ∧ c'.fields = c.fields

namespace ClassInfo.Prepares

theorem refl (c : ClassInfo) : c.Prepares c :=
  ⟨rfl, .refl (fun _ => .same) _, .refl (fun _ => .same) _, fun _ h => h, fun _ h => h, fun _ h => h,
    fun _ h => ⟨h, rfl⟩⟩

theorem trans {c₁ c₂ c₃ : ClassInfo} (h : c₁.Prepares c₂) (h' : c₂.Prepares c₃) : c₁.Prepares c₃ := by
  constructor
  · rw [h'.declared, h.declared]
  · exact h.fields.trans (fun _ _ _ => Field.Places.trans) h'.fields
  · refine h.methods.trans (fun _ _ _ => Method.Links.trans) ?_
    have hpool : c₂.pool = c₁.pool := by rw [h.declared]
    rw [← hpool]
    exact h'.methods
  · exact fun link hl => h'.superLink link (h.superLink link hl)
  · exact fun links hl => h'.interfaceLinks links (h.interfaceLinks links hl)
  · exact fun table ht => h'.dispatch table (h.dispatch table ht)
  · intro layout hl
    obtain ⟨hl', hf⟩ := h.layout layout hl
    obtain ⟨hl'', hf'⟩ := h'.layout layout hl'
    exact ⟨hl'', hf'.trans hf⟩

end ClassInfo.Prepares

/-- A class as it is made for an array type: it declares nothing and needs no initialization. -/
structure ClassInfo.MadeForArray (c : ClassInfo) : Prop where
  isArray : c.isArray = true
  superName : c.superName = some objectClass
  interfaceNames : c.interfaceNames = []
  flags : c.flags = AccessFlags.publicFlag.union .finalFlag
  pool : c.pool = .empty
  fields : c.fields = #[]
  methods : c.methods = #[]
  pendingInit : c.pendingInit = false

theorem ClassInfo.Prepares.madeForArray {c c' : ClassInfo} (h : c.Prepares c') (hc : c.MadeForArray) :
    c'.MadeForArray := by
  have hfields : c'.fields = #[] := (hc.fields ▸ h.fields).eq_empty
  have hmethods : c'.methods = #[] := (hc.methods ▸ h.methods).eq_empty
  rw [h.declared]
  exact ⟨hc.isArray, hc.superName, hc.interfaceNames, hc.flags, hc.pool, hfields, hmethods,
    hc.pendingInit⟩

/-- A class has the number it is found under, by its name as well. -/
structure ClassTable.Lists (t : ClassTable) (id : ClassId) (c : ClassInfo) : Prop where
  found : t.get? id = some c
  numbered : c.id = id
  named : t.lookup? c.name = some id

/-- A class table in which classes were prepared and linked, and array classes were made. -/
structure ClassTable.Grows (t t' : ClassTable) : Prop where
  known : ∀ id c, t.get? id = some c → ∃ c', t'.get? id = some c' ∧ c.Prepares c'
  added : ∀ id c', t.get? id = none → t'.get? id = some c' → c'.MadeForArray ∧ t'.Lists id c'
  names : ∀ name id, t.lookup? name = some id → t'.lookup? name = some id
  named : ∀ name id, t'.lookup? name = some id →
    t.lookup? name = some id ∨ t.get? id = none ∧ ∃ c', t'.get? id = some c' ∧ c'.name = name
  log : t.log.entries <+: t'.log.entries

namespace ClassTable

theorem Grows.refl (t : ClassTable) : t.Grows t := by
  refine ⟨fun _ c h => ⟨c, h, .refl c⟩, fun _ _ h h' => ?_, fun _ _ h => h, fun _ _ h => .inl h,
    List.prefix_refl _⟩
  rw [h] at h'
  cases h'

theorem Grows.trans {t₁ t₂ t₃ : ClassTable} (h : t₁.Grows t₂) (h' : t₂.Grows t₃) : t₁.Grows t₃ := by
  refine ⟨fun id c hc => ?_, fun id c₃ hnone hc => ?_, fun name id hl => ?_, fun name id hl => ?_,
    h.log.trans h'.log⟩
  · obtain ⟨c₂, hc₂, hp⟩ := h.known id c hc
    obtain ⟨c₃, hc₃, hp'⟩ := h'.known id c₂ hc₂
    exact ⟨c₃, hc₃, hp.trans hp'⟩
  · cases hc₂ : t₂.get? id with
    | none => exact h'.added id c₃ hc₂ hc
    | some c₂ =>
      obtain ⟨c₃', hc₃', hp⟩ := h'.known id c₂ hc₂
      rw [hc] at hc₃'
      cases hc₃'
      obtain ⟨hmade, hlists⟩ := h.added id c₂ hnone hc₂
      refine ⟨hp.madeForArray hmade, hc, ?_, ?_⟩
      · rw [hp.declared]
        exact hlists.numbered
      · rw [hp.declared]
        exact h'.names _ id hlists.named
  · exact h'.names name id (h.names name id hl)
  · rcases h'.named name id hl with hl₂ | ⟨hnone, hc₃⟩
    · rcases h.named name id hl₂ with hl₁ | ⟨hnone, c₂, hc₂, hname⟩
      · exact .inl hl₁
      · obtain ⟨c₃, hc₃, hp⟩ := h'.known id c₂ hc₂
        refine .inr ⟨hnone, c₃, hc₃, ?_⟩
        rw [hp.declared]
        exact hname
    · refine .inr ⟨?_, hc₃⟩
      cases hc₁ : t₁.get? id with
      | none => rfl
      | some c₁ =>
        obtain ⟨c₂, hc₂, _⟩ := h.known id c₁ hc₁
        rw [hnone] at hc₂
        cases hc₂

theorem get?_update (t : ClassTable) (id id' : ClassId) (f : ClassInfo → ClassInfo) :
    (t.update id f).get? id' = if id = id' then (t.get? id').map f else t.get? id' := by
  unfold update get?
  dsimp only
  rw [Array.getElem?_modify]

/-- A class that was there at first may be changed as long as it is prepared compared with then. -/
theorem Grows.update {t t' : ClassTable} (h : t.Grows t') {id : ClassId} {f : ClassInfo → ClassInfo}
    {c : ClassInfo} (hc : t.get? id = some c) (hf : ∀ c', c.Prepares c' → c.Prepares (f c')) :
    t.Grows (t'.update id f) := by
  have hne : ∀ id', t.get? id' = none → id ≠ id' := by
    rintro id' hnone rfl
    rw [hc] at hnone
    cases hnone
  refine ⟨fun id' c₁ hc₁ => ?_, fun id' c' hnone hc' => ?_, h.names, fun name id' hl => ?_, h.log⟩
  · obtain ⟨c₂, hc₂, hp⟩ := h.known id' c₁ hc₁
    rw [get?_update]
    split
    · next heq =>
      subst heq
      rw [hc] at hc₁
      cases hc₁
      rw [hc₂]
      exact ⟨f c₂, rfl, hf c₂ hp⟩
    · exact ⟨c₂, hc₂, hp⟩
  · have hkept := hc'
    rw [get?_update, if_neg (hne id' hnone)] at hkept
    obtain ⟨hmade, hlists⟩ := h.added id' c' hnone hkept
    exact ⟨hmade, hc', hlists.numbered, hlists.named⟩
  · rcases h.named name id' hl with hl | ⟨hnone, hc'⟩
    · exact .inl hl
    · rw [get?_update, if_neg (hne id' hnone)]
      exact .inr ⟨hnone, hc'⟩

theorem grows_update {t : ClassTable} {id : ClassId} {f : ClassInfo → ClassInfo}
    (hf : ∀ c, t.get? id = some c → c.Prepares (f c)) : t.Grows (t.update id f) := by
  refine ⟨fun id' c hc => ?_, fun id' c' hnone hc => ?_, fun _ _ h => h, fun _ _ h => .inl h,
    List.prefix_refl _⟩
  · rw [get?_update]
    split
    · next heq =>
      subst heq
      rw [hc]
      exact ⟨f c, rfl, hf c hc⟩
    · exact ⟨c, hc, .refl c⟩
  · rw [get?_update, hnone] at hc
    split at hc <;> cases hc

theorem grows_record (t : ClassTable) (severity : Severity) (subject message : String) :
    t.Grows (t.record severity subject message) := by
  refine ⟨fun _ c h => ⟨c, h, .refl c⟩, fun _ _ h h' => ?_, fun _ _ h => h, fun _ _ h => .inl h, ?_⟩
  · rw [show (t.record severity subject message).get? _ = t.get? _ from rfl, h] at h'
    cases h'
  · show t.log.entries <+: (t.log.record severity subject message).entries
    rw [LoadLog.entries_record]
    exact List.prefix_append _ _

theorem get?_push {t t' : ClassTable} {c : ClassInfo} (h : t'.classes = t.classes.push c) (id : ClassId) :
    t'.get? id = if id = t.size then some c else t.get? id := by
  unfold get?
  rw [h]
  exact Array.getElem?_push

theorem get?_eq_none_of_size_le {t : ClassTable} {id : ClassId} (h : t.size ≤ id) : t.get? id = none :=
  Array.getElem?_eq_none h

/-- What an insertion does to the table. -/
theorem insert_eq {t t' : ClassTable} {name : String} {build : ClassId → ClassInfo} {id : ClassId}
    (h : t.insert name build = .ok (id, t')) :
    id = t.size ∧ t.lookup? name = none ∧ t'.log = t.log ∧
      t'.classes = t.classes.push (build t.size) ∧
      ∀ name', t'.lookup? name' = if name = name' then some t.size else t.lookup? name' := by
  unfold insert at h
  split at h
  · cases h
  · next hname =>
    cases h
    refine ⟨rfl, ?_, rfl, rfl, fun name' => Maps.getElem?_insert_eq _ _ _ _⟩
    cases hl : t.lookup? name with
    | none => rfl
    | some id' =>
      refine absurd ?_ hname
      rw [Std.ExtTreeMap.contains_iff_mem, Std.ExtTreeMap.mem_iff_isSome_getElem?]
      exact Option.isSome_of_eq_some hl

theorem grows_insert {t t' : ClassTable} {name : String} {build : ClassId → ClassInfo} {id : ClassId}
    (h : t.insert name build = .ok (id, t'))
    (hb : ∀ id, (build id).MadeForArray ∧ (build id).id = id ∧ (build id).name = name) :
    t.Grows t' := by
  obtain ⟨rfl, hfresh, hlog, hclasses, hlookup⟩ := insert_eq h
  obtain ⟨hmade, hid, hname⟩ := hb t.size
  have hget := get?_push hclasses
  have hnone : t.get? t.size = none := get?_eq_none_of_size_le (Nat.le_refl _)
  refine ⟨fun id' c hc => ⟨c, ?_, .refl c⟩, fun id' c' hnone' hc => ?_, fun name' id' hl => ?_,
    fun name' id' hl => ?_, hlog ▸ List.prefix_refl _⟩
  · rw [hget, if_neg, hc]
    rintro rfl
    rw [hnone] at hc
    cases hc
  · have hfound := hc
    rw [hget, hnone'] at hc
    split at hc
    · next heq =>
      cases hc
      subst heq
      exact ⟨hmade, hfound, hid, by rw [hname, hlookup, if_pos rfl]⟩
    · cases hc
  · rw [hlookup, if_neg, hl]
    rintro rfl
    rw [hfresh] at hl
    cases hl
  · rw [hlookup] at hl
    split at hl
    · next heq =>
      cases hl
      exact .inr ⟨hnone, build t.size, by rw [hget, if_pos rfl], hname.trans heq⟩
    · exact .inl hl

/-- A question about classes after which the table has at most grown. -/
def Growing {α : Type} (x : StateM ClassTable α) : Prop := ∀ t : ClassTable, t.Grows (x t).2

section Questions

theorem findSuper_classes (t : ClassTable) (c : ClassInfo) :
    t.Grows (t.findSuper c).2 ∧ (t.findSuper c).2.classes = t.classes := by
  unfold findSuper
  split
  · exact ⟨.refl t, rfl⟩
  · split
    · exact ⟨.refl t, rfl⟩
    · exact ⟨grows_record t _ _ _, rfl⟩

theorem superclass_grows (id : ClassId) : Growing (superclass id) := by
  intro t
  unfold superclass
  split
  · exact .refl t
  · next c hc =>
    split
    · exact .refl t
    · next hlink =>
      obtain ⟨hgrows, hclasses⟩ := findSuper_classes t c
      refine hgrows.trans (grows_update fun c' hc' => ?_)
      have heq : c' = c := by
        unfold get? at hc hc'
        rw [hclasses, hc] at hc'
        exact (Option.some.inj hc').symm
      subst heq
      exact { ClassInfo.Prepares.refl c' with
        declared := rfl
        superLink := fun _ h => by rw [hlink] at h; cases h }

theorem findInterfaces_classes (owner : String) (names : List String) (t : ClassTable) :
    t.Grows (findInterfaces owner names t).2 ∧ (findInterfaces owner names t).2.classes = t.classes := by
  induction names generalizing t with
  | nil => exact ⟨.refl t, rfl⟩
  | cons name rest ih =>
    cases hl : t.lookup? name with
    | some id =>
      have hrun : (findInterfaces owner (name :: rest) t).2 = (findInterfaces owner rest t).2 := by
        rw [findInterfaces, state_get, hl]
        rfl
      rw [hrun]
      exact ih t
    | none =>
      let t' := t.record .warning owner s!"missing interface {name}"
      have hrun : findInterfaces owner (name :: rest) t = findInterfaces owner rest t' := by
        rw [findInterfaces, state_get, hl]
        rfl
      rw [hrun]
      obtain ⟨hgrows, hclasses⟩ := ih t'
      exact ⟨(grows_record t _ _ _).trans hgrows, hclasses⟩

theorem interfaces_grows (id : ClassId) : Growing (interfaces id) := by
  intro t
  rw [interfaces, state_get]
  cases hc : t.get? id with
  | none => exact .refl t
  | some c =>
    dsimp only
    cases hlinks : c.interfaceLinks with
    | some links => exact .refl t
    | none =>
      obtain ⟨hgrows, hclasses⟩ := findInterfaces_classes c.name c.interfaceNames t
      refine hgrows.trans (grows_update fun c' hc' => ?_)
      have heq : c' = c := by
        unfold get? at hc hc'
        rw [hclasses, hc] at hc'
        exact (Option.some.inj hc').symm
      subst heq
      exact { ClassInfo.Prepares.refl c' with
        declared := rfl
        interfaceLinks := fun _ h => by rw [hlinks] at h; cases h }

theorem arrayInfo_made (t : ClassTable) (name : String) (element : ElementType) (id : ClassId) :
    (t.arrayInfo name element id).MadeForArray ∧ (t.arrayInfo name element id).id = id ∧
      (t.arrayInfo name element id).name = name :=
  ⟨⟨rfl, rfl, rfl, rfl, rfl, rfl, rfl, rfl⟩, rfl, rfl⟩

theorem Ask.grows {t t' : ClassTable} (h : t.Ask t') : t.Grows t' := by
  cases h with
  | record severity subject message => exact grows_record t severity subject message
  | superclass id => exact superclass_grows id t
  | interfaces id => exact interfaces_grows id t
  | array hinsert => exact grows_insert hinsert (arrayInfo_made t _ _)

theorem Asks.grows {t t' : ClassTable} (h : t.Asks t') : t.Grows t' := by
  induction h with
  | refl => exact .refl t
  | tail _ hask ih => exact ih.trans hask.grows

theorem climb_grows (origin : ClassId) (fuel : Nat) (chain : List ClassId) (current : ClassId) :
    Growing (climb origin fuel chain current) := fun t => Asks.grows (climb_asks origin fuel chain current t)

theorem ancestry_grows (id : ClassId) : Growing (ancestry id) := fun t => Asks.grows (ancestry_asks id t)

theorem arrayClass_grows (name : String) : Growing (arrayClass name) := fun t =>
  Asks.grows (arrayClass_asks name t)

theorem resolveName_grows (name : String) : Growing (resolveName name) := fun t =>
  Asks.grows (resolveName_asks name t)

end Questions

end ClassTable

end ClassMachine
