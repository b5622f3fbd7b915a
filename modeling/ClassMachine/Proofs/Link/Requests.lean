import ClassMachine.Proofs.Link.Loading
import ClassMachine.Proofs.Link.Preparation

/-!
Whatever may be asked of a linker, in any order. Every request comes down to moves of the linker, to
loading one class and to keeping one outcome. So the table of a linker is always in order, and classes
have their layouts and their dispatch tables together.
-/
namespace ClassMachine
open Stateful

namespace Linker

inductive Request where
  | register (d : ClassDefinition)
  | arrayClass (name : String)
  | arrayOf (element : ElementType)
  | prepare (id : ClassId)
  | link (id : MethodId)
  | intern (name descriptor : String)
  | superclass (id : ClassId)
  | interfaces (id : ClassId)
  | ancestry (id : ClassId)
  | isSubclass (sub sup : ClassId)
  | resolveMethod (id : ClassId) (name descriptor : String)
  | resolveField (id : ClassId) (name descriptor : String)

def Request.run : Request → Linker → Linker
  | register d, l => (onClasses (ClassTable.register d) l).2
  | arrayClass name, l => (onClasses (ClassTable.arrayClass name) l).2
  | arrayOf element, l => (onClasses (ClassTable.arrayOf element) l).2
  | prepare id, l => (Linker.prepare id l).2
  | link id, l => (Linker.link id l).2
  | intern name descriptor, l => (Linker.intern name descriptor l).2
  | superclass id, l => (onClasses (ClassTable.superclass id) l).2
  | interfaces id, l => (onClasses (ClassTable.interfaces id) l).2
  | ancestry id, l => (onClasses (ClassTable.ancestry id) l).2
  | isSubclass sub sup, l => (onClasses (ClassTable.isSubclass sub sup) l).2
  | resolveMethod id name descriptor, l => (onClasses (ClassTable.resolveMethod id name descriptor) l).2
  | resolveField id name descriptor, l => (onClasses (ClassTable.resolveField id name descriptor) l).2

/-- Requests that lead from one linker to another. -/
abbrev Leads : Linker → Linker → Prop := Relation.ReflTransGen fun l l' => ∃ r : Request, r.run l = l'

/-- Linkers that come about from one that knows no class. -/
def Reachable (l : Linker) : Prop := ∃ access, Leads { access := access } l

theorem leads_foldl (requests : List Request) (l : Linker) :
    l.Leads (requests.foldl (fun l r => r.run l) l) := by
  induction requests generalizing l with
  | nil => exact .refl
  | cons r requests ih => exact .head ⟨r, rfl⟩ (ih (r.run l))

/-- One thing a request does to a linker. -/
inductive Change (l : Linker) : Linker → Prop
  | move {l' : Linker} (h : l.Move l') : Change l l'
  | loaded {d : ClassDefinition} {fields : List Field} {signatures : List MethodDescriptor} {id : ClassId}
      {t : ClassTable} (h : l.classes.insert d.name (ClassTable.definedInfo d fields signatures) = .ok (id, t)) :
      Change l { l with classes := t }
  | stored (id : MethodId) (raw : RawCode) (result : Except LinkError LinkedCode) :
      Change l (store id raw result l).2

abbrev Changes : Linker → Linker → Prop := Relation.ReflTransGen Change

theorem Moves.changes {l l' : Linker} (h : l.Moves l') : l.Changes l' :=
  Relation.ReflTransGen.mono (fun _ _ => .move) _ _ h

theorem register_changes (d : ClassDefinition) (l : Linker) :
    l.Changes (onClasses (ClassTable.register d) l).2 := by
  have hlogged : ∀ (ms : List MethodDefinition) (l : Linker), l.Moves { l with classes :=
      (ms.foldl (fun t m => t.record .warning s!"{d.name}.{m.name}{m.descriptor}"
        "concrete method has no code; treated as abstract") l.classes) } := by
    intro ms
    induction ms with
    | nil => exact fun _ => .refl
    | cons m ms ih => exact fun l => .head (.ask (.record _ _ _)) (ih { l with classes := l.classes.record _ _ _ })
  show l.Changes { l with classes := (ClassTable.register d l.classes).2 }
  unfold ClassTable.register
  split
  · next id t hload =>
    obtain ⟨fields, _, hload⟩ := except_bind_ok.1 hload
    obtain ⟨signatures, _, hload⟩ := except_bind_ok.1 hload
    obtain ⟨⟨id₁, t₁⟩, hinsert, hload⟩ := except_bind_ok.1 hload
    cases hload
    exact .head (.loaded hinsert) (Moves.changes (hlogged _ { l with classes := t₁ }))
  · exact .single (.move (.ask (.record _ _ _)))

theorem linkFresh_changes (id : MethodId) (c : ClassInfo) (m : Method) (raw : RawCode) (l : Linker) :
    l.Changes (linkFresh id c m raw l).2 := by
  let l₁ := (prepare c.id l).2
  have hprepare : l.Changes l₁ := .single (.move (.prepare c.id))
  have hbody := linkBody_moves c.pool m.text raw l₁
  rw [linkFresh, state_bind]
  show l.Changes ((_ >>= _ : StateM Linker _) l₁).2
  rw [state_bind]
  dsimp only
  cases hrun : linkBody c.pool m.text raw l₁ with
  | ok code l₂ =>
    rw [hrun] at hbody
    exact (hprepare.trans (Moves.changes hbody)).tail (.stored id raw (.ok code))
  | error e l₂ =>
    rw [hrun] at hbody
    have hlogged : l.Changes (record .error m.text s!"link failed: {e.message}" l₂).2 :=
      hprepare.trans ((Moves.changes hbody).tail (.move (.ask (.record _ _ _))))
    exact hlogged.tail (.stored id raw (.error e))

theorem link_changes (id : MethodId) (l : Linker) : l.Changes (link id l).2 := by
  rw [link, state_get]
  cases l.classes.get? id.owner with
  | none => exact .refl
  | some c =>
    dsimp only
    cases c.methods[id.index]? with
    | none => exact .refl
    | some m =>
      dsimp only
      cases m.body with
      | bytecode raw linked =>
        cases linked with
        | some result => exact .refl
        | none => exact linkFresh_changes id c m raw l
      | native binding => exact .refl
      | abstract => exact .refl

theorem Request.changes (r : Request) (l : Linker) : l.Changes (r.run l) := by
  have hasks : ∀ {α : Type} {x : StateM ClassTable α}, ClassTable.Asking x → l.Changes (onClasses x l).2 :=
    fun hx => Moves.changes (moves_of_asks (hx l.classes))
  cases r with
  | register d => exact register_changes d l
  | arrayClass name => exact hasks (ClassTable.arrayClass_asks name)
  | arrayOf element => exact hasks (ClassTable.arrayOf_asks element)
  | prepare id => exact .single (.move (.prepare id))
  | link id => exact link_changes id l
  | intern name descriptor => exact .single (.move (.intern name descriptor))
  | superclass id => exact hasks (ClassTable.superclass_asks id)
  | interfaces id => exact hasks (ClassTable.interfaces_asks id)
  | ancestry id => exact hasks (ClassTable.ancestry_asks id)
  | isSubclass sub sup => exact hasks (ClassTable.isSubclass_asks sub sup)
  | resolveMethod id name descriptor => exact hasks (ClassTable.resolveMethod_asks id name descriptor)
  | resolveField id name descriptor => exact hasks (ClassTable.resolveField_asks id name descriptor)

theorem Leads.changes {l l' : Linker} (h : l.Leads l') : l.Changes l' := by
  induction h with
  | refl => exact .refl
  | tail _ hr ih =>
    obtain ⟨r, rfl⟩ := hr
    exact ih.trans (r.changes _)

end Linker

namespace ClassTable

variable {t t' : ClassTable}

theorem get?_updateMethod (t : ClassTable) (id : MethodId) (f : Method → Method) (x : ClassId) :
    (t.updateMethod id f).get? x = if id.owner = x then
      (t.get? x).map fun c => { c with methods := c.methods.modify id.index f } else t.get? x :=
  t.get?_update id.owner x _

theorem spares_updateMethod (t : ClassTable) (id : MethodId) (f : Method → Method) :
    t.Spares (t.updateMethod id f) := by
  refine ⟨rfl, fun x => ?_⟩
  rw [get?_updateMethod]
  split
  · rw [Option.map_map]
    rfl
  · rfl

theorem Becomes.trans {t₁ t₂ t₃ : ClassTable} (h : t₁.Becomes t₂) (h' : t₂.Becomes t₃) : t₁.Becomes t₃ := by
  induction h' with
  | same => exact h
  | added _ hinsert hlayout hlink ih => exact .added ih hinsert hlayout hlink
  | linked _ id ih => exact .linked ih id
  | prepared _ id ih => exact .prepared ih id
  | aside _ hspares ih => exact .aside ih hspares

theorem Ask.becomes (h : t.Ask t') : t.Becomes t' := by
  cases h with
  | record severity subject message => exact .aside .same (spares_record t severity subject message)
  | superclass id => exact .linked .same id
  | interfaces id => exact .aside .same (spares_interfaces id t)
  | array hinsert => exact .added .same hinsert rfl fun link hlink => (Option.some.inj hlink).symm

/-- Names stay with the classes that have them. -/
theorem Becomes.names (h : t.Becomes t') (name : String) (id : ClassId) (hl : t.lookup? name = some id) :
    t'.lookup? name = some id := by
  induction h with
  | same => exact hl
  | @added t₁ t₂ added build new _ hinsert _ _ ih =>
    obtain ⟨_, hfresh, _, _, hlookup⟩ := insert_eq hinsert
    rw [hlookup, if_neg, ih]
    rintro rfl
    cases hfresh.symm.trans ih
  | linked _ x ih => exact (superclass_grows x _).names name id ih
  | prepared _ x ih => exact (Linker.prepare_grows x _).classes.names name id ih
  | aside _ hspares ih =>
    unfold lookup?
    rw [hspares.names]
    exact ih

/-- A link to a superclass is what its name gives, unless the class of that name was loaded only afterwards. -/
def Timely (t : ClassTable) : Prop :=
  ∀ id c link, t.get? id = some c → c.superLink = some link →
    link = c.superName.bind t.lookup? ∨ link = none ∧ ∃ parent, c.superName.bind t.lookup? = some parent ∧ id ≤ parent

theorem timely_empty : ({} : ClassTable).Timely := fun id c link hc => by
  rw [show ({} : ClassTable).get? id = none from rfl] at hc
  cases hc

/-- Links stay as they are, or are set to what the names give. -/
theorem Timely.relinked (ht : t.Timely) (hnames : t'.byName = t.byName)
    (hlinks : ∀ id c', t'.get? id = some c' → ∃ c, t.get? id = some c ∧ c'.superName = c.superName ∧
      (c'.superLink = c.superLink ∨ c'.superLink = some (c.superName.bind t.lookup?))) : t'.Timely := by
  intro id c' link hc' hlink
  obtain ⟨c, hc, hname, hsame⟩ := hlinks id c' hc'
  rw [hname, show t'.lookup? = t.lookup? from funext fun _ => by rw [lookup?, lookup?, hnames]]
  rcases hsame with hsame | hset
  · exact ht id c link hc (hsame.symm.trans hlink)
  · exact .inl (Option.some.inj (hlink.symm.trans hset))

theorem Timely.superclass (ht : t.Timely) (id : ClassId) : (superclass id t).2.Timely := by
  refine ht.relinked (byName_superclass id t) fun x c' hc' => ?_
  rw [get?_superclass] at hc'
  split at hc'
  · next heq =>
    subst heq
    obtain ⟨c, hc, rfl⟩ := Option.map_eq_some_iff.1 hc'
    refine ⟨c, hc, rfl, ?_⟩
    dsimp only
    rw [superclass_fst, hc, Option.bind_some]
    cases c.superLink with
    | none => exact .inr rfl
    | some link => exact .inl rfl
  · exact ⟨c', hc', rfl, .inl rfl⟩

theorem Timely.spares (ht : t.Timely) (h : t.Spares t') : t'.Timely :=
  ht.relinked h.names fun _ _ hc' => by
    obtain ⟨c, hc, heq⟩ := h.exists_left hc'
    exact ⟨c, hc, congrArg (·.1) heq, .inl (congrArg (·.2.1) heq)⟩

theorem Timely.lays {ids : List ClassId} (ht : t.Timely) (h : Lays ids t t') : t'.Timely :=
  ht.relinked h.names fun x c' hc' => by
    obtain ⟨c, hc, hlink⟩ := h.links x c' hc'
    exact ⟨c, hc, congrArg (·.1) (h.settles.of_get? hc hc').bare, .inl hlink.symm⟩

theorem Timely.insert {name : String} {build : ClassId → ClassInfo} {id : ClassId} (ht : t.Timely)
    (h : t.insert name build = .ok (id, t'))
    (hlink : ∀ link, (build id).superLink = some link → link = (build id).superName.bind t.lookup?) : t'.Timely := by
  obtain ⟨rfl, hfresh, _, hclasses, hlookup⟩ := insert_eq h
  have hget := get?_push hclasses
  have hgiven : ∀ given : Option String, given.bind t'.lookup? = given.bind t.lookup? ∨
      given.bind t.lookup? = none ∧ given.bind t'.lookup? = some t.size := by
    rintro (_ | given)
    · exact .inl rfl
    · rw [Option.bind_some, Option.bind_some, hlookup]
      split
      · next heq => exact .inr ⟨heq ▸ hfresh, rfl⟩
      · exact .inl rfl
  intro x c link hc hl
  rw [hget] at hc
  have hbefore : x ≤ t.size ∧ (link = c.superName.bind t.lookup? ∨
      link = none ∧ ∃ parent, c.superName.bind t.lookup? = some parent ∧ x ≤ parent) := by
    split at hc
    · next heq =>
      cases hc
      exact ⟨Nat.le_of_eq heq, .inl (hlink link hl)⟩
    · exact ⟨Nat.le_of_lt (Array.getElem?_eq_some_iff.1 hc).1, ht x c link hc hl⟩
  obtain ⟨hle, hbefore⟩ := hbefore
  rcases hgiven c.superName with hsame | ⟨hnone, hnew⟩
  · rwa [hsame]
  · refine .inr ⟨?_, t.size, hnew, hle⟩
    rcases hbefore with heq | ⟨heq, _⟩
    · exact heq.trans hnone
    · exact heq

theorem Timely.asks (ht : t.Timely) (h : t.Asks t') : t'.Timely := by
  induction h with
  | refl => exact ht
  | tail _ hask ih =>
    cases hask with
    | record severity subject message => exact ih.spares (spares_record _ severity subject message)
    | superclass id => exact ih.superclass id
    | interfaces id => exact ih.spares (spares_interfaces id _)
    | array hinsert => exact ih.insert hinsert fun link hlink => (Option.some.inj hlink).symm

theorem Timely.prepare {l : Linker} (ht : l.classes.Timely) (id : ClassId) : (Linker.prepare id l).2.classes.Timely := by
  cases hc : l.classes.get? id with
  | none =>
    rw [Linker.prepare, state_get, hc]
    exact ht
  | some c =>
    rw [Linker.prepare_eq hc]
    split
    · exact ht
    · exact (ht.asks (ancestry_asks id l.classes)).lays
        (Linker.foldlM_prepareOne_lays _ {} { l with classes := (ancestry id l.classes).2 })

theorem Becomes.timely (h : t.Becomes t') (ht : t.Timely) : t'.Timely := by
  induction h with
  | same => exact ht
  | added _ hinsert _ hlink ih => exact ih.insert hinsert hlink
  | linked _ id ih => exact ih.superclass id
  | prepared _ id ih => exact ih.prepare id
  | aside _ hspares ih => exact ih.spares hspares

end ClassTable

namespace Linker
open ClassTable

variable {l l' : Linker}

theorem Change.becomes (h : l.Change l') : l.classes.Becomes l'.classes := by
  cases h with
  | move hmove =>
    cases hmove with
    | ask hask => exact hask.becomes
    | intern name descriptor => exact .same
    | prepare id => exact .prepared .same id
  | loaded hinsert => exact .added .same hinsert rfl fun link hlink => by cases hlink
  | stored id raw result => exact .aside .same (l.classes.spares_updateMethod id _)

theorem Changes.becomes (h : l.Changes l') : l.classes.Becomes l'.classes := by
  induction h with
  | refl => exact .same
  | tail _ hchange ih => exact ih.trans hchange.becomes

theorem Changes.names (h : l.Changes l') (name : String) (id : ClassId) (hl : l.classes.lookup? name = some id) :
    l'.classes.lookup? name = some id := h.becomes.names name id hl

theorem Leads.settles (h : l.Leads l') : l.classes.Settles l'.classes :=
  (Changes.becomes (Leads.changes h)).settles

theorem Reachable.orderly (h : l.Reachable) : l.classes.Orderly := by
  obtain ⟨access, hleads⟩ := h
  exact (Changes.becomes (Leads.changes hleads)).orderly orderly_empty

theorem Reachable.leads (h : l.Reachable) (hl : l.Leads l') : l'.Reachable := by
  obtain ⟨access, hleads⟩ := h
  exact ⟨access, hleads.trans hl⟩

theorem Request.regular (r : Request) (h : l.classes.Regular) : (r.run l).classes.Regular := by
  have hasks : ∀ {α : Type} {x : StateM ClassTable α}, Asking x → (onClasses x l).2.classes.Regular :=
    fun hx => h.grows (Asks.grows (hx l.classes))
  cases r with
  | register d =>
    show (ClassTable.register d l.classes).2.Regular
    unfold ClassTable.register
    split
    · next hload => exact h.load hload
    · exact h.grows (grows_record _ _ _ _)
  | arrayClass name => exact hasks (arrayClass_asks name)
  | arrayOf element => exact hasks (arrayOf_asks element)
  | prepare id => exact h.grows (prepare_grows id l).classes
  | link id => exact h.grows (link_grows id l).classes
  | intern name descriptor => exact h
  | superclass id => exact hasks (superclass_asks id)
  | interfaces id => exact hasks (interfaces_asks id)
  | ancestry id => exact hasks (ancestry_asks id)
  | isSubclass sub sup => exact hasks (isSubclass_asks sub sup)
  | resolveMethod id name descriptor => exact hasks (resolveMethod_asks id name descriptor)
  | resolveField id name descriptor => exact hasks (resolveField_asks id name descriptor)

theorem Request.keeps (r : Request) (l : Linker) : l.classes.Keeps (r.run l).classes := by
  have hasks : ∀ {α : Type} {x : StateM ClassTable α}, Asking x → l.classes.Keeps (onClasses x l).2.classes :=
    fun hx => (Asks.grows (hx l.classes)).keeps
  cases r with
  | register d => exact register_keeps d l.classes
  | arrayClass name => exact hasks (arrayClass_asks name)
  | arrayOf element => exact hasks (arrayOf_asks element)
  | prepare id => exact (prepare_grows id l).classes.keeps
  | link id => exact (link_grows id l).classes.keeps
  | intern name descriptor => exact fun id c hc => ⟨c, hc, rfl⟩
  | superclass id => exact hasks (superclass_asks id)
  | interfaces id => exact hasks (interfaces_asks id)
  | ancestry id => exact hasks (ancestry_asks id)
  | isSubclass sub sup => exact hasks (isSubclass_asks sub sup)
  | resolveMethod id name descriptor => exact hasks (resolveMethod_asks id name descriptor)
  | resolveField id name descriptor => exact hasks (resolveField_asks id name descriptor)

/-- Classes stay as they were declared. -/
theorem Leads.keeps (h : l.Leads l') : l.classes.Keeps l'.classes := by
  induction h with
  | refl => exact fun id c hc => ⟨c, hc, rfl⟩
  | tail _ hr ih =>
    obtain ⟨r, rfl⟩ := hr
    exact ih.trans (r.keeps _)

theorem Reachable.regular (h : l.Reachable) : l.classes.Regular := by
  obtain ⟨access, hleads⟩ := h
  induction hleads with
  | refl => exact regular_empty
  | tail _ hr ih =>
    obtain ⟨r, rfl⟩ := hr
    exact r.regular ih

end Linker

/-- A method under its signature. -/
def Method.entry (m : Method) : (String × String) × MethodId := ((m.name, m.descriptor), m.id)

/-- Methods that take part in dispatch, in the order of declaration. -/
def ClassInfo.virtuals (c : ClassInfo) : List ((String × String) × MethodId) :=
  (c.methods.toList.filter Method.isVirtual).map Method.entry

/-- How far a class is prepared, and what its dispatch table is made of. -/
def ClassInfo.plan (c : ClassInfo) : Bool × Option DispatchTable × List ((String × String) × MethodId) :=
  (c.layout.isSome, c.dispatch, c.virtuals)

namespace ClassTable

/-- Classes may be added, and none is prepared. -/
structure Idle (t t' : ClassTable) : Prop where
  kept : ∀ id c, t.get? id = some c → ∃ c', t'.get? id = some c' ∧ c'.plan = c.plan
  fresh : ∀ id c', t.get? id = none → t'.get? id = some c' → c'.layout = none ∧ c'.dispatch = none

/-- Classes have layout and dispatch table or neither. -/
def Even (t : ClassTable) : Prop := ∀ id c, t.get? id = some c → c.layout.isSome = c.dispatch.isSome

variable {t t' : ClassTable}

theorem idle_of_plan (h : ∀ id, (t'.get? id).map ClassInfo.plan = (t.get? id).map ClassInfo.plan) :
    t.Idle t' := by
  constructor
  · intro id c hc
    have hid := h id
    rw [hc, Option.map_some] at hid
    exact Option.map_eq_some_iff.1 hid
  · intro id c' hc hc'
    have hid := h id
    rw [hc, hc'] at hid
    cases hid

theorem idle_of_insert {name : String} {build : ClassId → ClassInfo} {id : ClassId}
    (h : t.insert name build = .ok (id, t')) (hlayout : (build id).layout = none)
    (hdispatch : (build id).dispatch = none) : t.Idle t' := by
  obtain ⟨rfl, _, _, hclasses, _⟩ := insert_eq h
  have hget := get?_push hclasses
  constructor
  · intro x c hc
    refine ⟨c, ?_, rfl⟩
    rw [hget, if_neg, hc]
    rintro rfl
    rw [get?_eq_none_of_size_le (Nat.le_refl _)] at hc
    cases hc
  · intro x c' hc hc'
    rw [hget, hc] at hc'
    split at hc'
    · cases hc'
      exact ⟨hlayout, hdispatch⟩
    · cases hc'

theorem Ask.idle (h : t.Ask t') : t.Idle t' := by
  cases h with
  | record severity subject message => exact idle_of_plan fun _ => rfl
  | superclass id =>
    apply idle_of_plan
    intro x
    rw [get?_superclass]
    split
    · rw [Option.map_map]
      rfl
    · rfl
  | interfaces id =>
    apply idle_of_plan
    intro x
    rw [get?_interfaces]
    split
    · rw [Option.map_map]
      rfl
    · rfl
  | array hinsert => exact idle_of_insert hinsert rfl rfl

theorem virtuals_modify (c : ClassInfo) (i : Nat) {f : Method → Method}
    (hf : ∀ m, (f m).isVirtual = m.isVirtual ∧ (f m).entry = m.entry) :
    ClassInfo.virtuals { c with methods := c.methods.modify i f } = c.virtuals := by
  have hmodify : ∀ (methods : List Method) (i : Nat), ((methods.modify i f).filter Method.isVirtual).map
      Method.entry = (methods.filter Method.isVirtual).map Method.entry := by
    intro methods
    induction methods with
    | nil => simp
    | cons m methods ih =>
      intro i
      cases i with
      | zero =>
        rw [List.modify_zero_cons, List.filter_cons, List.filter_cons, (hf m).1]
        split <;> simp [hf]
      | succ i =>
        rw [List.modify_succ_cons, List.filter_cons, List.filter_cons]
        split <;> simp [ih]
  simpa [ClassInfo.virtuals] using hmodify c.methods.toList i

theorem Even.idle (h : t.Even) (hi : t.Idle t') : t'.Even := by
  intro id c' hc'
  cases hc : t.get? id with
  | none => simp [hi.fresh id c' hc hc']
  | some c =>
    obtain ⟨c'', hc'', hplan⟩ := hi.kept id c hc
    cases hc'.symm.trans hc''
    rw [show c'.layout.isSome = c.layout.isSome from congrArg (·.1) hplan,
      show c'.dispatch = c.dispatch from congrArg (·.2.1) hplan]
    exact h id c hc

theorem Even.asks (h : t.Even) (ha : t.Asks t') : t'.Even := by
  induction ha with
  | refl => exact h
  | tail _ hask ih => exact ih.idle hask.idle

end ClassTable

namespace Linker
open ClassTable

variable {l l' : Linker}

theorem layOut_virtuals (inherited : List Kind) (c : ClassInfo) :
    (layOut inherited c).virtuals = c.virtuals := by
  unfold layOut
  split <;> rfl

/-- Preparing one class gives it layout and dispatch table, and passes the table on. -/
theorem prepareOne_plan (inherited : Inheritance) (id x : ClassId) (l : Linker) :
    ((prepareOne inherited id l).2.classes.get? x).map ClassInfo.plan = (l.classes.get? x).map fun c =>
      if id = x then (true, some (prepareOne inherited id l).1.dispatch, c.virtuals) else c.plan := by
  have hget := get?_interfaces id x l.classes
  by_cases hx : id = x
  · subst hx
    simp only [if_true] at hget ⊢
    cases hc : l.classes.get? id with
    | none =>
      rw [hc, Option.map_none] at hget
      rw [prepareOne_unknown hget, hget]
      rfl
    | some c =>
      rw [hc, Option.map_some] at hget
      rw [prepareOne_run hget rfl, get?_update, if_pos rfl, hget]
      simp only [Option.map_some, ClassInfo.plan]
      rw [layOut_layout, Option.isSome_some]
      exact congrArg (fun v => some (true, some _, v)) (layOut_virtuals inherited.kinds _)
  · simp only [if_neg hx] at hget ⊢
    cases hc : (interfaces id l.classes).2.get? id with
    | none => rw [prepareOne_unknown hc, hget]
    | some c => rw [prepareOne_run hc rfl, get?_update, if_neg hx, hget]

theorem prepareOne_even (h : l.classes.Even) (inherited : Inheritance) (id : ClassId) :
    (prepareOne inherited id l).2.classes.Even := by
  intro x c' hc'
  have hx := prepareOne_plan inherited id x l
  rw [hc', Option.map_some] at hx
  obtain ⟨c, hc, hplan⟩ := Option.map_eq_some_iff.1 hx.symm
  split at hplan
  · rw [← show true = c'.layout.isSome from congrArg (·.1) hplan,
      ← show some _ = c'.dispatch from congrArg (·.2.1) hplan]
    rfl
  · rw [← show c.layout.isSome = c'.layout.isSome from congrArg (·.1) hplan,
      ← show c.dispatch = c'.dispatch from congrArg (·.2.1) hplan]
    exact h x c hc

theorem prepare_even (h : l.classes.Even) (id : ClassId) : (prepare id l).2.classes.Even := by
  have hfold : ∀ (ids : List ClassId) (inherited : Inheritance) (l : Linker), l.classes.Even →
      (ids.foldlM prepareOne inherited l).2.classes.Even := by
    intro ids
    induction ids with
    | nil => exact fun _ _ h => h
    | cons id ids ih =>
      intro inherited l h
      rw [List.foldlM_cons, state_bind]
      exact ih _ _ (prepareOne_even h inherited id)
  cases hc : l.classes.get? id with
  | none =>
    rw [prepare, state_get, hc]
    exact h
  | some c =>
    rw [prepare_eq hc]
    split
    · exact h
    · exact hfold _ _ _ (h.asks (ancestry_asks id l.classes))

/-- A change prepares one class, or none. -/
theorem Change.prepares_or_idle (h : l.Change l') : (∃ id, l' = (prepare id l).2) ∨
    l.classes.Idle l'.classes ∧ (l'.signatures = l.signatures ∨
      ∃ name descriptor, l'.signatures = (l.signatures.intern name descriptor).2) := by
  cases h with
  | move hmove =>
    cases hmove with
    | ask hask => exact .inr ⟨hask.idle, .inl rfl⟩
    | intern name descriptor => exact .inr ⟨idle_of_plan fun _ => rfl, .inr ⟨name, descriptor, rfl⟩⟩
    | prepare id => exact .inl ⟨id, rfl⟩
  | loaded hinsert => exact .inr ⟨idle_of_insert hinsert rfl rfl, .inl rfl⟩
  | stored id raw result =>
    refine .inr ⟨idle_of_plan fun x => ?_, .inl rfl⟩
    show ((l.classes.updateMethod id _).get? x).map _ = _
    rw [get?_updateMethod]
    split
    · rw [Option.map_map]
      congr 1
      funext c
      exact congrArg (fun v => (c.layout.isSome, c.dispatch, v)) (virtuals_modify c id.index fun m => ⟨rfl, rfl⟩)
    · rfl

theorem Change.even (h : l.Change l') (hl : l.classes.Even) : l'.classes.Even := by
  rcases h.prepares_or_idle with ⟨id, rfl⟩ | ⟨hidle, _⟩
  · exact prepare_even hl id
  · exact hl.idle hidle

theorem Changes.even (h : l.Changes l') (hl : l.classes.Even) : l'.classes.Even := by
  induction h with
  | refl => exact hl
  | tail _ hchange ih => exact hchange.even ih

theorem Reachable.even (h : l.Reachable) : l.classes.Even := by
  obtain ⟨access, hleads⟩ := h
  exact Changes.even (Leads.changes hleads) fun id c hc => by simp [get?] at hc

end Linker

end ClassMachine
