import ClassMachine.Proofs.Link.Growth

/-!
Preparing classes and linking methods lets the class table grow and does nothing else, whether the
link succeeds or fails. In particular no static initializer is taken up.
-/
namespace ClassMachine
open Stateful

/-- A linker whose table has grown and which knows more signatures. -/
structure Linker.Grows (l l' : Linker) : Prop where
  classes : l.classes.Grows l'.classes
  access : l'.access = l.access
  signatures : l.signatures.pairs.toList <+: l'.signatures.pairs.toList

theorem Linker.Grows.refl (l : Linker) : l.Grows l := ⟨.refl _, rfl, List.prefix_refl _⟩

theorem Linker.Grows.trans {l₁ l₂ l₃ : Linker} (h : l₁.Grows l₂) (h' : l₂.Grows l₃) : l₁.Grows l₃ :=
  ⟨h.classes.trans h'.classes, h'.access.trans h.access, h.signatures.trans h'.signatures⟩

namespace Linker

theorem grows_classes {l : Linker} {t : ClassTable} (h : l.classes.Grows t) :
    l.Grows { l with classes := t } := ⟨h, rfl, List.prefix_refl _⟩

/-- A computation after which the linker has at most grown. -/
def Growing {α : Type} (x : StateM Linker α) : Prop := ∀ l : Linker, l.Grows (x l).2

namespace Growing

variable {α β : Type}

theorem pure (a : α) : Growing (pure a : StateM Linker α) := fun l => .refl l

theorem bind {x : StateM Linker α} {f : α → StateM Linker β} (hx : Growing x)
    (hf : ∀ a, Growing (f a)) : Growing (x >>= f) :=
  fun l => (hx l).trans (hf _ _)

theorem foldlM {f : β → α → StateM Linker β} (hf : ∀ b a, Growing (f b a)) (as : List α) (b : β) :
    Growing (as.foldlM f b) := by
  induction as generalizing b with
  | nil => exact .pure b
  | cons a as ih =>
    rw [List.foldlM_cons]
    exact (hf b a).bind fun b' => ih b'

theorem onClasses {x : StateM ClassTable α} (hx : ClassTable.Growing x) :
    Growing (Linker.onClasses x) := fun l => grows_classes (hx l.classes)

end Growing

theorem record_grows (severity : Severity) (subject message : String) :
    Growing (record severity subject message) :=
  fun l => grows_classes (ClassTable.grows_record l.classes severity subject message)

theorem intern_grows (name descriptor : String) :
    Growing (intern name descriptor) ∧ ∀ l, (intern name descriptor l).2.classes = l.classes := by
  refine ⟨fun l => ⟨.refl _, rfl, ?_⟩, fun l => rfl⟩
  show l.signatures.pairs.toList <+: (l.signatures.intern name descriptor).2.pairs.toList
  unfold Signatures.intern
  split
  · exact List.prefix_refl _
  · rw [Array.toList_push]
    exact List.prefix_append _ _

/-- Signatures are all that making a dispatch table adds to. -/
theorem extendDispatch_grows (table : DispatchTable) (methods : List Method) (l : Linker) :
    l.Grows (extendDispatch table methods l).2 ∧
      (extendDispatch table methods l).2.classes = l.classes := by
  induction methods generalizing table l with
  | nil => exact ⟨.refl l, rfl⟩
  | cons m rest ih =>
    rw [extendDispatch]
    split
    · obtain ⟨hgrows, hclasses⟩ := intern_grows m.name m.descriptor
      rw [state_bind]
      obtain ⟨hrest, hsame⟩ := ih (table.insert (intern m.name m.descriptor l).1 m.id)
        (intern m.name m.descriptor l).2
      exact ⟨(hgrows l).trans hrest, hsame.trans (hclasses l)⟩
    · exact ih table l

theorem aligned_numberFields (next : Nat) (fields : List Field) (i : Nat) :
    Option.Rel Field.Places fields[i]? (numberFields next fields)[i]? := by
  induction fields generalizing next i with
  | nil => exact .none
  | cons f rest ih =>
    rw [numberFields]
    split
    · cases i with
      | zero => exact .some .same
      | succ i => exact ih next i
    · next hstatic =>
      cases i with
      | zero => exact .some (.placed (by simpa using hstatic))
      | succ i => exact ih (next + 1) i

theorem layOut_prepares (inherited : List Kind) (c : ClassInfo) : c.Prepares (layOut inherited c) := by
  unfold layOut
  split
  · exact .refl c
  · next hlayout =>
    exact { ClassInfo.Prepares.refl c with
      declared := rfl
      fields := fun i => by simpa using aligned_numberFields inherited.length c.fields.toList i
      layout := fun _ h => by rw [hlayout] at h; cases h }

/-- A dispatch table that is there is kept. -/
theorem dispatchOf_grows (inherited : DispatchTable) (c : ClassInfo) (l : Linker) :
    l.Grows (dispatchOf inherited c l).2 ∧ (dispatchOf inherited c l).2.classes = l.classes ∧
      ∀ table, c.dispatch = some table → (dispatchOf inherited c l).1 = table := by
  unfold dispatchOf
  cases hd : c.dispatch with
  | some table => exact ⟨.refl l, rfl, fun _ h => Option.some.inj h⟩
  | none =>
    obtain ⟨hgrows, hclasses⟩ := extendDispatch_grows inherited c.methods.toList l
    exact ⟨hgrows, hclasses, fun _ h => by cases h⟩

theorem prepareOne_grows (inherited : Inheritance) (id : ClassId) :
    Growing (prepareOne inherited id) := by
  refine Growing.bind (.onClasses (ClassTable.interfaces_grows id)) fun _ l => ?_
  rw [state_get]
  cases hc : l.classes.get? id with
  | none => exact .refl l
  | some c =>
    let laid := layOut inherited.kinds c
    obtain ⟨hgrows, hclasses, hkept⟩ := dispatchOf_grows inherited.dispatch laid l
    refine hgrows.trans (grows_classes (ClassTable.grows_update fun c' hc' => ?_))
    have heq : c' = c := by
      rw [show (dispatchOf inherited.dispatch laid l).2.classes = l.classes from hclasses, hc] at hc'
      exact (Option.some.inj hc').symm
    subst heq
    refine (layOut_prepares inherited.kinds c').trans ?_
    exact { ClassInfo.Prepares.refl laid with
      declared := rfl
      dispatch := fun table h => congrArg some (hkept table h) }

theorem prepare_grows (id : ClassId) : Growing (prepare id) := by
  intro l
  rw [prepare, state_get]
  cases l.classes.get? id with
  | none => exact .refl l
  | some c =>
    dsimp only
    split
    · exact .refl l
    · refine Growing.bind (.onClasses (ClassTable.ancestry_grows id)) (fun chain => ?_) l
      exact (Growing.foldlM prepareOne_grows _ _).bind fun _ l => .refl l

end Linker

/-- A computation that may fail, after which the linker has at most grown either way. -/
def Linking {ε α : Type} (x : EStateM ε Linker α) : Prop :=
  ∀ l : Linker, Ends (x l) (fun _ l' => l.Grows l') fun _ l' => l.Grows l'

namespace Linking

variable {ε α β : Type}

theorem pure (a : α) : Linking (pure a : EStateM ε Linker α) := fun l => .refl l

theorem throw (e : ε) : Linking (throw e : EStateM ε Linker α) := fun l => .refl l

theorem bind {x : EStateM ε Linker α} {f : α → EStateM ε Linker β} (hx : Linking x)
    (hf : ∀ a, Linking (f a)) : Linking (x >>= f) := by
  intro l
  refine Ends.bind (hx l) fun a l' hl => ?_
  exact (hf a l').mono (fun _ _ h => hl.trans h) fun _ _ h => hl.trans h

theorem get {f : Linker → EStateM ε Linker β} (hf : ∀ a, Linking (f a)) : Linking (get >>= f) :=
  fun l => hf l l

theorem mapM {f : α → EStateM ε Linker β} (hf : ∀ a, Linking (f a)) (as : List α) :
    Linking (as.mapM f) := by
  induction as with
  | nil => exact .pure []
  | cons a as ih =>
    rw [List.mapM_cons]
    exact (hf a).bind fun b => ih.bind fun bs => .pure _

theorem ofState {x : StateM Linker α} (hx : Linker.Growing x) : Linking (LinkM.ofState x) := hx

theorem ofClasses {x : StateM ClassTable α} (hx : ClassTable.Growing x) :
    Linking (LinkM.ofClasses x) := ofState (.onClasses hx)

theorem ofExcept (x : Except LinkError α) : Linking (LinkM.ofExcept x) := by
  cases x with
  | ok a => exact .pure a
  | error e => exact .throw e

end Linking

namespace Linker

theorem Move.grows {l l' : Linker} (h : l.Move l') : l.Grows l' := by
  cases h with
  | ask hask => exact grows_classes hask.grows
  | intern name descriptor => exact (intern_grows name descriptor).1 l
  | prepare id => exact prepare_grows id l

theorem Moves.grows {l l' : Linker} (h : l.Moves l') : l.Grows l' := by
  induction h with
  | refl => exact .refl l
  | tail _ hmove ih => exact ih.trans hmove.grows

theorem linkBody_grows (pool : ConstantPool) (subject : String) (raw : RawCode) :
    Linking (linkBody pool subject raw) := fun l =>
  (linkBody_moves pool subject raw l).mono (fun _ _ h => Moves.grows h) fun _ _ h => Moves.grows h

/-- An outcome is stored in a method that had none when linking began. -/
theorem prepares_store {c c' : ClassInfo} {i : Nat} {m : Method} {raw : RawCode} (h : c.Prepares c')
    (hm : c.methods[i]? = some m) (hbody : m.body = .bytecode raw none)
    {result : Except LinkError LinkedCode} (hgives : Gives c.pool raw result) :
    c.Prepares { c' with
      methods := c'.methods.modify i fun m => { m with body := .bytecode raw (some result) } } := by
  have hmethods : Aligned (Method.Links c.pool) c.methods
      (c'.methods.modify i fun m => { m with body := .bytecode raw (some result) }) := by
    intro j
    rw [Array.getElem?_modify]
    split
    · next hij =>
      subst hij
      obtain ⟨m', hm', hlinks⟩ := h.methods.of_some hm
      rw [hm, hm']
      refine .some ?_
      cases hlinks with
      | same => exact .linked hbody hgives
      | linked _ _ => exact .linked hbody hgives
    · exact h.methods j
  refine ⟨?_, h.fields, hmethods, h.superLink, h.interfaceLinks, h.dispatch, h.layout⟩
  rw [h.declared]

theorem linkFresh_grows {l : Linker} {id : MethodId} {c : ClassInfo} {m : Method} {raw : RawCode}
    (hc : l.classes.get? id.owner = some c) (hm : c.methods[id.index]? = some m)
    (hbody : m.body = .bytecode raw none) : l.Grows (linkFresh id c m raw l).2 := by
  let l₁ := (prepare c.id l).2
  have h₁ : l.Grows l₁ := prepare_grows c.id l
  have hstore : ∀ {l' : Linker} {result}, l.Grows l' → Gives c.pool raw result →
      l.Grows (store id raw result l').2 := by
    intro l' result h hgives
    refine ⟨h.classes.update hc fun c' hp => ?_, h.access, h.signatures⟩
    exact prepares_store hp hm hbody hgives
  have hlink := linkBody_grows c.pool m.text raw l₁
  rw [linkFresh, state_bind]
  show l.Grows ((_ >>= _ : StateM Linker _) l₁).2
  rw [state_bind]
  dsimp only
  cases hrun : linkBody c.pool m.text raw l₁ with
  | ok code l₂ =>
    rw [hrun] at hlink
    refine hstore (h₁.trans hlink) ⟨m.text, l₁, ?_⟩
    rw [hrun]
    rfl
  | error e l₂ =>
    rw [hrun] at hlink
    refine hstore ((h₁.trans hlink).trans (record_grows _ _ _ l₂)) ⟨m.text, l₁, ?_⟩
    rw [hrun]
    rfl

theorem link_grows (id : MethodId) : Growing (link id) := by
  intro l
  rw [link, state_get]
  cases hc : l.classes.get? id.owner with
  | none => exact .refl l
  | some c =>
    dsimp only
    cases hm : c.methods[id.index]? with
    | none => exact .refl l
    | some m =>
      dsimp only
      cases hbody : m.body with
      | bytecode raw linked =>
        cases linked with
        | some result => exact .refl l
        | none => exact linkFresh_grows hc hm hbody
      | native binding => exact .refl l
      | abstract => exact .refl l

end Linker

end ClassMachine
