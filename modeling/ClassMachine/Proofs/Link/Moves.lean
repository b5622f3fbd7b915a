import ClassMachine.Link.Resolution
import ClassMachine.Proofs.Stateful
import Mathlib.Logic.Relation

/-!
What questions about classes and the linking of methods are made of. A question looks up links and
makes array classes; linking asks questions, numbers signatures and prepares classes. Whatever holds
along these few moves holds along every run of the linker, whether the link succeeds or fails.
-/
namespace ClassMachine
open Stateful

namespace ClassTable

/-- One thing a question does to a class table. -/
inductive Ask (t : ClassTable) : ClassTable → Prop
  | record (severity : Severity) (subject message : String) : Ask t (t.record severity subject message)
  | superclass (id : ClassId) : Ask t (superclass id t).2
  | interfaces (id : ClassId) : Ask t (interfaces id t).2
  | array {component : FieldType} {element : ElementType} {id : ClassId} {t' : ClassTable}
      (h : t.insert (FieldType.array component).text (t.arrayInfo (FieldType.array component).text element) =
        .ok (id, t')) (hkind : element.kind = component.kind) : Ask t t'

/-- What a question does to a class table. -/
abbrev Asks : ClassTable → ClassTable → Prop := Relation.ReflTransGen Ask

def Asking {α : Type} (x : StateM ClassTable α) : Prop := ∀ t : ClassTable, t.Asks (x t).2

namespace Asking

variable {α β : Type}

theorem pure (a : α) : Asking (pure a : StateM ClassTable α) := fun _ => .refl

theorem bind {x : StateM ClassTable α} {f : α → StateM ClassTable β} (hx : Asking x)
    (hf : ∀ a, Asking (f a)) : Asking (x >>= f) := fun t => (hx t).trans (hf _ _)

theorem get {f : ClassTable → StateM ClassTable β} (hf : ∀ t, Asking (f t)) : Asking (get >>= f) :=
  fun t => hf t t

end Asking

theorem superclass_asks (id : ClassId) : Asking (superclass id) := fun _ => .single (.superclass id)

theorem interfaces_asks (id : ClassId) : Asking (interfaces id) := fun _ => .single (.interfaces id)

theorem climb_asks (origin : ClassId) (fuel : Nat) (chain : List ClassId) (current : ClassId) :
    Asking (climb origin fuel chain current) := by
  induction fuel generalizing chain current with
  | zero => exact .pure _
  | succ fuel ih =>
    apply (superclass_asks current).bind
    intro parent
    cases parent with
    | none => exact .pure _
    | some parent =>
      dsimp only
      split
      · exact fun t => .single (.record _ _ _)
      · exact ih _ _

theorem ancestry_asks (id : ClassId) : Asking (ancestry id) := .get fun _ => climb_asks _ _ _ _

theorem anyIs_asks (sup : ClassId) (ids : List ClassId) : Asking (anyIs sup ids) := by
  induction ids with
  | nil => exact .pure _
  | cons id ids ih =>
    unfold anyIs
    split
    · exact .pure _
    · apply (interfaces_asks id).bind
      intro links
      split
      · exact .pure _
      · exact ih

theorem isWithin_asks (fuel : Nat) (sub sup : ClassId) : Asking (isWithin fuel sub sup) := by
  induction fuel generalizing sub sup with
  | zero => exact .pure _
  | succ fuel ih =>
    unfold isWithin
    split
    · exact .pure _
    · apply Asking.get
      intro t
      split
      · exact ih _ _
      · exact .pure _
      · exact .pure _
      · exact (ancestry_asks sub).bind fun chain => anyIs_asks sup chain

theorem isSubclass_asks (sub sup : ClassId) : Asking (isSubclass sub sup) :=
  .get fun _ => isWithin_asks _ _ _

theorem allInterfaces_asks (ids : List ClassId) : Asking (allInterfaces ids) := by
  induction ids with
  | nil => exact .pure _
  | cons id ids ih => exact (interfaces_asks id).bind fun _ => ih.bind fun _ => .pure _

theorem searchInterfaces_asks (name descriptor : String) (fuel : Nat) (seen pending : List ClassId) :
    Asking (searchInterfaces name descriptor fuel seen pending) := by
  induction fuel generalizing seen pending with
  | zero => exact .pure _
  | succ fuel ih =>
    unfold searchInterfaces
    split
    · exact .pure _
    · apply Asking.get
      intro t
      split
      · exact .pure _
      · exact (interfaces_asks _).bind fun _ => ih _ _

theorem resolveMethod_asks (id : ClassId) (name descriptor : String) :
    Asking (resolveMethod id name descriptor) := by
  refine (ancestry_asks id).bind fun chain => .get fun t => ?_
  split
  · exact .pure _
  · refine (allInterfaces_asks chain).bind fun pending => .get fun t => ?_
    refine (searchInterfaces_asks _ _ _ _ _).bind fun found => ?_
    split <;> exact .pure _

theorem resolveField_asks (id : ClassId) (name descriptor : String) :
    Asking (resolveField id name descriptor) := by
  refine (ancestry_asks id).bind fun chain => .get fun t => ?_
  split <;> exact .pure _

theorem arrayOfType_asks (component : FieldType) {t t' : ClassTable} {id : ClassId}
    (h : t.arrayOfType component = .ok (id, t')) : t.Asks t' := by
  induction component generalizing id t' with
  | primitive kind =>
    unfold arrayOfType at h
    dsimp only at h
    split at h
    · cases h
      exact .refl
    · exact .single (.array h rfl)
  | object element =>
    unfold arrayOfType at h
    dsimp only at h
    split at h
    · cases h
      exact .refl
    · split at h
      · exact .single (.array h rfl)
      · cases h
  | array inner ih =>
    unfold arrayOfType at h
    dsimp only at h
    split at h
    · cases h
      exact .refl
    · split at h
      · next hinner => exact (ih hinner).tail (.array h rfl)
      · cases h

theorem arrayClass_asks (name : String) : Asking (arrayClass name) := by
  intro t
  unfold arrayClass
  split
  · exact .refl
  · split
    · split
      · next h => exact arrayOfType_asks _ h
      · exact .refl
    · exact .refl

theorem arrayOf_asks (element : ElementType) : Asking (arrayOf element) := by
  apply Asking.get
  intro t
  split
  · exact arrayClass_asks _
  · exact .pure _

theorem resolveName_asks (name : String) : Asking (resolveName name) := by
  unfold resolveName
  split
  · exact (arrayClass_asks name).bind fun _ => .pure _
  · exact .get fun _ => .pure _

end ClassTable

namespace Linker

/-- One thing linking does to a linker. -/
inductive Move (l : Linker) : Linker → Prop
  | ask {t : ClassTable} (h : l.classes.Ask t) : Move l { l with classes := t }
  | intern (name descriptor : String) : Move l (intern name descriptor l).2
  | prepare (id : ClassId) : Move l (prepare id l).2

/-- What linking does to a linker. -/
abbrev Moves : Linker → Linker → Prop := Relation.ReflTransGen Move

theorem moves_of_asks {l : Linker} {t : ClassTable} (h : l.classes.Asks t) : l.Moves { l with classes := t } := by
  induction h with
  | refl => exact .refl
  | tail _ hask ih => exact ih.tail (.ask (l := { l with classes := _ }) hask)

theorem record_moves (severity : Severity) (subject message : String) (l : Linker) :
    l.Moves (record severity subject message l).2 := .single (.ask (.record severity subject message))

end Linker

namespace LinkM
open ClassTable

/-- A computation that only makes moves, whether it succeeds or fails. -/
def Moving {α : Type} (x : LinkM α) : Prop :=
  ∀ l : Linker, Ends (x l) (fun _ l' => l.Moves l') fun _ l' => l.Moves l'

namespace Moving

variable {α β : Type}

theorem pure (a : α) : Moving (pure a : LinkM α) := fun _ => .refl

theorem throw (e : LinkError) : Moving (throw e : LinkM α) := fun _ => .refl

theorem bind {x : LinkM α} {f : α → LinkM β} (hx : Moving x) (hf : ∀ a, Moving (f a)) :
    Moving (x >>= f) := by
  intro l
  refine Ends.bind (hx l) fun a l' hl => ?_
  exact (hf a l').mono (fun _ _ h => hl.trans h) fun _ _ h => hl.trans h

theorem get {f : Linker → LinkM β} (hf : ∀ l, Moving (f l)) : Moving (get >>= f) := fun l => hf l l

theorem ofState {x : StateM Linker α} (hx : ∀ l : Linker, l.Moves (x l).2) : Moving (LinkM.ofState x) := hx

theorem ofClasses {x : StateM ClassTable α} (hx : Asking x) : Moving (LinkM.ofClasses x) :=
  .ofState fun l => Linker.moves_of_asks (hx l.classes)

theorem ofExcept (x : Except LinkError α) : Moving (LinkM.ofExcept x) := by
  cases x with
  | ok a => exact .pure a
  | error e => exact .throw e

theorem intern (name descriptor : String) : Moving (LinkM.ofState (Linker.intern name descriptor)) :=
  .ofState fun _ => .single (.intern name descriptor)

end Moving

end LinkM

namespace SymbolSite
open LinkM ClassTable

variable (s : SymbolSite)

theorem missing_moves (kind : SymbolKind) (symbol : String) (pops : List Category)
    (push : Option Category) : Moving (s.missing kind symbol pops push) :=
  (Moving.ofState (Linker.record_moves _ _ _)).bind fun _ => .pure _

theorem loadClass_moves (name : String) : Moving (s.loadClass name) := by
  refine (Moving.ofClasses (resolveName_asks _)).bind fun id? => ?_
  cases id? with
  | some id => exact .pure _
  | none => exact s.missing_moves _ _ _ _

theorem loadConstant_moves (index : Nat) (wide : Bool) : Moving (s.loadConstant index wide) := by
  refine (Moving.ofExcept _).bind fun c => ?_
  split
  · exact .pure _
  · exact .pure _
  · exact .pure _
  · exact s.loadClass_moves _
  · exact .pure _
  · exact .pure _
  · exact .throw _

theorem staticAccess_moves (put : Bool) (member : MemberRef) (type : FieldType) :
    Moving (s.staticAccess put member type) := by
  refine .get fun l => ?_
  split
  · exact s.missing_moves _ _ _ _
  · refine (Moving.ofClasses (resolveField_asks _ _ _)).bind fun found => ?_
    cases found with
    | error e => exact s.missing_moves _ _ _ _
    | ok id =>
      refine .get fun l => ?_
      split
      · exact s.missing_moves _ _ _ _
      · exact .pure _

theorem fieldSlot?_moves (id : FieldId) : Moving (fieldSlot? id) := by
  refine .get fun l => ?_
  split
  · exact .pure _
  · exact (Moving.ofState fun _ => .single (.prepare id.owner)).bind fun _ => .pure _

theorem instanceAccess_moves (put : Bool) (member : MemberRef) (type : FieldType) :
    Moving (s.instanceAccess put member type) := by
  refine .get fun l => ?_
  split
  · exact s.missing_moves _ _ _ _
  · refine (Moving.ofClasses (resolveField_asks _ _ _)).bind fun found => ?_
    cases found with
    | error e => exact s.missing_moves _ _ _ _
    | ok id =>
      refine (fieldSlot?_moves id).bind fun slot? => ?_
      cases slot? with
      | some slot => exact .pure _
      | none => exact .pure _

theorem call_moves (kind : InvokeKind) (member : MemberRef) (descriptor : MethodDescriptor) :
    Moving (s.call kind member descriptor) := by
  refine (Moving.ofClasses (resolveName_asks _)).bind fun owner? => ?_
  cases owner? with
  | none => exact s.missing_moves _ _ _ _
  | some owner =>
    refine (Moving.ofClasses (resolveMethod_asks _ _ _)).bind fun found => ?_
    cases found with
    | error e => exact s.missing_moves _ _ _ _
    | ok method =>
      cases kind with
      | static => exact .pure _
      | special => exact .pure _
      | interface => exact (Moving.intern _ _).bind fun _ => .pure _
      | virtual =>
        refine (Moving.intern _ _).bind fun _ => ?_
        split <;> exact .pure _

theorem useClass_moves (use : ClassUse) (name : String) : Moving (s.useClass use name) := by
  refine (Moving.ofClasses (resolveName_asks _)).bind fun id? => ?_
  split
  · exact .pure _
  · exact .pure _
  · exact .pure _
  · exact .pure _
  · exact .pure _
  · exact s.missing_moves _ _ _ _
  · exact s.missing_moves _ _ _ _
  · exact s.missing_moves _ _ _ _

theorem resolve_moves (op : Operation) : Moving (s.resolve op) := by
  cases op with
  | plain i => exact .pure _
  | loadConstant index wide => exact s.loadConstant_moves index wide
  | staticField index put =>
    exact (Moving.ofExcept _).bind fun member => (Moving.ofExcept _).bind fun type =>
      s.staticAccess_moves put member type
  | instanceField index put =>
    exact (Moving.ofExcept _).bind fun member => (Moving.ofExcept _).bind fun type =>
      s.instanceAccess_moves put member type
  | invoke kind index =>
    exact (Moving.ofExcept _).bind fun member => (Moving.ofExcept _).bind fun descriptor =>
      s.call_moves kind member descriptor
  | classUse use index =>
    exact (Moving.ofExcept _).bind fun name => s.useClass_moves use name

theorem catchType_moves (index : Nat) : Moving (s.catchType index) := by
  unfold catchType
  split
  · exact .pure _
  · refine (Moving.ofExcept _).bind fun name => ?_
    refine (Moving.ofClasses (resolveName_asks _)).bind fun id? => ?_
    cases id? with
    | some id => exact .pure _
    | none => exact (Moving.ofState (Linker.record_moves _ _ _)).bind fun _ => .pure _

end SymbolSite

namespace Decoding
open LinkM

variable (pool : ConstantPool) (subject : String)

theorem linkInstructions_moves (b : Body) (pcs : List Nat) :
    Moving (linkInstructions pool subject b pcs) := by
  induction pcs with
  | nil => exact .pure _
  | cons pc rest ih =>
    refine (Moving.ofExcept _).bind fun op => ?_
    exact (SymbolSite.resolve_moves _ op).bind fun i => ih.bind fun _ => .pure _

theorem linkHandlers_moves (b : Body) (handlers : List RawHandler) :
    Moving (linkHandlers pool subject b handlers) := by
  induction handlers with
  | nil => exact .pure _
  | cons h rest ih =>
    refine Moving.bind ?_ fun handler => ih.bind fun _ => .pure _
    refine (SymbolSite.catchType_moves _ _).bind fun catches => (Moving.ofExcept _).bind fun start => ?_
    exact (Moving.ofExcept _).bind fun stop => (Moving.ofExcept _).bind fun target => .pure _

theorem decode_moves (raw : RawCode) : Moving (decode pool subject raw) := by
  unfold decode
  dsimp only
  split
  · exact fun _ => .refl
  · refine (Moving.ofExcept _).bind fun pcs => ?_
    refine (linkInstructions_moves pool subject _ pcs).bind fun instructions => ?_
    exact (linkHandlers_moves pool subject _ _).bind fun handlers => .pure _

end Decoding

theorem Linker.linkBody_moves (pool : ConstantPool) (subject : String) (raw : RawCode) :
    LinkM.Moving (linkBody pool subject raw) :=
  (Decoding.decode_moves pool subject raw).bind fun _ => (LinkM.Moving.ofExcept _).bind fun _ => .pure _

end ClassMachine
