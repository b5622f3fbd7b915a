import ClassMachine.Proofs.Link.Requests

/-!
What a running machine does to its linker. It links methods, prepares classes, answers questions about
them and binds native methods, and a host loads further classes meanwhile. Along all of this a class
keeps what it was loaded with, and a class that is added has its initializer before it, unless it is one
of arrays.
-/
namespace ClassMachine

namespace Linker

/-- One thing a running machine does to its linker, the taking up of initializers apart. -/
inductive Turn (l : Linker) : Linker → Prop
  | change {l' : Linker} (h : l.Change l') : Turn l l'
  | bound (id : MethodId) (binding : NativeBinding) :
      Turn l { l with
        classes := l.classes.updateMethod id fun m => { m with body := .native (some binding) } }

abbrev Turns : Linker → Linker → Prop := Relation.ReflTransGen Turn

def Turning {α : Type} (x : StateM Linker α) : Prop := ∀ l : Linker, l.Turns (x l).2

theorem Turns.becomes {l l' : Linker} (h : l.Turns l') : l.classes.Becomes l'.classes := by
  induction h with
  | refl => exact .same
  | tail _ hturn ih =>
    cases hturn with
    | change hchange => exact ih.trans hchange.becomes
    | bound id binding => exact .aside ih (ClassTable.spares_updateMethod _ id _)

theorem Changes.turns {l l' : Linker} (h : l.Changes l') : l.Turns l' :=
  Relation.ReflTransGen.mono (fun _ _ => .change) _ _ h

/-- One thing an instruction has a machine do to its linker. -/
inductive Consult (l : Linker) : Linker → Prop
  | move {l' : Linker} (h : l.Move l') : Consult l l'
  | linked (id : MethodId) : Consult l (link id l).2
  | bound (id : MethodId) (binding : NativeBinding) :
      Consult l { l with
        classes := l.classes.updateMethod id fun m => { m with body := .native (some binding) } }

abbrev Consults : Linker → Linker → Prop := Relation.ReflTransGen Consult

def Consulting {α : Type} (x : StateM Linker α) : Prop := ∀ l : Linker, l.Consults (x l).2

theorem Moves.consults {l l' : Linker} (h : l.Moves l') : l.Consults l' :=
  Relation.ReflTransGen.mono (fun _ _ => .move) _ _ h

/-- What instructions do to a linker is among what a running machine does to it. -/
theorem Consults.turns {l l' : Linker} (h : l.Consults l') : l.Turns l' := by
  induction h with
  | refl => exact .refl
  | tail _ hconsult ih =>
    cases hconsult with
    | move hmove => exact ih.tail (.change (.move hmove))
    | linked id => exact ih.trans (link_changes id _).turns
    | bound id binding => exact ih.tail (.bound id binding)

theorem Consulting.turning {α : Type} {x : StateM Linker α} (h : Consulting x) : Turning x := fun l =>
  Consults.turns (h l)

theorem consulting_prepare (id : ClassId) : Consulting (prepare id) := fun _ => .single (.move (.prepare id))

theorem consulting_link (id : MethodId) : Consulting (link id) := fun _ => .single (.linked id)

theorem consulting_asks {α : Type} {x : StateM ClassTable α} (hx : ClassTable.Asking x) :
    Consulting (onClasses x) := fun l => Moves.consults (moves_of_asks (hx l.classes))

theorem consulting_bindNative (resolve : String → String → String → Option NativeId) (id : MethodId) :
    Consulting (bindNative resolve id) := by
  intro l
  rw [bindNative, Stateful.state_get]
  cases l.classes.method? id with
  | none => exact .refl
  | some m =>
    have hbind : ∀ binding : NativeBinding, l.Consults ((do
        if binding = .unbound then record .warning m.text "no native implementation registered"
        modify fun l =>
          { l with classes := l.classes.updateMethod id fun m => { m with body := .native (some binding) } }
        return some binding : StateM Linker (Option NativeBinding)) l).2 := by
      intro binding
      dsimp only
      split
      · let logged : Linker :=
          { l with classes := l.classes.record .warning m.text "no native implementation registered" }
        have hlogged : l.Consult logged := .move (.ask (.record _ _ _))
        exact (Relation.ReflTransGen.single hlogged).tail (.bound (l := logged) id binding)
      · exact .single (.bound id binding)
    dsimp only
    cases m.body with
    | bytecode raw linked => exact .refl
    | abstract => exact .refl
    | native binding =>
      cases binding with
      | some binding => exact .refl
      | none => exact hbind _

theorem turning_register (d : ClassDefinition) : Turning (onClasses (ClassTable.register d)) := fun l =>
  (register_changes d l).turns

end Linker

/-- What a class was loaded with, apart from its initializer being taken up, is kept. -/
structure ClassInfo.Unfolds (c c' : ClassInfo) : Prop where
  settles : c.Settles c'
  element : c'.element = c.element
  pendingInit : c'.pendingInit = c.pendingInit
  methods : ∀ (i : Nat) (m' : Method), c'.methods[i]? = some m' →
    ∃ m : Method, c.methods[i]? = some m ∧ m.id = m'.id

namespace ClassInfo.Unfolds

variable {c c' c₁ c₂ c₃ : ClassInfo}

theorem refl (c : ClassInfo) : c.Unfolds c := ⟨.of_skeleton rfl, rfl, rfl, fun _ m hm => ⟨m, hm, rfl⟩⟩

theorem trans (h : c₁.Unfolds c₂) (h' : c₂.Unfolds c₃) : c₁.Unfolds c₃ := by
  refine ⟨h.settles.trans h'.settles, h'.element.trans h.element,
    h'.pendingInit.trans h.pendingInit, fun i m₃ hm₃ => ?_⟩
  obtain ⟨m₂, hm₂, hid₂⟩ := h'.methods i m₃ hm₃
  obtain ⟨m₁, hm₁, hid₁⟩ := h.methods i m₂ hm₂
  exact ⟨m₁, hm₁, hid₁.trans hid₂⟩

theorem of_prepares (h : c.Prepares c') : c.Unfolds c' := by
  refine ⟨h.settles, by rw [h.declared], by rw [h.declared], fun i m' hm' => ?_⟩
  have hrel := h.methods i
  rw [hm'] at hrel
  generalize hm : c.methods[i]? = found at hrel
  cases hrel with
  | @some m _ hlinks =>
    refine ⟨m, rfl, ?_⟩
    cases hlinks <;> rfl

end ClassInfo.Unfolds

namespace ClassTable

/-- One table is the other with more found out, and with more classes. -/
structure Unfolds (t t' : ClassTable) : Prop where
  known : ∀ id c, t.get? id = some c → ∃ c', t'.get? id = some c' ∧ c.Unfolds c'
  added : ∀ id c', t.get? id = none → t'.get? id = some c' →
    (c'.pendingInit = true ↔ c'.element = none) ∧
      ∀ (i : Nat) (m : Method), c'.methods[i]? = some m → m.id = ⟨id, i⟩

variable {t t' t₁ t₂ t₃ : ClassTable}

theorem Unfolds.refl (t : ClassTable) : t.Unfolds t := by
  refine ⟨fun id c hc => ⟨c, hc, .refl c⟩, fun id c' hc hc' => ?_⟩
  rw [hc] at hc'
  cases hc'

theorem Unfolds.trans (h : t₁.Unfolds t₂) (h' : t₂.Unfolds t₃) : t₁.Unfolds t₃ := by
  constructor
  · intro id c hc
    obtain ⟨c₂, hc₂, hu⟩ := h.known id c hc
    obtain ⟨c₃, hc₃, hu'⟩ := h'.known id c₂ hc₂
    exact ⟨c₃, hc₃, hu.trans hu'⟩
  · intro id c₃ hnone hc₃
    cases hc₂ : t₂.get? id with
    | none => exact h'.added id c₃ hc₂ hc₃
    | some c₂ =>
      obtain ⟨hpending, hnumbered⟩ := h.added id c₂ hnone hc₂
      obtain ⟨c₃', hc₃', hu⟩ := h'.known id c₂ hc₂
      cases hc₃.symm.trans hc₃'
      refine ⟨by rw [hu.pendingInit, hu.element]; exact hpending, fun i m hm => ?_⟩
      obtain ⟨m₂, hm₂, hid⟩ := hu.methods i m hm
      rw [← hid]
      exact hnumbered i m₂ hm₂

theorem Unfolds.settles (h : t.Unfolds t') : t.Settles t' := by
  intro id c hc
  obtain ⟨c', hc', hu⟩ := h.known id c hc
  exact ⟨c', hc', hu.settles⟩

theorem Grows.unfolds (h : t.Grows t') : t.Unfolds t' := by
  constructor
  · intro id c hc
    obtain ⟨c', hc', hp⟩ := h.known id c hc
    exact ⟨c', hc', .of_prepares hp⟩
  · intro id c' hc hc'
    have hmade := (h.added id c' hc hc').1
    constructor
    · have harray := hmade.isArray
      rw [hmade.pendingInit]
      refine ⟨fun h => (by cases h), fun he => ?_⟩
      rw [ClassInfo.isArray, he] at harray
      cases harray
    · intro i m hm
      rw [hmade.methods] at hm
      simp at hm

theorem unfolds_loaded {d : ClassDefinition} {fields : List Field} {signatures : List MethodDescriptor}
    {id : ClassId} (h : t.insert d.name (definedInfo d fields signatures) = .ok (id, t')) :
    t.Unfolds t' := by
  obtain ⟨_, _, _, hpush, _⟩ := insert_eq h
  constructor
  · intro id c hc
    refine ⟨c, ?_, .refl c⟩
    rw [get?_push hpush, if_neg, hc]
    rintro rfl
    rw [get?_eq_none_of_size_le (Nat.le_refl _)] at hc
    cases hc
  · intro id c' hc hc'
    rw [get?_push hpush] at hc'
    split at hc'
    · next hid =>
      cases hc'
      refine ⟨⟨fun _ => rfl, fun _ => rfl⟩, fun i m hm => ?_⟩
      simp only [definedInfo, buildMethods, List.getElem?_toArray, List.getElem?_map, List.getElem?_zipIdx,
        Option.map_map, Option.map_eq_some_iff] at hm
      obtain ⟨_, _, rfl⟩ := hm
      simp [hid]
    · rw [hc] at hc'
      cases hc'

theorem unfolds_updateMethod (t : ClassTable) (id : MethodId) {f : Method → Method}
    (hf : ∀ m, (f m).id = m.id) : t.Unfolds (t.updateMethod id f) := by
  constructor
  · intro x c hc
    rw [get?_updateMethod, hc]
    split
    · refine ⟨_, rfl, .of_skeleton rfl, rfl, rfl, fun i m' hi => ?_⟩
      rw [Array.getElem?_modify] at hi
      split at hi
      · obtain ⟨m, hm, rfl⟩ := Option.map_eq_some_iff.1 hi
        exact ⟨m, hm, (hf m).symm⟩
      · exact ⟨m', hi, rfl⟩
    · exact ⟨c, rfl, .refl c⟩
  · intro x c' hc hc'
    rw [get?_updateMethod, hc] at hc'
    simp at hc'

end ClassTable

namespace Linker

variable {l l' : Linker}

theorem Turn.unfolds (h : l.Turn l') : l.classes.Unfolds l'.classes := by
  cases h with
  | change h =>
    cases h with
    | move h => exact h.grows.classes.unfolds
    | loaded h => exact ClassTable.unfolds_loaded h
    | stored id raw result => exact ClassTable.unfolds_updateMethod _ id fun _ => rfl
  | bound id binding => exact ClassTable.unfolds_updateMethod _ id fun _ => rfl

theorem Turns.unfolds (h : l.Turns l') : l.classes.Unfolds l'.classes := by
  induction h with
  | refl => exact .refl _
  | tail _ hturn ih => exact ih.trans hturn.unfolds

end Linker

end ClassMachine
