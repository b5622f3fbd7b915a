import ClassMachine.Proofs.Link.Subtypes

/-!
Class tables as registrations and questions leave them, in any order. Names and links lead to classes that
are there, and an array class comes after the class of its elements, so taking elements of elements comes
to an end. Questions look links up and make array classes; of a class that is there they change nothing
but which of its links were looked up.
-/
namespace ClassMachine.ClassTable
open Stateful

section Looking

variable {t : ClassTable}

theorem concurs_allInterfaces (ids : List ClassId) (t : ClassTable) : t.Concurs (allInterfaces ids t).2 := by
  induction ids generalizing t with
  | nil => exact .refl t
  | cons id ids ih => exact (concurs_interfaces id t).trans (ih _)

theorem concurs_searchInterfaces (name descriptor : String) (fuel : Nat) (seen pending : List ClassId)
    (t : ClassTable) : t.Concurs (searchInterfaces name descriptor fuel seen pending t).2 := by
  induction fuel generalizing seen pending t with
  | zero => exact .refl t
  | succ fuel ih =>
    rw [searchInterfaces]
    cases pending.dropWhile seen.contains with
    | nil => exact .refl t
    | cons interface rest =>
      dsimp only
      rw [state_get]
      cases t.declaredMethod? name descriptor interface with
      | some method => exact .refl t
      | none => exact (concurs_interfaces interface t).trans (ih _ _ _)

/-- To ask for a method is to look links up. -/
theorem concurs_resolveMethod (id : ClassId) (name descriptor : String) (t : ClassTable) :
    t.Concurs (resolveMethod id name descriptor t).2 := by
  have hchain := concurs_ancestry id t
  rw [resolveMethod, state_bind, state_get]
  cases (ancestry id t).1.findSome? ((ancestry id t).2.declaredMethod? name descriptor) with
  | some method => exact hchain
  | none =>
    have hlisted := hchain.trans (concurs_allInterfaces (ancestry id t).1 (ancestry id t).2)
    dsimp only
    rw [state_bind, state_get, state_bind]
    generalize allInterfaces (ancestry id t).1 (ancestry id t).2 = r at hlisted ⊢
    obtain ⟨pending, t₁⟩ := r
    dsimp only at hlisted ⊢
    have hfound := hlisted.trans (concurs_searchInterfaces name descriptor (t₁.size + 1) [] pending.reverse t₁)
    generalize searchInterfaces name descriptor (t₁.size + 1) [] pending.reverse t₁ = r at hfound ⊢
    obtain ⟨found, t₂⟩ := r
    cases found <;> exact hfound

theorem concurs_resolveField (id : ClassId) (name descriptor : String) (t : ClassTable) :
    t.Concurs (resolveField id name descriptor t).2 := by
  rw [resolveField_table]
  exact concurs_ancestry id t

end Looking

/-- Names and links lead to classes that are there, elements to classes that came before. -/
structure Tiered (t : ClassTable) : Prop where
  moored : t.Moored
  lower : ∀ x c a, t.get? x = some c → c.element = some (.reference a) → a < x

section Tiers

variable {t t' : ClassTable}

theorem tiered_empty : ({} : ClassTable).Tiered :=
  ⟨moored_empty, fun _ _ _ hc => by cases hc⟩

theorem Concurs.tiered (h : t.Concurs t') (ht : t.Tiered) : t'.Tiered := by
  refine ⟨h.retains.moored ht.moored, fun x c' a hc' ha => ?_⟩
  have hx := h.classes x
  rw [hc'] at hx
  generalize hc : t.get? x = found at hx
  cases hx with
  | some hlooks => exact ht.lower x _ a hc (hlooks.element.symm.trans ha)

/-- A class that is added has no elements, or elements that are there. -/
theorem Tiered.push {c : ClassInfo} (ht : t.Tiered) (hr : t.Retains t')
    (h : t'.classes = t.classes.push c) (hc : ∀ a, c.element = some (.reference a) → a < t.size) : t'.Tiered := by
  refine ⟨hr.moored ht.moored, fun x c' a hc' ha => ?_⟩
  rw [get?_push h] at hc'
  split at hc'
  · next heq =>
    cases hc'
    exact heq ▸ hc a ha
  · exact ht.lower x c' a hc' ha

theorem lt_size {x : ClassId} (h : ∃ c, t.get? x = some c) : x < t.size := by
  obtain ⟨c, hc⟩ := h
  exact (Array.getElem?_eq_some_iff.1 hc).1

/-- The class of arrays of a class that is there. -/
theorem Tiered.insert {component : FieldType} {element : ElementType} {id : ClassId} (ht : t.Tiered)
    (h : t.insert (FieldType.array component).text (t.arrayInfo (FieldType.array component).text element) =
      .ok (id, t')) (hkind : element.kind = component.kind)
    (helement : ∀ a, element = .reference a → ∃ c, t.get? a = some c) :
    t'.Tiered ∧ ∃ c, t'.get? id = some c := by
  obtain ⟨rfl, _, _, hclasses, _⟩ := insert_eq h
  refine ⟨ht.push (Ask.retains (.array h hkind)) hclasses fun a ha => lt_size (helement a (Option.some.inj ha)), ?_⟩
  exact ⟨_, by rw [get?_push hclasses, if_pos rfl]⟩

theorem Tiered.arrayOfType {component : FieldType} {id : ClassId} (ht : t.Tiered)
    (h : t.arrayOfType component = .ok (id, t')) : t'.Tiered ∧ ∃ c, t'.get? id = some c := by
  induction component generalizing id t' with
  | primitive kind =>
    unfold ClassTable.arrayOfType at h
    dsimp only at h
    split at h
    · next hl =>
      cases h
      exact ⟨ht, ht.moored.named _ _ hl⟩
    · exact ht.insert h rfl fun a ha => by cases ha
  | object element =>
    unfold ClassTable.arrayOfType at h
    dsimp only at h
    split at h
    · next hl =>
      cases h
      exact ⟨ht, ht.moored.named _ _ hl⟩
    · split at h
      · next hl =>
        refine ht.insert h rfl fun a ha => ?_
        cases ha
        exact ht.moored.named _ _ hl
      · cases h
  | array inner ih =>
    unfold ClassTable.arrayOfType at h
    dsimp only at h
    split at h
    · next hl =>
      cases h
      exact ⟨ht, ht.moored.named _ _ hl⟩
    · split at h
      · next hinner =>
        obtain ⟨hmade, hknown⟩ := ih hinner
        refine hmade.insert h rfl fun a ha => ?_
        cases ha
        exact hknown
      · cases h

theorem Tiered.arrayClass (ht : t.Tiered) (name : String) : (arrayClass name t).2.Tiered := by
  unfold ClassTable.arrayClass
  split
  · exact ht
  · split
    · split
      · next h => exact (ht.arrayOfType h).1
      · exact ht
    · exact ht

theorem register_retains (d : ClassDefinition) (t : ClassTable) : t.Retains (register d t).2 :=
  (Linker.Changes.turns (Linker.register_changes d { classes := t })).retains

theorem Tiered.register (ht : t.Tiered) (d : ClassDefinition) : (register d t).2.Tiered := by
  have hretains := register_retains d t
  unfold ClassTable.register at hretains ⊢
  cases hload : t.load d with
  | ok p =>
    obtain ⟨id, t'⟩ := p
    rw [hload] at hretains
    obtain ⟨_, _, c, _, harray, _, _, hclasses, _⟩ := load_eq hload
    refine ht.push hretains hclasses fun a ha => ?_
    rw [ClassInfo.isArray, ha] at harray
    cases harray
  | error e => exact (concurs_record t _ _ _).tiered ht

end Tiers

/-- What is asked of a class table. -/
inductive Request where
  | register (d : ClassDefinition)
  | arrayClass (name : String)
  | arrayOf (element : ElementType)
  | superclass (id : ClassId)
  | interfaces (id : ClassId)
  | ancestry (id : ClassId)
  | isSubclass (sub sup : ClassId)
  | resolveMethod (id : ClassId) (name descriptor : String)
  | resolveField (id : ClassId) (name descriptor : String)

def Request.run : Request → ClassTable → ClassTable
  | register d, t => (ClassTable.register d t).2
  | arrayClass name, t => (ClassTable.arrayClass name t).2
  | arrayOf element, t => (ClassTable.arrayOf element t).2
  | superclass id, t => (ClassTable.superclass id t).2
  | interfaces id, t => (ClassTable.interfaces id t).2
  | ancestry id, t => (ClassTable.ancestry id t).2
  | isSubclass sub sup, t => (ClassTable.isSubclass sub sup t).2
  | resolveMethod id name descriptor, t => (ClassTable.resolveMethod id name descriptor t).2
  | resolveField id name descriptor, t => (ClassTable.resolveField id name descriptor t).2

/-- Requests that lead from one table to another. -/
abbrev Leads : ClassTable → ClassTable → Prop := Relation.ReflTransGen fun t t' => ∃ r : Request, r.run t = t'

/-- Tables that come about from the empty one. -/
def Reached (t : ClassTable) : Prop := Leads {} t

section Requests

variable {t t' : ClassTable}

theorem leads_foldl (requests : List Request) (t : ClassTable) :
    t.Leads (requests.foldl (fun t r => r.run t) t) := by
  induction requests generalizing t with
  | nil => exact .refl
  | cons r requests ih => exact .head ⟨r, rfl⟩ (ih (r.run t))

theorem Request.retains (r : Request) (t : ClassTable) : t.Retains (r.run t) := by
  cases r with
  | register d => exact register_retains d t
  | arrayClass name => exact Asks.retains (arrayClass_asks name t)
  | arrayOf element => exact Asks.retains (arrayOf_asks element t)
  | superclass id => exact (concurs_superclass id t).retains
  | interfaces id => exact (concurs_interfaces id t).retains
  | ancestry id => exact (concurs_ancestry id t).retains
  | isSubclass sub sup => exact (concurs_isSubclass sub sup t).retains
  | resolveMethod id name descriptor => exact (concurs_resolveMethod id name descriptor t).retains
  | resolveField id name descriptor => exact (concurs_resolveField id name descriptor t).retains

theorem Request.tiered (r : Request) (ht : t.Tiered) : (r.run t).Tiered := by
  cases r with
  | register d => exact ht.register d
  | arrayClass name => exact ht.arrayClass name
  | arrayOf element =>
    show (ClassTable.arrayOf element t).2.Tiered
    rw [ClassTable.arrayOf, state_get]
    cases t.arrayName element with
    | ok name => exact ht.arrayClass name
    | error e => exact ht
  | superclass id => exact (concurs_superclass id t).tiered ht
  | interfaces id => exact (concurs_interfaces id t).tiered ht
  | ancestry id => exact (concurs_ancestry id t).tiered ht
  | isSubclass sub sup => exact (concurs_isSubclass sub sup t).tiered ht
  | resolveMethod id name descriptor => exact (concurs_resolveMethod id name descriptor t).tiered ht
  | resolveField id name descriptor => exact (concurs_resolveField id name descriptor t).tiered ht

theorem Leads.retains (h : t.Leads t') : t.Retains t' := by
  induction h with
  | refl => exact .refl t
  | tail _ hstep ih =>
    obtain ⟨r, rfl⟩ := hstep
    exact ih.trans (r.retains _)

theorem Reached.tiered (h : t.Reached) : t.Tiered := by
  induction h with
  | refl => exact tiered_empty
  | tail _ hstep ih =>
    obtain ⟨r, rfl⟩ := hstep
    exact r.tiered ih

end Requests

end ClassMachine.ClassTable
