import ClassMachine.Proofs.Class.Descriptors
import ClassMachine.Proofs.Link.Declarations

/-!
Array classes on demand. A table that has the class an array type is made of can make the class of
arrays, with every class of arrays in between.
-/
namespace ClassMachine

namespace ClassTable

/-- A table in which classes of arrays of a type can be made: what the innermost type names is a
class of the table and no array itself. -/
def Provides (t : ClassTable) : FieldType → Prop
  | .primitive _ => True
  | .object name => ∃ id c, t.get? id = some c ∧ t.lookup? name = some id ∧ c.isArray = false
  | .array component => t.Provides component

theorem insert_of_fresh {t : ClassTable} {name : String} (h : t.lookup? name = none)
    (build : ClassId → ClassInfo) : ∃ t', t.insert name build = .ok (t.size, t') := by
  unfold insert
  rw [if_neg]
  · exact ⟨_, rfl⟩
  · rw [Std.ExtTreeMap.contains_iff_mem, Std.ExtTreeMap.mem_iff_isSome_getElem?]
    show ¬(t.lookup? name).isSome = true
    simp [h]

variable {t t' : ClassTable} {id : ClassId} {component : FieldType}

/-- The class of arrays is found under its name afterwards. -/
theorem lookup?_arrayOfType (h : t.arrayOfType component = .ok (id, t')) :
    t'.lookup? (FieldType.array component).text = some id := by
  unfold arrayOfType at h
  dsimp only at h
  split at h
  · next hl =>
    cases h
    exact hl
  · have hinsert : ∀ {t₁ : ClassTable} {build}, t₁.insert (FieldType.array component).text build = .ok (id, t') →
        t'.lookup? (FieldType.array component).text = some id := by
      intro t₁ build hi
      obtain ⟨rfl, _, _, _, hlookup⟩ := insert_eq hi
      rw [hlookup, if_pos rfl]
    split at h
    · exact hinsert h
    · split at h
      · exact hinsert h
      · cases h
    · split at h
      · exact hinsert h
      · cases h

/-- Making a class of arrays brings no name longer than its own. -/
theorem length_le_of_arrayOfType (h : t.arrayOfType component = .ok (id, t')) {name : String}
    {id' : ClassId} (hl : t'.lookup? name = some id') :
    t.lookup? name = some id' ∨ name.length ≤ (FieldType.array component).text.length := by
  have hinsert : ∀ {t₁ t₂ : ClassTable} {i build} {component : FieldType},
      t₁.insert (FieldType.array component).text build = .ok (i, t₂) → t₂.lookup? name = some id' →
      t₁.lookup? name = some id' ∨ name.length ≤ (FieldType.array component).text.length := by
    intro t₁ t₂ i build component hi hl
    obtain ⟨_, _, _, _, hlookup⟩ := insert_eq hi
    rw [hlookup] at hl
    split at hl
    · next heq => exact .inr (heq ▸ Nat.le_refl _)
    · exact .inl hl
  induction component generalizing id t' with
  | primitive kind =>
    unfold arrayOfType at h
    dsimp only at h
    split at h
    · cases h
      exact .inl hl
    · exact hinsert h hl
  | object element =>
    unfold arrayOfType at h
    dsimp only at h
    split at h
    · cases h
      exact .inl hl
    · split at h
      · exact hinsert h hl
      · cases h
  | array inner ih =>
    unfold arrayOfType at h
    dsimp only at h
    split at h
    · cases h
      exact .inl hl
    · split at h
      · next t₁ h₁ =>
        rcases hinsert h hl with hl₁ | hlength
        · rcases ih h₁ hl₁ with hl₀ | hlength
          · exact .inl hl₀
          · refine .inr (Nat.le_trans hlength ?_)
            simp [FieldType.length_text, FieldType.render]
        · exact .inr hlength
      · cases h

/-- Making the classes inside a class of arrays does not make that class. -/
theorem fresh_arrayOfType (h : t.arrayOfType component = .ok (id, t'))
    (hl : t.lookup? (FieldType.array (.array component)).text = none) :
    t'.lookup? (FieldType.array (.array component)).text = none := by
  cases hl' : t'.lookup? (FieldType.array (.array component)).text with
  | none => rfl
  | some id' =>
    rcases length_le_of_arrayOfType h hl' with hl₀ | hlength
    · rw [hl] at hl₀
      cases hl₀
    · simp only [FieldType.length_text, FieldType.render, List.length_cons] at hlength
      omega

theorem arrayOfType_ok (h : t.Provides component) : ∃ id t', t.arrayOfType component = .ok (id, t') := by
  induction component with
  | primitive kind =>
    unfold arrayOfType
    dsimp only
    split
    · exact ⟨_, _, rfl⟩
    · next hl =>
      obtain ⟨t', ht'⟩ := insert_of_fresh hl _
      exact ⟨_, t', ht'⟩
  | object element =>
    obtain ⟨id, c, _, hlookup, _⟩ := h
    unfold arrayOfType
    dsimp only
    split
    · exact ⟨_, _, rfl⟩
    · next hl =>
      rw [hlookup]
      obtain ⟨t', ht'⟩ := insert_of_fresh hl _
      exact ⟨_, t', ht'⟩
  | array inner ih =>
    obtain ⟨id₁, t₁, h₁⟩ := ih h
    unfold arrayOfType
    dsimp only
    split
    · exact ⟨_, _, rfl⟩
    · next hl =>
      rw [h₁]
      obtain ⟨t', ht'⟩ := insert_of_fresh (fresh_arrayOfType h₁ hl) _
      exact ⟨_, t', ht'⟩

theorem lookup?_arrayClass {name : String} (h : (arrayClass name t).1 = .ok id) :
    (arrayClass name t).2.lookup? name = some id := by
  unfold arrayClass at h ⊢
  cases hl : t.lookup? name with
  | some id' =>
    simp only [hl, Except.ok.injEq] at h ⊢
    exact congrArg some h
  | none =>
    simp only [hl] at h ⊢
    split at h
    · next component hparse =>
      split at h
      · next t' hmade =>
        cases h
        rw [← FieldType.text_of_parse hparse]
        exact lookup?_arrayOfType hmade
      · cases h
    · cases h

theorem arrayOf_eq (element : ElementType) (t : ClassTable) : arrayOf element t =
    match t.arrayName element with
    | .ok name => arrayClass name t
    | .error e => (.error e, t) := by
  show (match t.arrayName element with
    | .ok name => arrayClass name
    | .error e => fun t => (.error e, t) : StateM ClassTable _) t = _
  cases t.arrayName element <;> rfl

theorem lookup?_arrayOf {element : ElementType} (h : (arrayOf element t).1 = .ok id) :
    ∃ name, t.arrayName element = .ok name ∧ (arrayOf element t).2.lookup? name = some id := by
  rw [arrayOf_eq] at h ⊢
  cases hname : t.arrayName element with
  | error e =>
    rw [hname] at h
    cases h
  | ok name =>
    rw [hname] at h
    exact ⟨name, rfl, lookup?_arrayClass h⟩

/-- A class that is found has the name it was asked for by. -/
theorem lookup?_resolveName {name : String} (h : (resolveName name t).1 = some id) :
    (resolveName name t).2.lookup? name = some id := by
  unfold resolveName at h ⊢
  split at h
  · next hbracket =>
    rw [if_pos hbracket]
    change (arrayClass name t).1.toOption = some id at h
    cases hfound : (arrayClass name t).1 with
    | ok id' =>
      rw [hfound] at h
      cases h
      exact lookup?_arrayClass hfound
    | error e =>
      rw [hfound] at h
      cases h
  · next hbracket =>
    rw [if_neg hbracket]
    exact h

/-- A name that is in use, or that of an array type whose classes can be made, is found. -/
theorem resolveName_found {name : String}
    (h : (t.lookup? name).isSome ∨
      ∃ component, FieldType.parse name = .ok (.array component) ∧ t.Provides component) :
    ∃ id, (resolveName name t).1 = some id := by
  have harray : ∃ id, (arrayClass name t).1 = .ok id := by
    unfold arrayClass
    cases hl : t.lookup? name with
    | some id => exact ⟨id, rfl⟩
    | none =>
      rcases h with hsome | ⟨component, hparse, hprovides⟩
      · simp [hl] at hsome
      · obtain ⟨id, t', hmade⟩ := arrayOfType_ok hprovides
        simp only [hparse, hmade]
        exact ⟨id, rfl⟩
  unfold resolveName
  split
  · obtain ⟨id, hid⟩ := harray
    refine ⟨id, ?_⟩
    show (arrayClass name t).1.toOption = some id
    rw [hid]
    rfl
  · next hbracket =>
    rcases h with hsome | ⟨component, hparse, _⟩
    · exact Option.isSome_iff_exists.1 hsome
    · refine absurd ?_ hbracket
      rw [← FieldType.text_of_parse hparse]
      simp [FieldType.text, FieldType.render]

section Spelling

theorem toList_text_array (component : FieldType) :
    (FieldType.array component).text.toList = '[' :: component.render := by
  rw [FieldType.text, String.toList_ofList]
  rfl

theorem head?_text_array (component : FieldType) : (FieldType.array component).text.toList.head? = some '[' := by
  rw [toList_text_array]
  rfl

theorem toList_bracketed (name : String) : (s!"[{name}").toList = '[' :: name.toList := by
  simp [ToString.toString]

theorem toList_lettered (name : String) : (s!"[L{name};").toList = '[' :: 'L' :: (name.toList ++ [';']) := by
  simp [ToString.toString]

theorem descriptorChar_ne_bracket (kind : Kind) : kind.descriptorChar ≠ '[' := by cases kind <;> decide

/-- The name by which arrays of a class are asked for is that of arrays of references. -/
theorem kind_of_className {name : String} {component : FieldType}
    (h : (if name.toList.head? = some '[' then s!"[{name}" else s!"[L{name};") = (FieldType.array component).text) :
    component.kind = .reference := by
  cases component with
  | object name' => rfl
  | array inner => rfl
  | primitive kind =>
    exfalso
    rw [← String.toList_inj, toList_text_array, FieldType.render] at h
    split at h
    · next hhead =>
      rw [toList_bracketed, List.cons.injEq] at h
      rw [h.2] at hhead
      exact descriptorChar_ne_bracket kind (Option.some.inj hhead)
    · rw [toList_lettered] at h
      simp at h

/-- The name by which arrays of a primitive type are asked for tells the type. -/
theorem kind_of_arrayName {kind : Kind} {name : String} {component : FieldType}
    (hname : t.arrayName (.primitive kind) = .ok name) (h : name = (FieldType.array component).text) :
    component.kind = kind := by
  have htext : name = (FieldType.array (.primitive kind)).text := by
    cases kind <;> cases hname <;> rfl
  rw [htext, ← String.toList_inj, toList_text_array, toList_text_array, List.cons.injEq] at h
  cases component with
  | primitive kind' =>
    have hchar : kind'.descriptorChar = kind.descriptorChar := by simpa [FieldType.render] using h.2.symm
    have hsame := Kind.ofDescriptorChar?_descriptorChar kind'
    rw [hchar, Kind.ofDescriptorChar?_descriptorChar] at hsame
    exact (Option.some.inj hsame).symm
  | object name' => simp [FieldType.render] at h
  | array inner =>
    exfalso
    simp only [FieldType.render, List.cons.injEq] at h
    exact descriptorChar_ne_bracket kind h.2.1

end Spelling

end ClassTable

end ClassMachine
