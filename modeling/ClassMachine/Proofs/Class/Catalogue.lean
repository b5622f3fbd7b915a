import ClassMachine.Proofs.Link.Arrays
import ClassMachine.Proofs.Link.Loading

/-!
The class table as a catalogue. Classes are numbered without gaps and found under their names and no others,
whatever is loaded and whichever array classes are asked for; a refusal leaves both the numbers and the
names alone. An array class spells the class of its elements in its own name and comes after it. A class is
the class of arrays of its elements, unless its name spells an array class as if it was the name of a class
that is none: of those elements there is another class of arrays.
-/
namespace ClassMachine.ClassTable
open Stateful

/-- Names of classes that are not arrays. -/
structure PlainName (name : String) : Prop where
  nonempty : name ≠ ""
  unbracketed : name.toList.head? ≠ some '['
  unended : ';' ∉ name.toList

/-- What the elements of arrays of a type are: a primitive kind, or the class that the type names. -/
def Denotes (t : ClassTable) (component : FieldType) : ElementType → Prop
  | .primitive kind => component = .primitive kind
  | .reference id => ∃ c, t.get? id = some c ∧ component.className? = some c.name

/-- A class has elements if its name is that of an array type, and then those of that type, which were there
before it. -/
def Spells (t : ClassTable) (c : ClassInfo) : Prop :=
  match c.element with
  | none => PlainName c.name
  | some e => ∃ component, FieldType.parse c.name = .ok (.array component) ∧ t.Denotes component e ∧
      ∀ a, e = .reference a → a < c.id

structure Catalogued (t : ClassTable) : Prop where
  regular : t.Regular
  spelled : ∀ id c, t.get? id = some c → t.Spells c

/-- No class of the first table is another one, or nothing, in the second. -/
def Stays (t t' : ClassTable) : Prop := ∀ id c, t.get? id = some c → t'.get? id = some c

/-- The class of arrays of a type. -/
def HasArray (t : ClassTable) (component : FieldType) (id : ClassId) : Prop :=
  ∃ c e, t.get? id = some c ∧ c.name = (FieldType.array component).text ∧ c.element = some e ∧
    t.Denotes component e

section Appending

variable {t t' : ClassTable} {component : FieldType} {id : ClassId}

theorem Stays.trans {t₁ t₂ t₃ : ClassTable} (h : t₁.Stays t₂) (h' : t₂.Stays t₃) : t₁.Stays t₃ :=
  fun id c hc => h' id c (h id c hc)

theorem stays_push {c : ClassInfo} (h : t'.classes = t.classes.push c) : t.Stays t' := by
  intro id c' hc'
  rw [get?_push h, if_neg, hc']
  rintro rfl
  rw [get?_eq_none_of_size_le (Nat.le_refl _)] at hc'
  cases hc'

theorem Denotes.stays {e : ElementType} (h : t.Denotes component e) (hs : t.Stays t') : t'.Denotes component e := by
  cases e with
  | primitive kind => exact h
  | reference a =>
    obtain ⟨c, hc, hname⟩ := h
    exact ⟨c, hs a c hc, hname⟩

theorem Spells.stays {c : ClassInfo} (h : t.Spells c) (hs : t.Stays t') : t'.Spells c := by
  unfold Spells at h ⊢
  split at h
  · exact h
  · obtain ⟨component, hparse, hdenotes, hlower⟩ := h
    exact ⟨component, hparse, hdenotes.stays hs, hlower⟩

theorem catalogued_empty : ({} : ClassTable).Catalogued := ⟨regular_empty, fun _ _ hc => by cases hc⟩

theorem Catalogued.push {c : ClassInfo} (ht : t.Catalogued) (hregular : t'.Regular)
    (h : t'.classes = t.classes.push c) (hc : t.Spells c) : t'.Catalogued := by
  refine ⟨hregular, fun id c' hc' => ?_⟩
  rw [get?_push h] at hc'
  split at hc'
  · cases hc'
    exact hc.stays (stays_push h)
  · exact (ht.spelled id c' hc').stays (stays_push h)

/-- The index by names is the inverse of the list of classes. -/
theorem Catalogued.lookup?_iff (ht : t.Catalogued) (name : String) (id : ClassId) :
    t.lookup? name = some id ↔ ∃ c, t.get? id = some c ∧ c.name = name := by
  refine ⟨ht.regular.named name id, ?_⟩
  rintro ⟨c, hc, rfl⟩
  exact ht.regular.lookup? hc

theorem Denotes.lt_size {a : ClassId} (h : t.Denotes component (.reference a)) : a < t.size := by
  obtain ⟨c, hc, _⟩ := h
  exact (Array.getElem?_eq_some_iff.1 hc).1

theorem spellable_of_parse_array {name : String} (h : FieldType.parse name = .ok (.array component)) :
    component.Spellable := (FieldType.spellable_of_parse h : (FieldType.array component).Spellable)

/-- A class that is found under the name of an array type is the class of those arrays. -/
theorem Catalogued.hasArray (ht : t.Catalogued) (hspell : component.Spellable)
    (hl : t.lookup? (FieldType.array component).text = some id) : t.HasArray component id := by
  obtain ⟨c, hc, hname⟩ := ht.regular.named _ id hl
  have hspelled := ht.spelled id c hc
  unfold Spells at hspelled
  split at hspelled
  · exact absurd (hname ▸ head?_text_array component) hspelled.unbracketed
  · next e he =>
    obtain ⟨component', hparse, hdenotes, _⟩ := hspelled
    have hspell : (FieldType.array component).Spellable := hspell
    rw [hname, FieldType.parse_text hspell] at hparse
    cases hparse
    exact ⟨c, e, hc, hname, he, hdenotes⟩

theorem Catalogued.insert (ht : t.Catalogued) (hspell : component.Spellable) {element : ElementType}
    (h : t.insert (FieldType.array component).text (t.arrayInfo (FieldType.array component).text element) =
      .ok (id, t'))
    (hdenotes : t.Denotes component element) : t'.Catalogued ∧ t.Stays t' ∧ t'.HasArray component id := by
  have hregular := ht.regular.grows (grows_insert h (arrayInfo_made t _ _))
  obtain ⟨rfl, _, _, hclasses, _⟩ := insert_eq h
  have hstays := stays_push hclasses
  refine ⟨ht.push hregular hclasses ⟨component, FieldType.parse_text (t := .array component) hspell, hdenotes, ?_⟩,
    hstays, ?_⟩
  · rintro a rfl
    exact hdenotes.lt_size
  · exact ⟨_, element, by rw [get?_push hclasses, if_pos rfl], rfl, rfl, hdenotes.stays hstays⟩

/-- Array classes are made inside out, each as the catalogue wants it. -/
theorem Catalogued.arrayOfType (ht : t.Catalogued) (hspell : component.Spellable)
    (h : t.arrayOfType component = .ok (id, t')) : t'.Catalogued ∧ t.Stays t' ∧ t'.HasArray component id := by
  have hfound : ∀ {component : FieldType} {id : ClassId}, component.Spellable →
      t.lookup? (FieldType.array component).text = some id →
      t.Catalogued ∧ t.Stays t ∧ t.HasArray component id :=
    fun hspell hl => ⟨ht, fun _ _ hc => hc, ht.hasArray hspell hl⟩
  induction component generalizing id t' with
  | primitive kind =>
    unfold ClassTable.arrayOfType at h
    dsimp only at h
    split at h
    · next hl =>
      cases h
      exact hfound hspell hl
    · exact ht.insert hspell h rfl
  | object element =>
    unfold ClassTable.arrayOfType at h
    dsimp only at h
    split at h
    · next hl =>
      cases h
      exact hfound hspell hl
    · split at h
      · next a hl =>
        obtain ⟨c, hc, rfl⟩ := ht.regular.named _ a hl
        exact ht.insert hspell h ⟨c, hc, rfl⟩
      · cases h
  | array inner ih =>
    unfold ClassTable.arrayOfType at h
    dsimp only at h
    split at h
    · next hl =>
      cases h
      exact hfound hspell hl
    · split at h
      · next a t₁ hinner =>
        obtain ⟨hmade, hstays, c, _, hc, hname, _, _⟩ := ih hspell hinner
        obtain ⟨hlast, hstays', harray⟩ := hmade.insert hspell h ⟨c, hc, congrArg some hname.symm⟩
        exact ⟨hlast, hstays.trans hstays', harray⟩
      · cases h

end Appending

/-- What brings classes into a table. -/
inductive Admission where
  | register (d : ClassDefinition)
  | arrayClass (name : String)
  | arrayOf (element : ElementType)

namespace Admission

def run : Admission → StateM ClassTable (Except ClassError ClassId)
  | register d => ClassTable.register d
  | arrayClass name => ClassTable.arrayClass name
  | arrayOf element => ClassTable.arrayOf element

/-- Classes that are loaded have plain names. -/
def Proper : Admission → Prop
  | register d => PlainName d.name
  | arrayClass _ | arrayOf _ => True

def runAll (admissions : List Admission) (t : ClassTable) : ClassTable :=
  admissions.foldl (fun t a => (a.run t).2) t

end Admission

section Admitting

variable {t t' : ClassTable} {id : ClassId}

/-- The class that is asked for by name. -/
theorem Catalogued.arrayClass (ht : t.Catalogued) (name : String) :
    (ClassTable.arrayClass name t).2.Catalogued ∧ t.Stays (ClassTable.arrayClass name t).2 := by
  unfold ClassTable.arrayClass
  split
  · exact ⟨ht, fun _ _ hc => hc⟩
  · split
    · next component hparse =>
      split
      · next hmade =>
        have hspell : component.Spellable := spellable_of_parse_array hparse
        obtain ⟨hcatalogued, hstays, _⟩ := ht.arrayOfType hspell hmade
        exact ⟨hcatalogued, hstays⟩
      · exact ⟨ht, fun _ _ hc => hc⟩
    · exact ⟨ht, fun _ _ hc => hc⟩

theorem Catalogued.load {d : ClassDefinition} (ht : t.Catalogued) (hname : PlainName d.name)
    (h : t.load d = .ok (id, t')) : t'.Catalogued ∧ t.Stays t' := by
  have hregular := ht.regular.load h
  obtain ⟨rfl, _, c, hdeclared, harray, _, _, hclasses, _⟩ := load_eq h
  have hplain : c.element = none := by simpa [ClassInfo.isArray] using harray
  have hcname : c.name = d.name := congrArg ClassDefinition.name hdeclared
  have hspells : t.Spells c := by
    unfold Spells
    rw [hplain]
    exact (hcname ▸ hname : PlainName c.name)
  exact ⟨ht.push hregular hclasses hspells, stays_push hclasses⟩

/-- One admission. -/
theorem Catalogued.admission (ht : t.Catalogued) {a : Admission} (ha : a.Proper) :
    (a.run t).2.Catalogued ∧ t.Stays (a.run t).2 := by
  cases a with
  | register d =>
    show (ClassTable.register d t).2.Catalogued ∧ t.Stays (ClassTable.register d t).2
    unfold ClassTable.register
    cases hload : t.load d with
    | ok p => exact ht.load ha hload
    | error e =>
      exact ⟨⟨ht.regular.grows (grows_record t _ _ _), ht.spelled⟩, fun _ _ hc => hc⟩
  | arrayClass name => exact ht.arrayClass name
  | arrayOf element =>
    show (ClassTable.arrayOf element t).2.Catalogued ∧ t.Stays (ClassTable.arrayOf element t).2
    rw [arrayOf_eq]
    cases t.arrayName element with
    | ok name => exact ht.arrayClass name
    | error e => exact ⟨ht, fun _ _ hc => hc⟩

theorem Catalogued.runAll (ht : t.Catalogued) {admissions : List Admission} (h : ∀ a ∈ admissions, a.Proper) :
    (Admission.runAll admissions t).Catalogued ∧ t.Stays (Admission.runAll admissions t) := by
  induction admissions generalizing t with
  | nil => exact ⟨ht, fun _ _ hc => hc⟩
  | cons a admissions ih =>
    obtain ⟨hcatalogued, hstays⟩ := ht.admission (h a (by simp))
    obtain ⟨hlast, hstays'⟩ := ih hcatalogued fun a ha => h a (by simp [ha])
    exact ⟨hlast, hstays.trans hstays'⟩

/-- An admission that is refused changes neither classes nor names. -/
theorem refused_admission {a : Admission} {e : ClassError} (h : (a.run t).1 = .error e) :
    (a.run t).2.classes = t.classes ∧ (a.run t).2.byName = t.byName := by
  have harray : ∀ name, (ClassTable.arrayClass name t).1 = .error e →
      (ClassTable.arrayClass name t).2 = t := by
    intro name h
    unfold ClassTable.arrayClass at h ⊢
    split at h
    · cases h
    · split at h
      · split at h
        · cases h
        · rfl
      · rfl
  cases a with
  | register d =>
    change (ClassTable.register d t).1 = .error e at h
    show (ClassTable.register d t).2.classes = t.classes ∧ (ClassTable.register d t).2.byName = t.byName
    unfold ClassTable.register at h ⊢
    cases hload : t.load d with
    | ok p =>
      rw [hload] at h
      cases h
    | error e => exact ⟨rfl, rfl⟩
  | arrayClass name =>
    have hsame := harray name h
    exact ⟨congrArg ClassTable.classes hsame, congrArg ClassTable.byName hsame⟩
  | arrayOf element =>
    change (ClassTable.arrayOf element t).1 = .error e at h
    show (ClassTable.arrayOf element t).2.classes = t.classes ∧ (ClassTable.arrayOf element t).2.byName = t.byName
    rw [arrayOf_eq] at h ⊢
    cases hname : t.arrayName element with
    | error e => exact ⟨rfl, rfl⟩
    | ok name =>
      rw [hname] at h
      have hsame := harray name h
      exact ⟨congrArg ClassTable.classes hsame, congrArg ClassTable.byName hsame⟩

end Admitting

section InTurn

/-- Adds a class of arrays to a table. -/
def addArray (name : String) (element : ElementType) : StateM ClassTable (Except ClassError ClassId) := fun t =>
  match t.insert name (t.arrayInfo name element) with
  | .ok (id, t') => (.ok id, t')
  | .error e => (.error e, t)

/-- Makes the classes of arrays one by one, the innermost first. What was made stays in the table even if the
class around it is refused. -/
def arraysInTurn (component : FieldType) : StateM ClassTable (Except ClassError ClassId) := fun t =>
  let name := (FieldType.array component).text
  match t.lookup? name with
  | some id => (.ok id, t)
  | none =>
    match component with
    | .primitive kind => addArray name (.primitive kind) t
    | .object element =>
      match t.lookup? element with
      | some id => addArray name (.reference id) t
      | none => (.error (.noSuchClass element), t)
    | .array inner =>
      match arraysInTurn inner t with
      | (.ok id, t') => addArray name (.reference id) t'
      | (.error e, t') => (.error e, t')

/-- The array class of a name, made with all it needs in turn. -/
def arrayClassInTurn (name : String) : StateM ClassTable (Except ClassError ClassId) := fun t =>
  match t.lookup? name with
  | some id => (.ok id, t)
  | none =>
    match FieldType.parse name with
    | .ok (.array component) => arraysInTurn component t
    | _ => (.error (.notAnArray name), t)

/-- A class whose name is not there yet is not refused. -/
theorem addArray_of_fresh {t : ClassTable} {name : String} (hl : t.lookup? name = none) (element : ElementType)
    (before : ClassTable) : addArray name element t = match t.insert name (t.arrayInfo name element) with
      | .ok (id, t') => (.ok id, t')
      | .error e => (.error e, before) := by
  obtain ⟨t', hmade⟩ := insert_of_fresh hl (t.arrayInfo name element)
  unfold addArray
  rw [hmade]

/-- Only the innermost step can be refused, and before anything is made. -/
theorem arraysInTurn_eq (component : FieldType) (t : ClassTable) : arraysInTurn component t =
    match t.arrayOfType component with
    | .ok (id, t') => (.ok id, t')
    | .error e => (.error e, t) := by
  induction component with
  | primitive kind =>
    unfold arraysInTurn arrayOfType
    dsimp only
    cases hl : t.lookup? (FieldType.array (.primitive kind)).text with
    | some id => rfl
    | none => exact addArray_of_fresh hl _ t
  | object element =>
    unfold arraysInTurn arrayOfType
    dsimp only
    cases hl : t.lookup? (FieldType.array (.object element)).text with
    | some id => rfl
    | none =>
      dsimp only
      cases t.lookup? element with
      | none => rfl
      | some a => exact addArray_of_fresh hl _ t
  | array inner ih =>
    unfold arraysInTurn arrayOfType
    dsimp only
    cases hl : t.lookup? (FieldType.array (.array inner)).text with
    | some id => rfl
    | none =>
      dsimp only
      rw [ih]
      cases hinner : t.arrayOfType inner with
      | error e => rfl
      | ok p =>
        obtain ⟨a, t₁⟩ := p
        exact addArray_of_fresh (fresh_arrayOfType hinner hl) _ t

theorem arrayClassInTurn_eq (name : String) (t : ClassTable) : arrayClassInTurn name t = arrayClass name t := by
  unfold arrayClassInTurn arrayClass
  cases t.lookup? name with
  | some id => rfl
  | none =>
    cases FieldType.parse name with
    | error e => rfl
    | ok type =>
      cases type with
      | array component => exact arraysInTurn_eq component t
      | primitive kind => rfl
      | object element => rfl

end InTurn

/-- Names of array types that spell an array class as if it was a class that is none. -/
def SpellsArrayAsClass (name : String) : Prop := ['[', 'L', '['] <+: name.toList

instance (name : String) : Decidable (SpellsArrayAsClass name) :=
  inferInstanceAs (Decidable (['[', 'L', '['] <+: name.toList))

section Elements

variable {t : ClassTable} {id : ClassId} {c : ClassInfo} {e : ElementType}

theorem Catalogued.isArray_iff (ht : t.Catalogued) (hc : t.get? id = some c) :
    c.isArray = true ↔ c.name.toList.head? = some '[' := by
  have hspelled := ht.spelled id c hc
  unfold Spells at hspelled
  unfold ClassInfo.isArray
  split at hspelled
  · next hnone =>
    rw [hnone]
    exact ⟨nofun, fun h => absurd h hspelled.unbracketed⟩
  · next e he =>
    obtain ⟨component, hparse, _⟩ := hspelled
    rw [he, ← FieldType.text_of_parse hparse]
    exact ⟨fun _ => head?_text_array component, fun _ => rfl⟩

/-- The name made for arrays of a class is that of arrays of the type that spells the class, unless the type
spells an array class as one that is none. -/
theorem arrayText_iff {component : FieldType} {name : String} {bracketed : Bool} (hspell : component.Spellable)
    (hclass : component.className? = some name) (hhead : bracketed = true ↔ name.toList.head? = some '[') :
    (if bracketed then s!"[{name}" else s!"[L{name};") = (FieldType.array component).text ↔
      ¬ SpellsArrayAsClass (FieldType.array component).text := by
  unfold SpellsArrayAsClass
  rw [← String.toList_inj, toList_text_array]
  cases component with
  | primitive kind => cases hclass
  | object name' =>
    obtain rfl : name' = name := Option.some.inj hclass
    obtain ⟨first, rest, hchars⟩ : ∃ first rest, name'.toList = first :: rest :=
      List.exists_cons_of_ne_nil fun hempty => hspell.1 (by simpa using hempty)
    rw [hchars] at hhead
    cases bracketed with
    | true =>
      obtain rfl : first = '[' := by simpa using hhead
      rw [if_pos rfl, toList_bracketed, hchars]
      simp [FieldType.render, hchars]
    | false =>
      have hfirst : '[' ≠ first := by simpa [eq_comm] using hhead
      rw [if_neg Bool.false_ne_true, toList_lettered, hchars]
      simp [FieldType.render, hchars, hfirst]
  | array inner =>
    obtain rfl : (FieldType.array inner).text = name := Option.some.inj hclass
    rw [if_pos (hhead.2 (head?_text_array inner)), toList_bracketed, toList_text_array]
    simp [FieldType.render]

/-- The class of arrays is asked for by the name it has, if that spells its elements as what they are. -/
theorem Catalogued.arrayName_element (ht : t.Catalogued) (hc : t.get? id = some c) (he : c.element = some e) :
    ∃ name, t.arrayName e = .ok name ∧ (name = c.name ↔ ¬ SpellsArrayAsClass c.name) := by
  have hspelled := ht.spelled id c hc
  unfold Spells at hspelled
  rw [he] at hspelled
  obtain ⟨component, hparse, hdenotes, -⟩ := hspelled
  have hspell : component.Spellable := spellable_of_parse_array hparse
  rw [← FieldType.text_of_parse hparse]
  cases e with
  | primitive kind =>
    obtain rfl : component = .primitive kind := hdenotes
    refine ⟨(FieldType.array (.primitive kind)).text, ?_, ?_⟩
    · cases kind <;> first | rfl | exact absurd rfl hspell
    · unfold SpellsArrayAsClass
      rw [toList_text_array]
      simp [FieldType.render]
  | reference a =>
    obtain ⟨c', hc', hclass⟩ := hdenotes
    unfold arrayName
    dsimp only
    rw [hc']
    exact ⟨_, rfl, arrayText_iff hspell hclass (ht.isArray_iff hc')⟩

/-- Arrays of the elements of an array class are of that class, or of one that spells the elements as arrays. -/
theorem Catalogued.arrayOf_element (ht : t.Catalogued) (hc : t.get? id = some c) (he : c.element = some e) :
    ((ClassTable.arrayOf e t).1 = .ok id ↔ ¬ SpellsArrayAsClass c.name) ∧
      (¬ SpellsArrayAsClass c.name → ClassTable.arrayOf e t = (.ok id, t)) := by
  obtain ⟨name, hname, hspells⟩ := ht.arrayName_element hc he
  have hrun : ClassTable.arrayOf e t = ClassTable.arrayClass name t := by rw [arrayOf_eq, hname]
  have hsame : ¬ SpellsArrayAsClass c.name → ClassTable.arrayOf e t = (.ok id, t) := by
    intro hplain
    rw [hrun, hspells.2 hplain, ClassTable.arrayClass, ht.regular.lookup? hc]
  refine ⟨⟨fun hmade => hspells.1 ?_, fun hplain => by rw [hsame hplain]⟩, hsame⟩
  rw [hrun] at hmade
  obtain ⟨hcatalogued, hstays⟩ := ht.arrayClass name
  obtain ⟨c', hc', hname'⟩ := hcatalogued.regular.named _ id (lookup?_arrayClass hmade)
  cases hc'.symm.trans (hstays id c hc)
  exact hname'.symm

/-- What an array type holds is fixed by the names in the table. -/
theorem Denotes.unique {component : FieldType} {e' : ElementType} (h : t.Denotes component e)
    (h' : t.Denotes component e') (ht : t.Regular) : e = e' := by
  cases e with
  | primitive kind =>
    obtain rfl : component = .primitive kind := h
    cases e' with
    | primitive kind' => exact congrArg ElementType.primitive (FieldType.primitive.inj h')
    | reference a =>
      obtain ⟨_, _, hname⟩ := h'
      cases hname
  | reference a =>
    obtain ⟨c, hc, hname⟩ := h
    cases e' with
    | primitive kind =>
      obtain rfl : component = .primitive kind := h'
      cases hname
    | reference a' =>
      obtain ⟨c', hc', hname'⟩ := h'
      exact congrArg ElementType.reference
        (ht.eq_of_name hc' hc (Option.some.inj (hname.symm.trans hname')))

/-- The class that is given for a name has that name and the elements it spells, and is given again. -/
theorem Catalogued.arrayClass_named (ht : t.Catalogued) {name : String}
    (h : (ClassTable.arrayClass name t).1 = .ok id) :
    ∃ c, (ClassTable.arrayClass name t).2.get? id = some c ∧ c.name = name ∧
      (∀ e, c.element = some e ↔ ∃ component, FieldType.parse name = .ok (.array component) ∧
        (ClassTable.arrayClass name t).2.Denotes component e) ∧
      ClassTable.arrayClass name (ClassTable.arrayClass name t).2 = (.ok id, (ClassTable.arrayClass name t).2) := by
  have hlookup := lookup?_arrayClass h
  obtain ⟨hcatalogued, -⟩ := ht.arrayClass name
  generalize (ClassTable.arrayClass name t).2 = t' at hlookup hcatalogued ⊢
  obtain ⟨c, hc, rfl⟩ := hcatalogued.regular.named _ id hlookup
  refine ⟨c, hc, rfl, fun e => ⟨fun he => ?_, ?_⟩, by rw [ClassTable.arrayClass, hlookup]⟩
  · have hspelled := hcatalogued.spelled id c hc
    unfold Spells at hspelled
    rw [he] at hspelled
    obtain ⟨component, hparse, hdenotes, -⟩ := hspelled
    exact ⟨component, hparse, hdenotes⟩
  · rintro ⟨component, hparse, hdenotes⟩
    rw [← FieldType.text_of_parse hparse] at hlookup
    obtain ⟨c', e', hc', -, he, hdenotes'⟩ := hcatalogued.hasArray (spellable_of_parse_array hparse) hlookup
    cases hc'.symm.trans hc
    rw [he, hdenotes.unique hdenotes' hcatalogued.regular]

/-- An admission that is answered gives a class that is there. -/
theorem Catalogued.answered (ht : t.Catalogued) {a : Admission} (ha : a.Proper) (h : (a.run t).1 = .ok id) :
    ∃ c, (a.run t).2.get? id = some c := by
  obtain ⟨hcatalogued, -⟩ := ht.admission ha
  have hfound : ∀ name, (a.run t).2.lookup? name = some id → ∃ c, (a.run t).2.get? id = some c := by
    intro name hl
    obtain ⟨c, hc, -⟩ := hcatalogued.regular.named name id hl
    exact ⟨c, hc⟩
  cases a with
  | register d =>
    obtain ⟨c, hc, -⟩ := get?_register h
    exact ⟨c, hc⟩
  | arrayClass name => exact hfound name (lookup?_arrayClass h)
  | arrayOf element =>
    obtain ⟨name, _, hl⟩ := lookup?_arrayOf h
    exact hfound name hl

end Elements

/-- The table of any admissions whose classes have plain names: numbers are dense and stay what they are,
names and classes are inverse to each other, a refusal changes neither, not even where array classes within
others are made in turn, array classes have the names and elements they were asked for, which came before
them, and are the classes of arrays of their elements as far as their names do not spell an array class as
one that is none. -/
theorem admissions_consistent (admissions : List Admission) (h : ∀ a ∈ admissions, a.Proper) :
    let t := Admission.runAll admissions {}
    (∀ id, id < t.size ↔ ∃ c, t.get? id = some c ∧ c.id = id) ∧
    (∀ name id, t.lookup? name = some id ↔ ∃ c, t.get? id = some c ∧ c.name = name) ∧
    (∀ more, (∀ a ∈ more, a.Proper) → t.Stays (Admission.runAll more t)) ∧
    (∀ (a : Admission) id, a.Proper → (a.run t).1 = .ok id → ∃ c, (a.run t).2.get? id = some c) ∧
    (∀ (a : Admission) e, (a.run t).1 = .error e → (a.run t).2.classes = t.classes ∧ (a.run t).2.byName = t.byName) ∧
    (∀ name, arrayClassInTurn name t = arrayClass name t ∧ ∀ id, (arrayClass name t).1 = .ok id →
      ∃ c, (arrayClass name t).2.get? id = some c ∧ c.name = name ∧
        (∀ e, c.element = some e ↔ ∃ component, FieldType.parse name = .ok (.array component) ∧
          (arrayClass name t).2.Denotes component e) ∧
        arrayClass name (arrayClass name t).2 = (.ok id, (arrayClass name t).2)) ∧
    (∀ id c a, t.get? id = some c → c.element = some (.reference a) → a < id) ∧
    ∀ id c e, t.get? id = some c → c.element = some e →
      ((arrayOf e t).1 = .ok id ↔ ¬ SpellsArrayAsClass c.name) ∧
      (¬ SpellsArrayAsClass c.name → arrayOf e t = (.ok id, t)) := by
  intro t
  have ht : t.Catalogued := (catalogued_empty.runAll h).1
  refine ⟨fun id => ⟨fun hlt => ?_, ?_⟩, ht.lookup?_iff, fun more hmore => (ht.runAll hmore).2,
    fun a id ha => ht.answered ha, fun a e => refused_admission,
    fun name => ⟨arrayClassInTurn_eq name t, fun id => ht.arrayClass_named⟩, fun id c a hc ha => ?_,
    fun id c e => ht.arrayOf_element⟩
  · have hc : t.get? id = some t.classes[id] := Array.getElem?_eq_getElem hlt
    exact ⟨_, hc, (ht.regular.listed id _ hc).1.numbered⟩
  · rintro ⟨c, hc, -⟩
    exact (Array.getElem?_eq_some_iff.1 hc).1
  · have hspelled := ht.spelled id c hc
    unfold Spells at hspelled
    rw [ha] at hspelled
    obtain ⟨_, _, _, hlower⟩ := hspelled
    exact (ht.regular.listed id c hc).1.numbered ▸ hlower a rfl

/-- A class, arrays of arrays of it, an array class that cannot be made, and arrays of numbers, asked for by
a name that spells them as a class as well. -/
def arrayAdmissions : List Admission :=
  [.register { name := "Leaf" }, .arrayClass "[[LLeaf;", .arrayClass "[[[LNone;", .arrayClass "[I",
    .arrayClass "[L[I;"]

theorem admissions_consistent_arrays : (∀ a ∈ arrayAdmissions, a.Proper) ∧
    arrayOf (.reference 1) (Admission.runAll arrayAdmissions {}) =
      (.ok 2, Admission.runAll arrayAdmissions {}) ∧
    (arrayOf (.reference 3) (Admission.runAll arrayAdmissions {})).1 ≠ .ok 4 := by
  have hproper : ∀ a ∈ arrayAdmissions, a.Proper := by
    simp only [arrayAdmissions, List.forall_mem_cons]
    exact ⟨⟨by decide, by decide, by decide⟩, trivial, trivial, trivial, trivial, by simp⟩
  obtain ⟨-, -, -, -, -, -, -, helements⟩ := admissions_consistent arrayAdmissions hproper
  have hclass : ∀ (id : ClassId) (name : String) (e : ElementType),
      ((Admission.runAll arrayAdmissions {}).get? id).map (fun c => (c.name, c.element)) = some (name, some e) →
      ∃ c, (Admission.runAll arrayAdmissions {}).get? id = some c ∧ c.name = name ∧ c.element = some e := by
    intro id name e hview
    obtain ⟨c, hc, heq⟩ := Option.map_eq_some_iff.1 hview
    exact ⟨c, hc, congrArg Prod.fst heq, congrArg Prod.snd heq⟩
  obtain ⟨c, hc, hname, he⟩ := hclass 2 "[[LLeaf;" (.reference 1) (by decide +kernel)
  obtain ⟨c', hc', hname', he'⟩ := hclass 4 "[L[I;" (.reference 3) (by decide +kernel)
  have hplain : ¬ SpellsArrayAsClass c.name := hname ▸ by decide
  have hspelled : SpellsArrayAsClass c'.name := hname' ▸ by decide
  exact ⟨hproper, (helements 2 c _ hc he).2 hplain, fun hmade => (helements 4 c' _ hc' he').1.1 hmade hspelled⟩

/-- The elements of the class of numbers' arrays by the other name are those of a class of its own. -/
theorem arrayOf_spelledAsClass :
    ((Admission.runAll arrayAdmissions {}).get? 4).map (fun c => (c.name, c.element)) =
      some ("[L[I;", some (.reference 3)) ∧
    (arrayOf (.reference 3) (Admission.runAll arrayAdmissions {})).1.toOption = some 5 := by
  decide +kernel

end ClassMachine.ClassTable
