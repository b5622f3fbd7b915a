import ClassMachine.Proofs.Link.Declarations
import ClassMachine.Proofs.Lists

/-!
Loading of classes. A class is loaded as it is defined, behind the classes that are there, and
nothing that becomes of a table afterwards changes what its classes are declared as.
-/
namespace ClassMachine
open Stateful ClassMachine.Lists

/-- What the classes of a table are declared as, array classes apart, in the order of loading. -/
def ClassTable.declarations (t : ClassTable) : List ClassDefinition :=
  (t.classes.toList.filter (!·.isArray)).map ClassInfo.declaration

/-- The declaration of a class that was loaded from a definition: constants have their places in the
pool, and a native method has no code. -/
def ClassDefinition.loaded (d : ClassDefinition) : ClassDefinition :=
  { d with
    constants := (ConstantPool.ofConstants d.constants).entries.toList
    methods := d.methods.map fun m => { m with code := if m.flags.isNative then none else m.code } }

namespace ClassTable

theorem mem_toList {t : ClassTable} {c : ClassInfo} : c ∈ t.classes.toList ↔ ∃ id, t.get? id = some c := by
  rw [Array.mem_toList_iff, Array.mem_iff_getElem?]
  rfl

theorem mem_declarations {t : ClassTable} {d : ClassDefinition} :
    d ∈ t.declarations ↔ ∃ id c, t.get? id = some c ∧ c.isArray = false ∧ c.declaration = d := by
  unfold declarations
  simp only [List.mem_map, List.mem_filter, mem_toList, Bool.not_eq_true']
  constructor
  · rintro ⟨c, ⟨⟨id, hc⟩, harray⟩, hd⟩
    exact ⟨id, c, hc, harray, hd⟩
  · rintro ⟨id, c, hc, harray, hd⟩
    exact ⟨c, ⟨⟨id, hc⟩, harray⟩, hd⟩

section Defined

variable {d : ClassDefinition} {fields : List Field} {signatures : List MethodDescriptor}

theorem declaration_numberStatics (next : Nat) (fields : List Field) :
    (numberStatics next fields).map Field.declaration = fields.map Field.declaration := by
  induction fields generalizing next with
  | nil => rfl
  | cons f fields ih =>
    unfold numberStatics
    split
    · exact congrArg (f.declaration :: ·) (ih (next + 1))
    · exact congrArg (f.declaration :: ·) (ih next)

theorem declaration_buildFields (h : d.fields.mapM (buildField d.name) = .ok fields) :
    fields.map Field.declaration = d.fields := by
  have hfields := mapM_ok.1 h
  clear h
  generalize d.fields = ds at hfields
  induction hfields with
  | nil => rfl
  | @cons definition field ds fields hfield _ ih =>
    unfold buildField at hfield
    split at hfield
    · cases hfield
      exact congrArg (definition :: ·) ih
    · cases hfield

theorem declaration_buildMethods (id : ClassId) (owner : String) {ds : List MethodDefinition}
    (h : ds.length = signatures.length) :
    (buildMethods id owner (ds.zip signatures)).map Method.declaration =
      ds.map fun m => { m with code := if m.flags.isNative then none else m.code } := by
  let declare (m : MethodDefinition) : MethodDefinition :=
    { m with code := if m.flags.isNative then none else m.code }
  have hdeclare : ∀ p : (MethodDefinition × MethodDescriptor) × Nat, Method.declaration
      { id := ⟨id, p.2⟩, ownerName := owner, name := p.1.1.name, descriptor := p.1.1.descriptor,
        signature := p.1.2, flags := p.1.1.flags, body := bodyOf p.1.1 } = declare p.1.1 := by
    intro p
    refine congrArg (MethodDefinition.mk p.1.1.name p.1.1.descriptor p.1.1.flags) ?_
    unfold Method.code? bodyOf
    cases p.1.1.flags.isNative
    · cases p.1.1.code <;> rfl
    · rfl
  calc (buildMethods id owner (ds.zip signatures)).map Method.declaration
      = (((ds.zip signatures).zipIdx.map Prod.fst).map Prod.fst).map declare := by
        simp only [buildMethods, List.map_map, Function.comp_def, hdeclare]
    _ = ds.map declare := by rw [List.zipIdx_map_fst, List.map_fst_zip (Nat.le_of_eq h)]

theorem declaration_definedInfo (hfields : d.fields.mapM (buildField d.name) = .ok fields)
    (hsignatures : d.methods.mapM (buildSignature d.name) = .ok signatures) (id : ClassId) :
    (definedInfo d fields signatures id).declaration = d.loaded := by
  have hlength := (mapM_ok.1 hsignatures).length_eq
  have hmethods := declaration_buildMethods id d.name hlength
  have hdeclared := (declaration_numberStatics 0 fields).trans (declaration_buildFields hfields)
  simp only [ClassInfo.declaration, definedInfo, ClassDefinition.loaded, hmethods, hdeclared]

theorem sound_definedInfo (id : ClassId) : (definedInfo d fields signatures id).Sound id := by
  have hmethod : ∀ (i : Nat) (m : Method), (definedInfo d fields signatures id).methods[i]? = some m →
      m.id = ⟨id, i⟩ ∧ ∃ definition, m.body = bodyOf definition := by
    intro i m hm
    simp only [definedInfo, buildMethods, List.getElem?_toArray, List.getElem?_map, List.getElem?_zipIdx,
      Option.map_eq_some_iff] at hm
    obtain ⟨_, ⟨⟨definition, signature⟩, _, rfl⟩, rfl⟩ := hm
    exact ⟨by simp, definition, rfl⟩
  refine ⟨fun i m hm => (hmethod i m hm).1, fun i m raw result hm hbody => ?_, fun harray => ?_⟩
  · obtain ⟨_, definition, hdefinition⟩ := hmethod i m hm
    rw [hdefinition] at hbody
    unfold bodyOf at hbody
    split at hbody
    · cases hbody
    · split at hbody <;> cases hbody
  · cases harray

end Defined

section Load

variable {t t' : ClassTable} {d : ClassDefinition} {id : ClassId}

/-- Loading appends one class and names it. -/
theorem load_eq (h : t.load d = .ok (id, t')) :
    id = t.size ∧ t.lookup? d.name = none ∧
      ∃ c, c.declaration = d.loaded ∧ c.isArray = false ∧ c.id = t.size ∧ c.Sound t.size ∧
        t'.classes = t.classes.push c ∧
        ∀ name, t'.lookup? name = if d.name = name then some t.size else t.lookup? name := by
  obtain ⟨fields, hfields, h⟩ := except_bind_ok.1 h
  obtain ⟨signatures, hsignatures, h⟩ := except_bind_ok.1 h
  obtain ⟨⟨id₁, t₁⟩, hinsert, h⟩ := except_bind_ok.1 h
  obtain ⟨rfl, hfresh, _, hclasses, hlookup⟩ := insert_eq hinsert
  have hlogged : ∀ (ms : List MethodDefinition) (t : ClassTable), (ms.foldl (fun t m =>
      t.record .warning s!"{d.name}.{m.name}{m.descriptor}"
        "concrete method has no code; treated as abstract") t).classes = t.classes ∧
      (ms.foldl (fun t m => t.record .warning s!"{d.name}.{m.name}{m.descriptor}"
        "concrete method has no code; treated as abstract") t).byName = t.byName := by
    intro ms
    induction ms with
    | nil => exact fun _ => ⟨rfl, rfl⟩
    | cons m ms ih => exact fun t => ih _
  cases h
  obtain ⟨hsame, hnames⟩ := hlogged (d.methods.filter lacksCode) t₁
  refine ⟨rfl, hfresh, definedInfo d fields signatures t.size,
    declaration_definedInfo hfields hsignatures t.size, rfl, rfl, sound_definedInfo t.size,
    hsame.trans hclasses, fun name => ?_⟩
  rw [← hlookup]
  unfold lookup?
  rw [hnames]

/-- A table keeps in order when a class is loaded. -/
theorem Regular.load (ht : t.Regular) (h : t.load d = .ok (id, t')) : t'.Regular := by
  obtain ⟨rfl, hfresh, c, hdeclared, harray, hid, hsound, hclasses, hlookup⟩ := load_eq h
  have hname : c.name = d.name := congrArg ClassDefinition.name hdeclared
  have hget := get?_push hclasses
  have hnone : t.get? t.size = none := get?_eq_none_of_size_le (Nat.le_refl _)
  refine ⟨fun id c' hc' => ?_, fun name id hl => ?_⟩
  · have hfound := hc'
    rw [hget] at hc'
    split at hc'
    · next heq =>
      cases hc'
      subst heq
      exact ⟨⟨hfound, hid, by rw [hname, hlookup, if_pos rfl]⟩, hsound⟩
    · obtain ⟨hlists, hsound'⟩ := ht.listed id c' hc'
      refine ⟨⟨hfound, hlists.numbered, ?_⟩, hsound'⟩
      rw [hlookup, if_neg, hlists.named]
      intro heq
      have hnamed := hlists.named
      rw [← heq, hfresh] at hnamed
      cases hnamed
  · rw [hlookup] at hl
    split at hl
    · next heq =>
      cases hl
      exact ⟨c, by rw [hget, if_pos rfl], hname.trans heq⟩
    · obtain ⟨c', hc', hname'⟩ := ht.named name id hl
      refine ⟨c', ?_, hname'⟩
      rw [hget, if_neg, hc']
      rintro rfl
      rw [hnone] at hc'
      cases hc'

theorem load_keeps (h : t.load d = .ok (id, t')) : t.Keeps t' := by
  obtain ⟨_, _, c, _, _, _, _, hclasses, _⟩ := load_eq h
  intro id' c' hc'
  refine ⟨c', ?_, rfl⟩
  rw [get?_push hclasses, if_neg, hc']
  rintro rfl
  rw [get?_eq_none_of_size_le (Nat.le_refl _)] at hc'
  cases hc'

theorem declarations_load (h : t.load d = .ok (id, t')) :
    t'.declarations = t.declarations ++ [d.loaded] := by
  obtain ⟨_, _, c, hdeclared, harray, _, _, hclasses, _⟩ := load_eq h
  simp [declarations, hclasses, harray, hdeclared]

end Load

section Loaded

variable {t t' : ClassTable}

/-- Classes that stay what they are declared as, with nothing but array classes after them. -/
theorem declarations_congr
    (hknown : ∀ id c, t.get? id = some c → ∃ c', t'.get? id = some c' ∧ c'.declaration = c.declaration ∧
      c'.isArray = c.isArray)
    (hadded : ∀ id c', t.get? id = none → t'.get? id = some c' → c'.isArray = true) :
    t'.declarations = t.declarations := by
  let view (c : ClassInfo) : Bool × ClassDefinition := (!c.isArray, c.declaration)
  have hviews : ∀ t : ClassTable, t.declarations = ((t.classes.toList.map view).filter (·.1)).map (·.2) := by
    intro t
    simp only [declarations, List.filter_map, List.map_map]
    rfl
  have hfront : (t'.classes.toList.take t.size).map view = t.classes.toList.map view := by
    refine List.ext_getElem? fun i => ?_
    rw [List.getElem?_map, List.getElem?_map, List.getElem?_take, Array.getElem?_toList,
      Array.getElem?_toList]
    cases hc : t.classes[i]? with
    | none =>
      have hi : ¬ i < t.size := Nat.not_lt.2 (Array.getElem?_eq_none_iff.1 hc)
      rw [if_neg hi]
    | some c =>
      have hi : i < t.size := (Array.getElem?_eq_some_iff.1 hc).1
      obtain ⟨c', hc', hdeclared, harray⟩ := hknown i c hc
      rw [if_pos hi, show t'.classes[i]? = some c' from hc']
      simp [view, hdeclared, harray]
  have hback : ((t'.classes.toList.drop t.size).map view).filter (·.1) = [] := by
    refine List.filter_eq_nil_iff.2 fun v hv => ?_
    obtain ⟨c', hc', rfl⟩ := List.mem_map.1 hv
    obtain ⟨i, hi⟩ := List.mem_iff_getElem?.1 hc'
    rw [List.getElem?_drop, Array.getElem?_toList] at hi
    simp [view, hadded _ c' (get?_eq_none_of_size_le (Nat.le_add_right _ _)) hi]
  rw [hviews, hviews, ← List.take_append_drop t.size t'.classes.toList, List.map_append, List.filter_append,
    hfront, hback, List.append_nil]

theorem Grows.declarations (h : t.Grows t') : t'.declarations = t.declarations := by
  refine declarations_congr (fun id c hc => ?_) fun id c' hc hc' => (h.added id c' hc hc').1.isArray
  obtain ⟨c', hc', hp⟩ := h.known id c hc
  exact ⟨c', hc', hp.declaration⟩

theorem get?_takePendingInit (id id' : ClassId) (t : ClassTable) : (takePendingInit id t).2.get? id' =
    if id = id' then (t.get? id').map fun c => { c with pendingInit := false } else t.get? id' :=
  get?_update ..

theorem takePendingInit_keeps (id : ClassId) (t : ClassTable) : t.Keeps (takePendingInit id t).2 := by
  intro id' c hc
  rw [get?_takePendingInit, hc]
  split
  · exact ⟨_, rfl, rfl⟩
  · exact ⟨c, rfl, rfl⟩

theorem declarations_takePendingInit (id : ClassId) (t : ClassTable) :
    (takePendingInit id t).2.declarations = t.declarations := by
  refine declarations_congr (fun id' c hc => ?_) fun id' c' hc hc' => ?_
  · rw [get?_takePendingInit, hc]
    split
    · exact ⟨_, rfl, rfl, rfl⟩
    · exact ⟨c, rfl, rfl, rfl⟩
  · rw [get?_takePendingInit, hc] at hc'
    simp at hc'

/-- A table in which classes were loaded in the given order. Between two of them, and after the last,
array classes were made, methods were linked and initializers taken up. -/
inductive Loaded : List ClassDefinition → ClassTable → Prop
  | empty : Loaded [] {}
  | load {ds : List ClassDefinition} {t t' : ClassTable} {d : ClassDefinition} {id : ClassId}
      (h : Loaded ds t) (hload : t.load d = .ok (id, t')) : Loaded (ds ++ [d]) t'
  | grows {ds : List ClassDefinition} {t t' : ClassTable} (h : Loaded ds t) (hgrows : t.Grows t') : Loaded ds t'
  | initialized {ds : List ClassDefinition} {t : ClassTable} (h : Loaded ds t) (id : ClassId) :
      Loaded ds (takePendingInit id t).2

theorem Loaded.register {ds : List ClassDefinition} {d : ClassDefinition} (h : Loaded ds t)
    (hd : (ClassTable.register d t).1.isOk = true) : Loaded (ds ++ [d]) (ClassTable.register d t).2 := by
  unfold ClassTable.register at hd ⊢
  cases hload : t.load d with
  | ok p => exact h.load hload
  | error e =>
    rw [hload] at hd
    cases hd

theorem register_keeps (d : ClassDefinition) (t : ClassTable) : t.Keeps (ClassTable.register d t).2 := by
  unfold ClassTable.register
  split
  · next hload => exact load_keeps hload
  · exact (grows_record _ _ _ _).keeps

/-- A class that is loaded is the one that was defined. -/
theorem get?_register {d : ClassDefinition} {id : ClassId} (h : (ClassTable.register d t).1 = .ok id) :
    ∃ c, (ClassTable.register d t).2.get? id = some c ∧ c.declaration = d.loaded := by
  unfold ClassTable.register at h ⊢
  cases hload : t.load d with
  | error e =>
    rw [hload] at h
    cases h
  | ok p =>
    obtain ⟨id', t'⟩ := p
    rw [hload] at h
    cases h
    obtain ⟨rfl, _, c, hdeclared, _, _, _, hclasses, _⟩ := load_eq hload
    exact ⟨c, by rw [get?_push hclasses, if_pos rfl], hdeclared⟩

theorem regular_empty : ({} : ClassTable).Regular := by
  refine ⟨fun id c hc => ?_, fun name id hl => ?_⟩
  · simp [get?] at hc
  · simp [lookup?] at hl

theorem Regular.takePendingInit (h : t.Regular) (id : ClassId) :
    (ClassTable.takePendingInit id t).2.Regular := by
  have hknown : ∀ id' c', (ClassTable.takePendingInit id t).2.get? id' = some c' → ∃ c pending,
      t.get? id' = some c ∧ c' = { c with pendingInit := pending } ∧
        (c.pendingInit = false → pending = false) := by
    intro id' c' hc'
    rw [get?_takePendingInit] at hc'
    split at hc'
    · obtain ⟨c, hc, rfl⟩ := Option.map_eq_some_iff.1 hc'
      exact ⟨c, false, hc, rfl, fun _ => rfl⟩
    · exact ⟨c', c'.pendingInit, hc', rfl, fun h => h⟩
  refine ⟨fun id' c' hc' => ?_, fun name id' hl => ?_⟩
  · have hfound := hc'
    obtain ⟨c, pending, hc, rfl, hpending⟩ := hknown id' c' hc'
    obtain ⟨hlists, hsound⟩ := h.listed id' c hc
    refine ⟨⟨hfound, hlists.numbered, hlists.named⟩, hsound.numbered, hsound.genuine, fun harray => ?_⟩
    have hmade := hsound.made harray
    exact { hmade with pendingInit := hpending hmade.pendingInit }
  · obtain ⟨c, hc, hname⟩ := h.named name id' hl
    obtain ⟨c', hc', hdeclared⟩ := takePendingInit_keeps id t id' c hc
    exact ⟨c', hc', (congrArg ClassDefinition.name hdeclared).trans hname⟩

theorem Loaded.regular {ds : List ClassDefinition} (h : Loaded ds t) : t.Regular := by
  induction h with
  | empty => exact regular_empty
  | load _ hload ih => exact ih.load hload
  | grows _ hgrows ih => exact ih.grows hgrows
  | initialized _ id ih => exact ih.takePendingInit id

theorem Loaded.declarations {ds : List ClassDefinition} (h : Loaded ds t) :
    t.declarations = ds.map ClassDefinition.loaded := by
  induction h with
  | empty => rfl
  | load _ hload ih => rw [declarations_load hload, ih, List.map_append, List.map_singleton]
  | grows _ hgrows ih => rw [hgrows.declarations, ih]
  | initialized _ id ih => rw [declarations_takePendingInit, ih]

end Loaded

end ClassTable

end ClassMachine
