import ClassMachine.Proofs.Link.Initialization

/-!
Subtypes that stay. Whether one class is a subtype of another depends on links that were looked up, or that
are looked up on being asked. Names lead to the classes they led to, and links stay, so what is loaded or
asked for later makes classes subtypes that were none, and never the other way round.
-/
namespace ClassMachine.ClassTable
open Stateful

variable {t t' t₁ t₂ t₃ : ClassTable} {x sub sup : ClassId}

/-- Instances of `sub` are instances of `sup`. -/
def Is (t : ClassTable) (sub sup : ClassId) : Prop := (isSubclass sub sup t).1 = true

theorem findInterfaces_fst (owner : String) (names : List String) (t : ClassTable) :
    (findInterfaces owner names t).1 = names.filterMap t.lookup? := by
  induction names generalizing t with
  | nil => rfl
  | cons name rest ih =>
    rw [findInterfaces, state_get, List.filterMap_cons]
    cases t.lookup? name with
    | some id => exact congrArg (id :: ·) (ih t)
    | none => exact ih _

/-- What the interfaces of a class are, or would be looked up to be. -/
theorem interfaces_fst (x : ClassId) (t : ClassTable) : (interfaces x t).1 =
    ((t.get? x).map fun c => c.interfaceLinks.getD (c.interfaceNames.filterMap t.lookup?)).getD [] := by
  rw [interfaces, state_get]
  cases t.get? x with
  | none => rfl
  | some c =>
    dsimp only
    rw [Option.map_some, Option.getD_some]
    cases c.interfaceLinks with
    | some links => rfl
    | none => exact findInterfaces_fst c.name c.interfaceNames t

/-- Names and links, those not looked up yet among them, lead to classes that are there. -/
structure Moored (t : ClassTable) : Prop where
  named : ∀ name id, t.lookup? name = some id → ∃ c, t.get? id = some c
  supers : ∀ x p, (superclass x t).1 = some p → ∃ c, t.get? p = some c
  interfaces : ∀ x, ∀ i ∈ (interfaces x t).1, ∃ c, t.get? i = some c

/-- A class of arrays has elements of the kind that its name tells. -/
structure Titled (t : ClassTable) : Prop extends Moored t where
  kinds : ∀ name id c element, t.lookup? name = some id → t.get? id = some c → c.element = some element →
    ∃ component : FieldType, name = (FieldType.array component).text ∧ element.kind = component.kind

/-- Classes have the elements they had, and lead to whatever they led to. -/
structure Retains (t t' : ClassTable) : Prop where
  known : ∀ x c, t.get? x = some c → ∃ c', t'.get? x = some c' ∧ c'.element = c.element
  supers : ∀ x p, (superclass x t).1 = some p → (superclass x t').1 = some p
  interfaces : ∀ x, (interfaces x t).1 ⊆ (interfaces x t').1
  moored : t.Moored → t'.Moored
  titled : t.Titled → t'.Titled

theorem Retains.refl (t : ClassTable) : t.Retains t :=
  ⟨fun _ c hc => ⟨c, hc, rfl⟩, fun _ _ h => h, fun _ => List.Subset.refl _, id, id⟩

theorem Retains.trans (h : t₁.Retains t₂) (h' : t₂.Retains t₃) : t₁.Retains t₃ := by
  refine ⟨fun x c hc => ?_, fun x p hp => h'.supers x p (h.supers x p hp),
    fun x => List.Subset.trans (h.interfaces x) (h'.interfaces x), fun ht => h'.moored (h.moored ht),
    fun ht => h'.titled (h.titled ht)⟩
  obtain ⟨c₂, hc₂, he⟩ := h.known x c hc
  obtain ⟨c₃, hc₃, he'⟩ := h'.known x c₂ hc₂
  exact ⟨c₃, hc₃, he'.trans he⟩

theorem moored_empty : ({} : ClassTable).Moored := by
  have hnone : ∀ id, ({} : ClassTable).get? id = none := fun _ => rfl
  refine ⟨fun name id h => ?_, fun x p h => ?_, fun x i h => ?_⟩
  · rw [show ({} : ClassTable).lookup? name = none from Std.ExtTreeMap.getElem?_empty] at h
    cases h
  · rw [superclass_fst, hnone] at h
    cases h
  · rw [interfaces_fst, hnone] at h
    cases h

theorem titled_empty : ({} : ClassTable).Titled where
  toMoored := moored_empty
  kinds name id _ _ hl _ _ := by
    rw [show ({} : ClassTable).lookup? name = none from Std.ExtTreeMap.getElem?_empty] at hl
    cases hl

section Links

/-- A class of which links may have been looked up. All else is as it was. -/
structure Looks (t : ClassTable) (x : ClassId) (c c' : ClassInfo) : Prop where
  rest : c' = { c with superLink := c'.superLink, interfaceLinks := c'.interfaceLinks }
  superLink : c'.superLink = c.superLink ∨ c'.superLink = some (superclass x t).1
  interfaceLinks : c'.interfaceLinks = c.interfaceLinks ∨ c'.interfaceLinks = some (interfaces x t).1

namespace Looks

variable {c c' : ClassInfo}

theorem refl (t : ClassTable) (x : ClassId) (c : ClassInfo) : t.Looks x c c := ⟨rfl, .inl rfl, .inl rfl⟩

theorem element (h : t.Looks x c c') : c'.element = c.element := by rw [h.rest]

theorem superName (h : t.Looks x c c') : c'.superName = c.superName := by rw [h.rest]

theorem interfaceNames (h : t.Looks x c c') : c'.interfaceNames = c.interfaceNames := by rw [h.rest]

end Looks

/-- Tables that differ in what was looked up, and in what was logged meanwhile. -/
structure Concurs (t t' : ClassTable) : Prop where
  names : t'.byName = t.byName
  classes : ∀ x, Option.Rel (t.Looks x) (t.get? x) (t'.get? x)
  log : t.log.entries <+: t'.log.entries

theorem Concurs.refl (t : ClassTable) : t.Concurs t := by
  refine ⟨rfl, fun x => ?_, List.prefix_refl _⟩
  cases t.get? x with
  | none => exact .none
  | some c => exact .some (.refl t x c)

theorem Concurs.of_map (hnames : t'.byName = t.byName) (hlog : t.log.entries <+: t'.log.entries)
    {f : ClassId → ClassInfo → ClassInfo} (hget : ∀ x, t'.get? x = (t.get? x).map (f x))
    (hf : ∀ x c, t.get? x = some c → t.Looks x c (f x c)) : t.Concurs t' := by
  refine ⟨hnames, fun x => ?_, hlog⟩
  rw [hget]
  cases hc : t.get? x with
  | none => exact .none
  | some c => exact .some (hf x c hc)

theorem Concurs.lookup? (h : t.Concurs t') : t'.lookup? = t.lookup? := by
  funext name
  unfold ClassTable.lookup?
  rw [h.names]

theorem Concurs.superclass (h : t.Concurs t') (x : ClassId) :
    (ClassTable.superclass x t').1 = (ClassTable.superclass x t).1 := by
  have hx := h.classes x
  rw [superclass_fst x t', h.lookup?]
  generalize hc' : t'.get? x = found' at hx
  generalize hc : t.get? x = found at hx
  cases hx with
  | none => rw [superclass_fst, hc]
  | some hlooks =>
    rw [Option.bind_some, hlooks.superName]
    rcases hlooks.superLink with hlink | hlink
    · rw [hlink, superclass_fst, hc, Option.bind_some]
    · rw [hlink, Option.getD_some]

theorem Concurs.interfaces (h : t.Concurs t') (x : ClassId) :
    (ClassTable.interfaces x t').1 = (ClassTable.interfaces x t).1 := by
  have hx := h.classes x
  rw [interfaces_fst x t', h.lookup?]
  generalize hc' : t'.get? x = found' at hx
  generalize hc : t.get? x = found at hx
  cases hx with
  | none => rw [interfaces_fst, hc]
  | some hlooks =>
    rw [Option.map_some, Option.getD_some, hlooks.interfaceNames]
    rcases hlooks.interfaceLinks with hlink | hlink
    · rw [hlink, interfaces_fst, hc, Option.map_some, Option.getD_some]
    · rw [hlink, Option.getD_some]

theorem Concurs.known (h : t.Concurs t') {c : ClassInfo} (hc : t.get? x = some c) :
    ∃ c', t'.get? x = some c' ∧ c'.element = c.element := by
  have hx := h.classes x
  rw [hc] at hx
  generalize t'.get? x = found' at *
  cases hx with
  | some hlooks => exact ⟨_, rfl, hlooks.element⟩

/-- Names and links that lead where they led. -/
theorem retains_of_links (hlookup : t'.lookup? = t.lookup?)
    (hsuper : ∀ x, (superclass x t').1 = (superclass x t).1)
    (hinterfaces : ∀ x, (interfaces x t').1 = (interfaces x t).1)
    (hknown : ∀ x c, t.get? x = some c → ∃ c', t'.get? x = some c' ∧ c'.element = c.element) :
    t.Retains t' := by
  have hstill : ∀ {x}, (∃ c, t.get? x = some c) → ∃ c, t'.get? x = some c := by
    rintro x ⟨c, hc⟩
    obtain ⟨c', hc', _⟩ := hknown x c hc
    exact ⟨c', hc'⟩
  have hmoored : t.Moored → t'.Moored := by
    refine fun ht => ⟨fun name id hl => ?_, fun x p hp => ?_, fun x i hi => ?_⟩
    · rw [hlookup] at hl
      exact hstill (ht.named name id hl)
    · rw [hsuper] at hp
      exact hstill (ht.supers x p hp)
    · rw [hinterfaces] at hi
      exact hstill (ht.interfaces x i hi)
  refine ⟨hknown, fun x p hp => (hsuper x).trans hp, fun x => by rw [hinterfaces x]; exact List.Subset.refl _,
    hmoored, fun ht => ⟨hmoored ht.toMoored, fun name id c' element hl hc' helement => ?_⟩⟩
  rw [hlookup] at hl
  obtain ⟨c, hc⟩ := ht.named name id hl
  obtain ⟨c'', hc'', hsame⟩ := hknown id c hc
  cases hc'.symm.trans hc''
  exact ht.kinds name id c element hl hc (hsame.symm.trans helement)

theorem Concurs.retains (h : t.Concurs t') : t.Retains t' :=
  retains_of_links h.lookup? h.superclass h.interfaces fun _ _ hc => h.known hc

theorem concurs_record (t : ClassTable) (severity : Severity) (subject message : String) :
    t.Concurs (t.record severity subject message) :=
  .of_map rfl (grows_record t severity subject message).log (f := fun _ c => c)
    (fun _ => Option.map_id'.symm) fun x c _ => .refl t x c

theorem concurs_superclass (id : ClassId) (t : ClassTable) : t.Concurs (superclass id t).2 := by
  refine .of_map (byName_superclass id t) (superclass_grows id t).log
    (f := fun x c => if id = x then { c with superLink := some (superclass id t).1 } else c)
    (fun x => ?_) fun x c _ => ?_
  · rw [get?_superclass]
    by_cases hx : id = x
    · simp only [if_pos hx]
    · simp only [if_neg hx, Option.map_id']
  · by_cases hx : id = x
    · subst hx
      rw [if_pos rfl]
      exact ⟨rfl, .inr rfl, .inl rfl⟩
    · rw [if_neg hx]
      exact .refl t x c

theorem concurs_interfaces (id : ClassId) (t : ClassTable) : t.Concurs (interfaces id t).2 := by
  refine .of_map (byName_interfaces id t) (interfaces_grows id t).log
    (f := fun x c => if id = x then { c with interfaceLinks := some (interfaces id t).1 } else c)
    (fun x => ?_) fun x c _ => ?_
  · rw [get?_interfaces]
    by_cases hx : id = x
    · simp only [if_pos hx]
    · simp only [if_neg hx, Option.map_id']
  · by_cases hx : id = x
    · subst hx
      rw [if_pos rfl]
      exact ⟨rfl, .inl rfl, .inr rfl⟩
    · rw [if_neg hx]
      exact .refl t x c

/-- A class of which something was filled in besides its links. -/
structure LinksKept (c c' : ClassInfo) : Prop where
  element : c'.element = c.element
  superName : c'.superName = c.superName
  interfaceNames : c'.interfaceNames = c.interfaceNames
  superLink : c'.superLink = c.superLink
  interfaceLinks : c'.interfaceLinks = c.interfaceLinks

theorem retains_update (t : ClassTable) (id : ClassId) {f : ClassInfo → ClassInfo}
    (hf : ∀ c, t.get? id = some c → LinksKept c (f c)) : t.Retains (t.update id f) := by
  have hclasses : ∀ x, Option.Rel LinksKept (t.get? x) ((t.update id f).get? x) := by
    intro x
    rw [get?_update]
    cases hc : t.get? x with
    | none => split <;> exact .none
    | some c =>
      split
      · next hx => exact .some (hf c (hx ▸ hc))
      · exact .some ⟨rfl, rfl, rfl, rfl, rfl⟩
  refine retains_of_links rfl (fun x => ?_) (fun x => ?_) fun x c hc => ?_
  · have hx := hclasses x
    rw [superclass_fst, superclass_fst]
    generalize t.get? x = found, (t.update id f).get? x = found' at hx
    cases hx with
    | none => rfl
    | some hkept =>
      rw [Option.bind_some, Option.bind_some, hkept.superName, hkept.superLink]
      rfl
  · have hx := hclasses x
    rw [interfaces_fst, interfaces_fst]
    generalize t.get? x = found, (t.update id f).get? x = found' at hx
    cases hx with
    | none => rfl
    | some hkept =>
      rw [Option.map_some, Option.map_some, hkept.interfaceNames, hkept.interfaceLinks]
      rfl
  · have hx := hclasses x
    rw [hc] at hx
    generalize (t.update id f).get? x = found' at hx
    cases hx with
    | some hkept => exact ⟨_, rfl, hkept.element⟩

section Insertion

variable {name : String} {build : ClassId → ClassInfo} {id : ClassId}

theorem get?_of_insert (h : t.insert name build = .ok (id, t')) {c : ClassInfo} (hc : t.get? x = some c) :
    t'.get? x = some c := by
  obtain ⟨rfl, _, _, hclasses, _⟩ := insert_eq h
  rw [get?_push hclasses, if_neg, hc]
  rintro rfl
  rw [get?_eq_none_of_size_le (Nat.le_refl _)] at hc
  cases hc

theorem lookup?_of_insert (h : t.insert name build = .ok (id, t')) {name' : String} (hl : t.lookup? name' = some x) :
    t'.lookup? name' = some x := by
  obtain ⟨_, hnew, _, _, hlookup⟩ := insert_eq h
  rw [hlookup, if_neg, hl]
  rintro rfl
  rw [hnew] at hl
  cases hl

/-- A class that is added is not linked, or only to classes that are found by name. -/
theorem moored_insert (h : t.insert name build = .ok (id, t'))
    (hsuper : ∀ p, (build id).superLink = some (some p) → ∃ name, t.lookup? name = some p)
    (hinterfaces : ∀ links, (build id).interfaceLinks = some links → links = []) (ht : t.Moored) : t'.Moored := by
  obtain ⟨rfl, _, _, hclasses, hlookup⟩ := insert_eq h
  have hget := get?_push hclasses
  have hnamed : ∀ name id, t'.lookup? name = some id → ∃ c, t'.get? id = some c := by
    intro name' id hl
    rw [hlookup] at hl
    split at hl
    · cases hl
      exact ⟨_, by rw [hget, if_pos rfl]⟩
    · obtain ⟨c, hc⟩ := ht.named name' id hl
      exact ⟨c, get?_of_insert h hc⟩
  refine ⟨hnamed, fun x p hp => ?_, fun x i hi => ?_⟩
  · rw [superclass_fst] at hp
    obtain ⟨c', hc', hlink⟩ := Option.bind_eq_some_iff.1 hp
    cases hs : c'.superLink with
    | none =>
      rw [hs, Option.getD_none] at hlink
      obtain ⟨name', _, hl⟩ := Option.bind_eq_some_iff.1 hlink
      exact hnamed name' p hl
    | some link =>
      rw [hs, Option.getD_some] at hlink
      subst hlink
      rw [hget] at hc'
      split at hc'
      · cases hc'
        obtain ⟨name', hl⟩ := hsuper p hs
        exact hnamed name' p (lookup?_of_insert h hl)
      · obtain ⟨c, hc⟩ := ht.supers x p (by rw [superclass_fst, hc', Option.bind_some, hs, Option.getD_some])
        exact ⟨c, get?_of_insert h hc⟩
  · rw [interfaces_fst] at hi
    cases hc' : t'.get? x with
    | none =>
      rw [hc'] at hi
      cases hi
    | some c' =>
      rw [hc', Option.map_some, Option.getD_some] at hi
      cases hs : c'.interfaceLinks with
      | none =>
        rw [hs, Option.getD_none] at hi
        obtain ⟨name', _, hl⟩ := List.mem_filterMap.1 hi
        exact hnamed name' i hl
      | some links =>
        rw [hs, Option.getD_some] at hi
        rw [hget] at hc'
        split at hc'
        · cases hc'
          rw [hinterfaces links hs] at hi
          cases hi
        · obtain ⟨c, hc⟩ := ht.interfaces x i
            (by rw [interfaces_fst, hc', Option.map_some, Option.getD_some, hs]; exact hi)
          exact ⟨c, get?_of_insert h hc⟩

/-- The kind of the elements of a class that is added is the one its name tells. -/
theorem kinds_insert (h : t.insert name build = .ok (id, t'))
    (hkinds : ∀ element, (build id).element = some element →
      ∃ component : FieldType, name = (FieldType.array component).text ∧ element.kind = component.kind)
    (ht : t.Titled) : ∀ name id c element, t'.lookup? name = some id → t'.get? id = some c →
      c.element = some element →
        ∃ component : FieldType, name = (FieldType.array component).text ∧ element.kind = component.kind := by
  intro name' x c element hl hc helement
  obtain ⟨rfl, _, _, hclasses, hlookup⟩ := insert_eq h
  have hnone : t.get? t.size = none := get?_eq_none_of_size_le (Nat.le_refl _)
  rw [hlookup] at hl
  rw [get?_push hclasses] at hc
  split at hl
  · next hname =>
    cases hl
    rw [if_pos rfl] at hc
    cases hc
    exact hname ▸ hkinds element helement
  · obtain ⟨c', hc'⟩ := ht.named name' x hl
    rw [if_neg (by rintro rfl; cases hnone.symm.trans hc')] at hc
    exact ht.kinds name' x c element hl hc helement

theorem retains_insert (h : t.insert name build = .ok (id, t'))
    (hsuper : ∀ p, (build id).superLink = some (some p) → ∃ name, t.lookup? name = some p)
    (hinterfaces : ∀ links, (build id).interfaceLinks = some links → links = [])
    (hkinds : ∀ element, (build id).element = some element →
      ∃ component : FieldType, name = (FieldType.array component).text ∧ element.kind = component.kind) :
    t.Retains t' := by
  have hmoored := moored_insert h hsuper hinterfaces
  refine ⟨fun x c hc => ⟨c, get?_of_insert h hc, rfl⟩, fun x p hp => ?_, fun x i hi => ?_, hmoored,
    fun ht => ⟨hmoored ht.toMoored, kinds_insert h hkinds ht⟩⟩
  · rw [superclass_fst] at hp ⊢
    obtain ⟨c, hc, hlink⟩ := Option.bind_eq_some_iff.1 hp
    rw [get?_of_insert h hc, Option.bind_some]
    cases hs : c.superLink with
    | some link => rwa [hs] at hlink
    | none =>
      rw [hs, Option.getD_none] at hlink
      obtain ⟨name', hname, hl⟩ := Option.bind_eq_some_iff.1 hlink
      rw [Option.getD_none, hname, Option.bind_some, lookup?_of_insert h hl]
  · rw [interfaces_fst] at hi ⊢
    cases hc : t.get? x with
    | none =>
      rw [hc] at hi
      cases hi
    | some c =>
      rw [hc, Option.map_some, Option.getD_some] at hi
      rw [get?_of_insert h hc, Option.map_some, Option.getD_some]
      cases hs : c.interfaceLinks with
      | some links => rwa [hs] at hi
      | none =>
        rw [hs, Option.getD_none] at hi
        obtain ⟨name', hname, hl⟩ := List.mem_filterMap.1 hi
        exact List.mem_filterMap.2 ⟨name', hname, lookup?_of_insert h hl⟩

end Insertion

theorem Ask.retains (h : t.Ask t') : t.Retains t' := by
  cases h with
  | record severity subject message => exact (concurs_record t severity subject message).retains
  | superclass id => exact (concurs_superclass id t).retains
  | interfaces id => exact (concurs_interfaces id t).retains
  | array hinsert hkind =>
    refine retains_insert hinsert (fun p hp => ⟨objectClass, Option.some.inj hp⟩)
      (fun links hlinks => (Option.some.inj hlinks).symm) fun element helement => ⟨_, rfl, ?_⟩
    rw [← Option.some.inj helement]
    exact hkind

theorem Asks.retains (h : t.Asks t') : t.Retains t' := by
  induction h with
  | refl => exact .refl t
  | tail _ hask ih => exact ih.trans (Ask.retains hask)

theorem retains_updateMethod (t : ClassTable) (id : MethodId) (f : Method → Method) :
    t.Retains (t.updateMethod id f) :=
  retains_update t id.owner (f := fun c => { c with methods := c.methods.modify id.index f })
    fun _ _ => ⟨rfl, rfl, rfl, rfl, rfl⟩

theorem retains_takePendingInit (id : ClassId) (t : ClassTable) : t.Retains (takePendingInit id t).2 :=
  retains_update t id (f := fun c => { c with pendingInit := false }) fun _ _ => ⟨rfl, rfl, rfl, rfl, rfl⟩

theorem retains_loaded {d : ClassDefinition} {fields : List Field} {signatures : List MethodDescriptor}
    {id : ClassId} (h : t.insert d.name (definedInfo d fields signatures) = .ok (id, t')) : t.Retains t' :=
  retains_insert h (fun p hp => by cases hp) (fun links hlinks => by cases hlinks) fun _ helement => by cases helement

end Links

end ClassTable

namespace Linker
open ClassTable Stateful

variable {l l' : Linker}

theorem prepareOne_retains (inherited : Inheritance) (id : ClassId) (l : Linker) :
    l.classes.Retains (prepareOne inherited id l).2.classes := by
  have hasked := (concurs_interfaces id l.classes).retains
  cases hc : (interfaces id l.classes).2.get? id with
  | none =>
    rw [prepareOne_unknown hc]
    exact hasked
  | some c =>
    rw [prepareOne_run hc rfl]
    refine hasked.trans (retains_update _ id fun c₀ hc₀ => ?_)
    cases hc.symm.trans hc₀
    unfold layOut
    split <;> exact ⟨rfl, rfl, rfl, rfl, rfl⟩

theorem foldlM_prepareOne_retains (ids : List ClassId) (inherited : Inheritance) (l : Linker) :
    l.classes.Retains (ids.foldlM prepareOne inherited l).2.classes := by
  induction ids generalizing inherited l with
  | nil => exact .refl _
  | cons id ids ih =>
    rw [List.foldlM_cons, state_bind]
    exact (prepareOne_retains inherited id l).trans (ih _ _)

theorem prepare_retains (id : ClassId) (l : Linker) : l.classes.Retains (prepare id l).2.classes := by
  cases hc : l.classes.get? id with
  | none =>
    rw [prepare, state_get, hc]
    exact .refl _
  | some c =>
    rw [prepare_eq hc]
    split
    · exact .refl _
    · exact (Asks.retains (ancestry_asks id l.classes)).trans (foldlM_prepareOne_retains _ {}
        { l with classes := (ancestry id l.classes).2 })

theorem Move.retains (h : l.Move l') : l.classes.Retains l'.classes := by
  cases h with
  | ask h => exact h.retains
  | intern name descriptor => exact .refl _
  | prepare id => exact prepare_retains id l

theorem Change.retains (h : l.Change l') : l.classes.Retains l'.classes := by
  cases h with
  | move h => exact h.retains
  | loaded h => exact retains_loaded h
  | stored id raw result => exact retains_updateMethod _ id _

theorem Turns.retains (h : l.Turns l') : l.classes.Retains l'.classes := by
  induction h with
  | refl => exact .refl _
  | tail _ hturn ih =>
    cases hturn with
    | change h => exact ih.trans h.retains
    | bound id binding => exact ih.trans (retains_updateMethod _ id _)

end Linker

namespace ClassTable
open Stateful

variable {t t' : ClassTable} {x sub sup : ClassId}

section Subtypes

theorem Concurs.trans {t₁ t₂ t₃ : ClassTable} (h : t₁.Concurs t₂) (h' : t₂.Concurs t₃) : t₁.Concurs t₃ := by
  refine ⟨h'.names.trans h.names, fun x => ?_, h.log.trans h'.log⟩
  have hx := h.classes x
  have hx' := h'.classes x
  have hsuper := h.superclass x
  have hinterfaces := h.interfaces x
  generalize t₁.get? x = found₁ at *
  generalize t₂.get? x = found₂ at *
  generalize t₃.get? x = found₃ at *
  cases hx with
  | none =>
    cases hx'
    exact .none
  | some hlooks =>
    cases hx' with
    | some hlooks' =>
      refine .some ⟨by rw [hlooks'.rest, hlooks.rest], ?_, ?_⟩
      · rcases hlooks'.superLink with hlink | hlink
        · rw [hlink]
          exact hlooks.superLink
        · exact .inr (by rw [hlink, hsuper])
      · rcases hlooks'.interfaceLinks with hlink | hlink
        · rw [hlink]
          exact hlooks.interfaceLinks
        · exact .inr (by rw [hlink, hinterfaces])

theorem concurs_climb (origin : ClassId) (fuel : Nat) (chain : List ClassId) (current : ClassId)
    (t : ClassTable) : t.Concurs (climb origin fuel chain current t).2 := by
  induction fuel generalizing chain current t with
  | zero => exact .refl t
  | succ fuel ih =>
    have hsuper := concurs_superclass current t
    rw [climb, state_bind]
    generalize superclass current t = r at hsuper
    obtain ⟨link, t₁⟩ := r
    cases link with
    | none => exact hsuper
    | some parent =>
      dsimp only
      split
      · exact hsuper.trans (concurs_record t₁ _ _ _)
      · exact hsuper.trans (ih _ _ t₁)

theorem concurs_ancestry (id : ClassId) (t : ClassTable) : t.Concurs (ancestry id t).2 :=
  concurs_climb id _ _ id t

/-- One class is the superclass of the other, whether it was asked for or not. -/
def Above (t : ClassTable) (x p : ClassId) : Prop := (superclass x t).1 = some p

theorem climb_above (origin : ClassId) (fuel : Nat) (chain : List ClassId) (current : ClassId)
    (t : ClassTable) (hx : x ∈ (climb origin fuel chain current t).1) :
    x ∈ chain ∨ Relation.ReflTransGen t.Above current x := by
  induction fuel generalizing chain current t with
  | zero => exact .inl (List.mem_reverse.1 hx)
  | succ fuel ih =>
    have hsuper := concurs_superclass current t
    rw [climb, state_bind] at hx
    generalize hrun : superclass current t = r at *
    obtain ⟨link, t₁⟩ := r
    cases link with
    | none => exact .inl (List.mem_reverse.1 hx)
    | some parent =>
      have habove : t.Above current parent := by rw [Above, hrun]
      dsimp only at hx
      split at hx
      · exact .inl (List.mem_reverse.1 hx)
      · rcases ih _ _ t₁ hx with hmem | hreach
        · rcases List.mem_cons.1 hmem with rfl | hmem
          · exact .inr (.single habove)
          · exact .inl hmem
        · have hback : ∀ y p, t₁.Above y p → t.Above y p := fun y p hp => (hsuper.superclass y).symm.trans hp
          exact .inr (.head habove (Relation.ReflTransGen.mono hback _ _ hreach))

/-- Climbing from a class passes all that are above it, and no others. -/
theorem mem_ancestry : x ∈ (ancestry sub t).1 ↔ Relation.ReflTransGen t.Above sub x := by
  constructor
  · intro hx
    rcases climb_above sub _ _ sub t hx with hmem | hreach
    · rw [List.mem_singleton.1 hmem]
    · exact hreach
  · intro hreach
    obtain ⟨more, hclimbed⟩ := ancestry_climbed sub t
    have hfound : (ancestry sub t).1 = sub :: more := by simpa using hclimbed.found_eq
    induction hreach with
    | refl => rw [hfound]; exact List.mem_cons_self
    | @tail y p _ hp ih =>
      -- the link of a class that was passed was set, to one that was passed as well
      rw [Above, ← (concurs_ancestry sub t).superclass y, superclass_fst] at hp
      obtain ⟨c, hc, hlink⟩ := Option.bind_eq_some_iff.1 hp
      obtain ⟨link, hset, hparent⟩ := hclimbed.closed y (hfound ▸ ih) c hc
      rw [hset, Option.getD_some] at hlink
      exact hparent p hlink

theorem anyIs_fst (sup : ClassId) (ids : List ClassId) (t : ClassTable) :
    (anyIs sup ids t).1 = true ↔ ∃ x ∈ ids, x = sup ∨ sup ∈ (interfaces x t).1 := by
  induction ids generalizing t with
  | nil =>
    constructor
    · intro h
      cases h
    · rintro ⟨x, hx, _⟩
      cases hx
  | cons id rest ih =>
    have hconcurs := concurs_interfaces id t
    rw [anyIs]
    split
    · next heq => exact ⟨fun _ => ⟨id, List.mem_cons_self, .inl heq⟩, fun _ => rfl⟩
    · next hne =>
      rw [state_bind]
      split
      · next hmem =>
        exact ⟨fun _ => ⟨id, List.mem_cons_self, .inr (List.contains_iff_mem.1 hmem)⟩, fun _ => rfl⟩
      · next hmem =>
        rw [ih]
        constructor
        · rintro ⟨x, hx, h⟩
          exact ⟨x, List.mem_cons_of_mem id hx, h.imp_right fun h => by rwa [hconcurs.interfaces] at h⟩
        · rintro ⟨x, hx, h⟩
          rcases List.mem_cons.1 hx with rfl | hx
          · rcases h with h | h
            · exact absurd h hne
            · exact absurd (List.contains_iff_mem.2 h) hmem
          · exact ⟨x, hx, h.imp_right fun h => by rwa [hconcurs.interfaces]⟩

/-- One class is above the other, or is implemented by one that is. -/
def Descends (t : ClassTable) (sub sup : ClassId) : Prop :=
  ∃ x, Relation.ReflTransGen t.Above sub x ∧ (x = sup ∨ sup ∈ (interfaces x t).1)

theorem descends_iff : (anyIs sup (ancestry sub t).1 (ancestry sub t).2).1 = true ↔ t.Descends sub sup := by
  have hconcurs := concurs_ancestry sub t
  rw [anyIs_fst]
  constructor
  · rintro ⟨x, hx, h⟩
    exact ⟨x, mem_ancestry.1 hx, h.imp_right fun h => by rwa [hconcurs.interfaces] at h⟩
  · rintro ⟨x, hx, h⟩
    exact ⟨x, mem_ancestry.2 hx, h.imp_right fun h => by rwa [hconcurs.interfaces]⟩

theorem Descends.retains (h : t.Descends sub sup) (hr : t.Retains t') : t'.Descends sub sup := by
  obtain ⟨x, hx, h⟩ := h
  exact ⟨x, Relation.ReflTransGen.mono (fun y p hp => hr.supers y p hp) _ _ hx,
    h.imp_right fun hi => hr.interfaces x hi⟩

/-- Only classes that are there inherit, and from classes that are there. -/
theorem Descends.known (h : t.Descends sub sup) (ht : t.Moored) (hne : sub ≠ sup) :
    (∃ c, t.get? sub = some c) ∧ ∃ c, t.get? sup = some c := by
  have hleads : ∀ {y p}, t.Above y p → ∃ c, t.get? y = some c := by
    intro y p hp
    rw [Above, superclass_fst] at hp
    obtain ⟨c, hc, _⟩ := Option.bind_eq_some_iff.1 hp
    exact ⟨c, hc⟩
  obtain ⟨x, hx, h⟩ := h
  rcases h with rfl | hi
  · constructor
    · rcases Relation.ReflTransGen.cases_head hx with rfl | ⟨y, hy, _⟩
      · exact absurd rfl hne
      · exact hleads hy
    · rcases Relation.ReflTransGen.cases_tail hx with rfl | ⟨y, _, hy⟩
      · exact absurd rfl hne
      · exact ht.supers y _ hy
  · refine ⟨?_, ht.interfaces x sup hi⟩
    rcases Relation.ReflTransGen.cases_head hx with rfl | ⟨y, hy, _⟩
    · cases hc : t.get? sub with
      | some c => exact ⟨c, rfl⟩
      | none =>
        rw [interfaces_fst, hc] at hi
        cases hi
    · exact hleads hy

theorem Retains.elements? (hr : t.Retains t') (hsub : ∃ c, t.get? sub = some c)
    (hsup : ∃ c, t.get? sup = some c) : t'.elements? sub sup = t.elements? sub sup := by
  obtain ⟨c, hc⟩ := hsub
  obtain ⟨d, hd⟩ := hsup
  obtain ⟨c', hc', he⟩ := hr.known sub c hc
  obtain ⟨d', hd', he'⟩ := hr.known sup d hd
  unfold ClassTable.elements?
  rw [hc, hd, hc', hd']
  show (c'.element >>= _) = c.element >>= _
  rw [he]
  simp only [bind, Option.bind_some, he']

/-- More fuel is no harm. -/
theorem isWithin_retains (hr : t.Retains t') (ht : t.Moored) {fuel fuel' : Nat} (hfuel : fuel ≤ fuel')
    (h : (isWithin fuel sub sup t).1 = true) : (isWithin fuel' sub sup t').1 = true := by
  induction fuel generalizing sub sup fuel' with
  | zero =>
    have heq : sub = sup := of_decide_eq_true h
    subst heq
    cases fuel' with
    | zero => exact decide_eq_true rfl
    | succ fuel' =>
      rw [isWithin, if_pos rfl]
      rfl
  | succ fuel ih =>
    obtain ⟨fuel', rfl⟩ : ∃ n, fuel' = n + 1 := ⟨fuel' - 1, by omega⟩
    rw [isWithin] at h ⊢
    split
    · rfl
    · next hne =>
      rw [if_neg hne, state_get] at h
      rw [state_get]
      have hkept : ∀ pair, t.elements? sub sup = some pair → t'.elements? sub sup = some pair := by
        intro pair hpair
        obtain ⟨c, hc, h⟩ := Option.bind_eq_some_iff.1 hpair
        obtain ⟨a, _, h⟩ := Option.bind_eq_some_iff.1 h
        obtain ⟨d, hd, _⟩ := Option.bind_eq_some_iff.1 h
        rw [hr.elements? ⟨c, hc⟩ ⟨d, hd⟩, hpair]
      cases hpair : t.elements? sub sup with
      | some pair =>
        rw [hkept pair hpair]
        rw [hpair] at h
        obtain ⟨a, b⟩ := pair
        cases a with
        | primitive a =>
          cases b with
          | primitive b => exact h
          | reference b => cases h
        | reference a =>
          cases b with
          | primitive b => cases h
          | reference b => exact ih (Nat.le_of_succ_le_succ hfuel) h
      | none =>
        rw [hpair] at h
        have hdescends : t.Descends sub sup := descends_iff.1 h
        obtain ⟨hsub, hsup⟩ := hdescends.known ht hne
        rw [hr.elements? hsub hsup, hpair]
        exact descends_iff.2 (hdescends.retains hr)

theorem Retains.size_le (hr : t.Retains t') : t.size ≤ t'.size := by
  by_contra hlt
  have hlast : t'.size < t.size := by omega
  have hc : t.get? t'.size = some t.classes[t'.size] := Array.getElem?_eq_getElem hlast
  obtain ⟨c', hc', _⟩ := hr.known t'.size _ hc
  rw [get?_eq_none_of_size_le (Nat.le_refl _)] at hc'
  cases hc'

/-- A subtype stays one. -/
theorem Is.retains (h : t.Is sub sup) (hr : t.Retains t') (ht : t.Moored) : t'.Is sub sup := by
  have hsize := hr.size_le
  exact isWithin_retains hr ht (Nat.succ_le_succ hsize) h

theorem is_refl (t : ClassTable) (id : ClassId) : t.Is id id := by
  show (isWithin (t.size + 1) id id t).1 = true
  rw [isWithin, if_pos rfl]
  rfl

end Subtypes

section Asking

theorem concurs_anyIs (sup : ClassId) (ids : List ClassId) (t : ClassTable) :
    t.Concurs (anyIs sup ids t).2 := by
  induction ids generalizing t with
  | nil => exact .refl t
  | cons id rest ih =>
    rw [anyIs]
    split
    · exact .refl t
    · rw [state_bind]
      split
      · exact concurs_interfaces id t
      · exact (concurs_interfaces id t).trans (ih _)

theorem concurs_isWithin (fuel : Nat) (sub sup : ClassId) (t : ClassTable) :
    t.Concurs (isWithin fuel sub sup t).2 := by
  induction fuel generalizing sub sup with
  | zero => exact .refl t
  | succ fuel ih =>
    rw [isWithin]
    split
    · exact .refl t
    · rw [state_get]
      cases t.elements? sub sup with
      | none => exact (concurs_ancestry sub t).trans (concurs_anyIs sup _ _)
      | some pair =>
        obtain ⟨a, b⟩ := pair
        cases a with
        | primitive a => cases b <;> exact .refl t
        | reference a =>
          cases b with
          | primitive b => exact .refl t
          | reference b => exact ih a b

/-- To ask whether one class is a subtype of another is to look links up. -/
theorem concurs_isSubclass (sub sup : ClassId) (t : ClassTable) : t.Concurs (isSubclass sub sup t).2 :=
  concurs_isWithin (t.size + 1) sub sup t

theorem Concurs.elements? (h : t.Concurs t') (sub sup : ClassId) :
    t'.elements? sub sup = t.elements? sub sup := by
  have helement : ∀ x, (t'.get? x).map (·.element) = (t.get? x).map (·.element) := by
    intro x
    have hx := h.classes x
    generalize t.get? x = found at hx
    generalize t'.get? x = found' at hx
    cases hx with
    | none => rfl
    | some hlooks => exact congrArg some hlooks.element
  have hbind : ∀ (t : ClassTable) x, ((t.get? x).bind fun c => c.element) =
      ((t.get? x).map (·.element)).bind fun e => e := fun t x => by cases t.get? x <;> rfl
  have hsub : ((t'.get? sub).bind fun c => c.element) = (t.get? sub).bind fun c => c.element := by
    rw [hbind, hbind, helement]
  have hsup : ((t'.get? sup).bind fun c => c.element) = (t.get? sup).bind fun c => c.element := by
    rw [hbind, hbind, helement]
  have heq : ∀ t : ClassTable, t.elements? sub sup =
      ((t.get? sub).bind fun c => c.element).bind fun a =>
        ((t.get? sup).bind fun c => c.element).bind fun b => some (a, b) := fun t => by
    show ((t.get? sub).bind fun c => c.element.bind fun a => (t.get? sup).bind fun d =>
      d.element.bind fun b => some (a, b)) = _
    cases t.get? sub with
    | none => rfl
    | some c =>
      simp only [Option.bind_some]
      cases c.element with
      | none => rfl
      | some a => cases t.get? sup <;> rfl
  rw [heq t', heq t, hsub, hsup]

theorem Concurs.descends (h : t.Concurs t') : t'.Descends sub sup ↔ t.Descends sub sup := by
  have habove : t'.Above = t.Above := by
    funext x p
    exact congrArg (· = some p) (h.superclass x)
  unfold Descends
  rw [habove]
  simp only [h.interfaces]

theorem Concurs.size_eq (h : t.Concurs t') : t'.size = t.size := by
  refine Nat.le_antisymm ?_ h.retains.size_le
  by_contra hle
  have hlast : t.size < t'.size := by omega
  have hx := h.classes t.size
  have hnone : t.get? t.size = none := get?_eq_none_of_size_le (Nat.le_refl _)
  have hsome : t'.get? t.size = some t'.classes[t.size] := Array.getElem?_eq_getElem hlast
  rw [hnone, hsome] at hx
  cases hx

theorem Concurs.isWithin (h : t.Concurs t') (fuel : Nat) (sub sup : ClassId) :
    (ClassTable.isWithin fuel sub sup t').1 = (ClassTable.isWithin fuel sub sup t).1 := by
  induction fuel generalizing sub sup with
  | zero => rfl
  | succ fuel ih =>
    unfold ClassTable.isWithin
    split
    · rfl
    · rw [state_get, state_get, h.elements?]
      cases t.elements? sub sup with
      | none => exact Bool.eq_iff_iff.2 (descends_iff.trans (h.descends.trans descends_iff.symm))
      | some pair =>
        obtain ⟨a, b⟩ := pair
        cases a with
        | primitive a => cases b <;> rfl
        | reference a =>
          cases b with
          | primitive b => rfl
          | reference b => exact ih a b

/-- What was looked up does not change the answer. -/
theorem Concurs.isSubclass (h : t.Concurs t') (sub sup : ClassId) :
    (ClassTable.isSubclass sub sup t').1 = (ClassTable.isSubclass sub sup t).1 := by
  show (ClassTable.isWithin (t'.size + 1) sub sup t').1 = (ClassTable.isWithin (t.size + 1) sub sup t).1
  rw [h.size_eq]
  exact h.isWithin _ sub sup

end Asking

end ClassTable

end ClassMachine
