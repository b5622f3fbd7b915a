import ClassMachine.Proofs.Link.Arrays
import ClassMachine.Proofs.Link.Loading
import ClassMachine.Proofs.Snapshot.Failure
import ClassMachine.Proofs.Snapshot.Likeness

/-!
Classes of an image in the table they are looked up in. Where the same classes have been declared in
the same order, every class an image lists is found, or made if it is a class of arrays, and is
declared as it was.
-/
namespace ClassMachine
open Stateful ClassMachine.Lists

namespace Snapshot

/-- Two tables with the same declared classes, the first of them before the second in both. -/
structure Counterparts (t t' : ClassTable) : Prop where
  regular : t.Regular
  regular' : t'.Regular
  declared : ∀ id c, t.get? id = some c → c.isArray = false →
    ∃ id' c', t'.get? id' = some c' ∧ c'.isArray = false ∧ c'.declaration = c.declaration
  declared' : ∀ id' c', t'.get? id' = some c' → c'.isArray = false →
    ∃ id c, t.get? id = some c ∧ c.isArray = false ∧ c'.declaration = c.declaration
  ordered : ∀ {id₁ id₂ c₁ c₂ id₁' id₂' c₁' c₂'}, t.get? id₁ = some c₁ → t.get? id₂ = some c₂ →
    c₁.isArray = false → c₂.isArray = false → t'.get? id₁' = some c₁' → t'.get? id₂' = some c₂' →
    c₁'.name = c₁.name → c₂'.name = c₂.name → id₁ < id₂ → id₁' < id₂'

theorem ids_ascending {t : ClassTable} (h : t.Regular) :
    t.classes.toList.Pairwise fun a b => a.id < b.id := by
  rw [List.pairwise_iff_getElem]
  intro i j hi hj hij
  have hid : ∀ k (hk : k < t.classes.toList.length), (t.classes.toList[k]).id = k := by
    intro k hk
    have hget : t.get? k = some t.classes.toList[k] := by
      unfold ClassTable.get?
      rw [← Array.getElem?_toList, List.getElem?_eq_getElem hk]
    exact (h.listed k _ hget).1.numbered
  rw [hid, hid]
  exact hij

theorem counterparts_of_declarations {t t' : ClassTable} (ht : t.Regular) (ht' : t'.Regular)
    (h : t'.declarations = t.declarations) : Counterparts t t' := by
  have hdeclared : ∀ {t t' : ClassTable}, t'.declarations = t.declarations → ∀ id c, t.get? id = some c →
      c.isArray = false → ∃ id' c', t'.get? id' = some c' ∧ c'.isArray = false ∧
        c'.declaration = c.declaration := by
    intro t t' h id c hc harray
    exact ClassTable.mem_declarations.1 (h ▸ ClassTable.mem_declarations.2 ⟨id, c, hc, harray, rfl⟩)
  refine ⟨ht, ht', hdeclared h, fun id' c' hc' harray => ?_, ?_⟩
  · obtain ⟨id, c, hc, harray', hd⟩ := hdeclared h.symm id' c' hc' harray
    exact ⟨id, c, hc, harray', hd.symm⟩
  · intro id₁ id₂ c₁ c₂ id₁' id₂' c₁' c₂' hc₁ hc₂ harray₁ harray₂ hc₁' hc₂' hname₁ hname₂ hlt
    have hpair : [c₁, c₂].Sublist (t.classes.toList.filter (!·.isArray)) := by
      have hsublist : [c₁, c₂].Sublist t.classes.toList := pair_sublist
        (by rw [Array.getElem?_toList]; exact hc₁) (by rw [Array.getElem?_toList]; exact hc₂) hlt
      have hfilter := hsublist.filter (!·.isArray)
      simpa [harray₁, harray₂] using hfilter
    have hdeclarations : [c₁.declaration, c₂.declaration].Sublist t'.declarations :=
      h ▸ hpair.map ClassInfo.declaration
    obtain ⟨l, hl, heq⟩ := List.sublist_map_iff.1 hdeclarations
    obtain ⟨x, rest, rfl, hx, htail⟩ := List.map_eq_cons_iff.1 heq.symm
    obtain ⟨y, rfl, hy⟩ := List.map_eq_singleton_iff.1 htail
    have hsub : [x, y].Sublist t'.classes.toList := hl.trans List.filter_sublist
    have hids := (ids_ascending ht').sublist hsub
    have hnumber : ∀ {z c c' : ClassInfo} {id' : ClassId}, z ∈ [x, y] → z.declaration = c.declaration →
        t'.get? id' = some c' → c'.name = c.name → z.id = id' := by
      intro z c c' id' hz hd hc' hname
      obtain ⟨id, hget⟩ := ClassTable.mem_toList.1 (hsub.subset hz)
      have hzname : z.name = c.name := congrArg ClassDefinition.name hd
      rw [(ht'.listed id z hget).1.numbered]
      exact ht'.eq_of_name hc' hget (hzname.trans hname.symm)
    rw [← hnumber (by simp) hx hc₁' hname₁, ← hnumber (by simp) hy hc₂' hname₂]
    simpa using hids

namespace Counterparts

variable {t t' t'' : ClassTable}

/-- A class of the second table that has the name of one of the first is declared like it. -/
theorem declaration_of_name (h : Counterparts t t') {id id' : ClassId} {c c' : ClassInfo}
    (hc : t.get? id = some c) (hc' : t'.get? id' = some c') (hname : c'.name = c.name) :
    c'.declaration = c.declaration := by
  cases harray : c.isArray with
  | false =>
    obtain ⟨id₀, c₀, hc₀, _, hd⟩ := h.declared id c hc harray
    have hid := h.regular'.eq_of_name hc₀ hc' (hname.trans (congrArg ClassDefinition.name hd).symm)
    subst hid
    cases hc₀.symm.trans hc'
    exact hd
  | true =>
    cases harray' : c'.isArray with
    | false =>
      obtain ⟨id₀, c₀, hc₀, harray₀, hd⟩ := h.declared' id' c' hc' harray'
      have hid := h.regular.eq_of_name hc hc₀ ((congrArg ClassDefinition.name hd).symm.trans hname)
      subst hid
      cases hc.symm.trans hc₀
      rw [harray] at harray₀
      cases harray₀
    | true =>
      have hmade := (h.regular.listed id c hc).2.made harray
      have hmade' := (h.regular'.listed id' c' hc').2.made harray'
      exact hmade.declaration hmade' hname

theorem grows (h : Counterparts t t') (hg : t'.Grows t'') : Counterparts t t'' := by
  have hregular := h.regular'.grows hg
  have hback : ∀ {id c id'' c''}, t.get? id = some c → c.isArray = false → t''.get? id'' = some c'' →
      c''.name = c.name → ∃ c', t'.get? id'' = some c' ∧ c'.name = c.name := by
    intro id c id'' c'' hc harray hc'' hname
    obtain ⟨id', c', hc', _, hd⟩ := h.declared id c hc harray
    have hname' : c'.name = c.name := congrArg ClassDefinition.name hd
    obtain ⟨d, hd'', hp⟩ := hg.known id' c' hc'
    have hdname : d.name = c'.name := congrArg ClassDefinition.name hp.declaration.1
    have hid := hregular.eq_of_name hc'' hd'' (hdname.trans (hname'.trans hname.symm))
    exact ⟨c', hid ▸ hc', hname'⟩
  refine ⟨h.regular, hregular, fun id c hc harray => ?_, fun id'' c'' hc'' harray => ?_, ?_⟩
  · obtain ⟨id', c', hc', harray', hd⟩ := h.declared id c hc harray
    obtain ⟨c'', hc'', hp⟩ := hg.known id' c' hc'
    exact ⟨id', c'', hc'', hp.declaration.2.trans harray', hp.declaration.1.trans hd⟩
  · cases hc' : t'.get? id'' with
    | none =>
      have hmade := (hg.added id'' c'' hc' hc'').1
      rw [hmade.isArray] at harray
      cases harray
    | some c' =>
      obtain ⟨d, hd, hp⟩ := hg.known id'' c' hc'
      cases hc''.symm.trans hd
      obtain ⟨id, c, hc, harray', hdeclared⟩ :=
        h.declared' id'' c' hc' (hp.declaration.2.symm.trans harray)
      exact ⟨id, c, hc, harray', hp.declaration.1.trans hdeclared⟩
  · intro id₁ id₂ c₁ c₂ id₁' id₂' c₁' c₂' hc₁ hc₂ harray₁ harray₂ hc₁' hc₂' hname₁ hname₂ hlt
    obtain ⟨d₁, hd₁, hdname₁⟩ := hback hc₁ harray₁ hc₁' hname₁
    obtain ⟨d₂, hd₂, hdname₂⟩ := hback hc₂ harray₂ hc₂' hname₂
    exact h.ordered hc₁ hc₂ harray₁ harray₂ hd₁ hd₂ hdname₁ hdname₂ hlt

theorem provides (h : Counterparts t t') {component : FieldType} (hp : t.Provides component) :
    t'.Provides component := by
  induction component with
  | primitive kind => trivial
  | object name =>
    obtain ⟨id, c, hc, hl, harray⟩ := hp
    obtain ⟨c₀, hc₀, hname⟩ := h.regular.named name id hl
    cases hc.symm.trans hc₀
    obtain ⟨id', c', hc', harray', hd⟩ := h.declared id c hc harray
    have hname' : c'.name = name := (congrArg ClassDefinition.name hd).trans hname
    exact ⟨id', c', hc', hname' ▸ h.regular'.lookup? hc', harray'⟩
  | array inner ih => exact ih hp

end Counterparts

/-- A class that can be had wherever the declared classes of `t` are: it is one of them, or a class
of arrays made of one of them or of a primitive type. -/
def Portable (t : ClassTable) (c : ClassInfo) : Prop :=
  c.isArray = true → ∃ component, FieldType.parse c.name = .ok (.array component) ∧ t.Provides component

/-- An image's name for a class leads to a class that is declared like it. -/
def Resolves (t t' : ClassTable) (classes : Resolved) (id : ClassId) : Prop :=
  ∃ c id', t.get? id = some c ∧ classes.find c.name = .ok id' ∧ Matches t t' id id'

theorem Resolves.grows {t t' t'' : ClassTable} {classes : Resolved} {id : ClassId}
    (h : Resolves t t' classes id) (hg : t'.Grows t'') : Resolves t t'' classes id := by
  obtain ⟨c, id', hc, hfind, hmatches⟩ := h
  exact ⟨c, id', hc, hfind, hmatches.keeps hg.keeps⟩

/-- A listed class is found, or made, and has the hash it is listed with. -/
theorem resolveClass_ok {t : ClassTable} {l : Linker} {id : ClassId} {c : ClassInfo}
    (h : Counterparts t l.classes) (hc : t.get? id = some c) (hportable : Portable t c) :
    ∃ id' l', resolveClass ⟨c.name, c.structuralHash⟩ l = .ok (c.name, id') l' ∧ l.Grows l' ∧
      l'.classes.lookup? c.name = some id' := by
  have hsource : (l.classes.lookup? c.name).isSome ∨ ∃ component,
      FieldType.parse c.name = .ok (.array component) ∧ l.classes.Provides component := by
    cases harray : c.isArray with
    | true =>
      obtain ⟨component, hparse, hprovides⟩ := hportable harray
      exact .inr ⟨component, hparse, h.provides hprovides⟩
    | false =>
      obtain ⟨id', c', hc', _, hd⟩ := h.declared id c hc harray
      have hname : c'.name = c.name := congrArg ClassDefinition.name hd
      exact .inl (Option.isSome_of_eq_some (hname ▸ h.regular'.lookup? hc'))
  obtain ⟨id', hfst⟩ := ClassTable.resolveName_found hsource
  have hlookup := ClassTable.lookup?_resolveName hfst
  have hgrows := ClassTable.resolveName_grows c.name l.classes
  have hcounter := h.grows hgrows
  obtain ⟨c', hc', hname⟩ := hcounter.regular'.named c.name id' hlookup
  have hhash := ClassInfo.structuralHash_congr (hcounter.declaration_of_name hc hc' hname)
  let l' : Linker := { l with classes := (ClassTable.resolveName c.name l.classes).2 }
  have hfound : findClass c.name l = .ok (some c') l' := by
    show EStateM.Result.ok ((ClassTable.resolveName c.name l.classes).1.bind _) l' = _
    rw [hfst]
    exact congrArg (EStateM.Result.ok · l') hc'
  refine ⟨id', l', ?_, Linker.grows_classes hgrows, hlookup⟩
  unfold resolveClass
  rw [bind_of_ok hfound]
  dsimp only
  rw [hhash, (hcounter.regular'.listed id' c' hc').1.numbered, if_neg (by simp)]
  rfl

theorem classRecords_entries (found : List ClassInfo) (names : Std.ExtTreeMap String ClassInfo) :
    let byName := found.foldl (fun names c => names.insertIfNew c.name c) names
    (∀ (k : String) c, byName[k]? = some c → names[k]? = some c ∨ c ∈ found ∧ c.name = k) ∧
      ∀ k : String, (names[k]?.isSome ∨ ∃ c ∈ found, c.name = k) → byName[k]?.isSome := by
  induction found generalizing names with
  | nil => exact ⟨fun _ _ h => .inl h, fun _ h => by simpa using h⟩
  | cons c found ih =>
    obtain ⟨hfrom, hto⟩ := ih (names.insertIfNew c.name c)
    refine ⟨fun k d hd => ?_, fun k hk => hto k ?_⟩
    · rcases hfrom k d hd with hd | ⟨hmem, hname⟩
      · rw [Std.ExtTreeMap.getElem?_insertIfNew] at hd
        split at hd
        · next hnew =>
          cases hd
          exact .inr ⟨by simp, Std.LawfulEqCmp.eq_of_compare hnew.1⟩
        · exact .inl hd
      · exact .inr ⟨by simp [hmem], hname⟩
    · rw [Std.ExtTreeMap.getElem?_insertIfNew]
      split
      · exact .inl rfl
      · next hold =>
        rcases hk with hk | ⟨d, hd, rfl⟩
        · exact .inl hk
        · rcases List.mem_cons.1 hd with rfl | hd
          · refine .inl (Std.ExtTreeMap.mem_iff_isSome_getElem?.1 ?_)
            by_contra hnew
            exact hold ⟨Std.ReflCmp.compare_self, hnew⟩
          · exact .inr ⟨d, hd, rfl⟩

/-- The listed classes are those that were mentioned. -/
theorem mem_classRecords {t : ClassTable} {ids : List ClassId} {record : ClassRecord}
    (h : record ∈ classRecords t ids) :
    ∃ id ∈ ids, ∃ c, t.get? id = some c ∧ record = ⟨c.name, c.structuralHash⟩ := by
  obtain ⟨⟨name, c⟩, hentry, rfl⟩ := List.mem_map.1 h
  have hget := Std.ExtTreeMap.mem_toList_iff_getElem?_eq_some.1 hentry
  rcases (classRecords_entries (ids.filterMap t.get?) ∅).1 name c hget with hnone | ⟨hmem, rfl⟩
  · simp at hnone
  · obtain ⟨id, hid, hc⟩ := List.mem_filterMap.1 hmem
    exact ⟨id, hid, c, hc, rfl⟩

theorem exists_classRecord {t : ClassTable} {ids : List ClassId} {id : ClassId} {c : ClassInfo}
    (hid : id ∈ ids) (hc : t.get? id = some c) : ∃ record ∈ classRecords t ids, record.name = c.name := by
  have hmem : c ∈ ids.filterMap t.get? := List.mem_filterMap.2 ⟨id, hid, hc⟩
  have hsome := (classRecords_entries (ids.filterMap t.get?) ∅).2 c.name (.inr ⟨c, hmem, rfl⟩)
  obtain ⟨d, hd⟩ := Option.isSome_iff_exists.1 hsome
  refine ⟨⟨c.name, d.structuralHash⟩, List.mem_map.2 ⟨(c.name, d), ?_, rfl⟩, rfl⟩
  exact Std.ExtTreeMap.mem_toList_iff_getElem?_eq_some.2 hd

/-- All listed classes are found under their names. -/
theorem resolveClasses_ok {t : ClassTable} {records : List ClassRecord} {l : Linker}
    (h : Counterparts t l.classes)
    (hrecords : ∀ record ∈ records, ∃ id c, t.get? id = some c ∧ Portable t c ∧
      record = ⟨c.name, c.structuralHash⟩) :
    ∃ (classes : Resolved) (l' : Linker), records.mapM resolveClass l = .ok classes l' ∧ l.Grows l' ∧
      ∀ record ∈ records, ∃ id', classes.find record.name = .ok id' ∧
        l'.classes.lookup? record.name = some id' := by
  induction records generalizing l with
  | nil => exact ⟨[], l, rfl, .refl l, by simp⟩
  | cons record records ih =>
    obtain ⟨id, c, hc, hportable, rfl⟩ := hrecords record (by simp)
    obtain ⟨id', l₁, hfirst, hgrows₁, hlookup⟩ := resolveClass_ok h hc hportable
    obtain ⟨classes, l₂, hrest, hgrows₂, hfound⟩ := ih (h.grows hgrows₁.classes) fun record hr =>
      hrecords record (by simp [hr])
    refine ⟨(c.name, id') :: classes, l₂, ?_, hgrows₁.trans hgrows₂, fun record hr => ?_⟩
    · rw [List.mapM_cons, bind_of_ok hfirst, bind_of_ok hrest]
      rfl
    · have hhead : l₂.classes.lookup? c.name = some id' := hgrows₂.classes.names _ _ hlookup
      unfold Resolved.find
      by_cases hname : record.name = c.name
      · rw [hname, List.lookup_cons_self]
        exact ⟨id', rfl, hhead⟩
      · rw [List.lookup_cons, beq_false_of_ne hname]
        rcases List.mem_cons.1 hr with rfl | hr
        · exact absurd rfl hname
        · exact hfound record hr

/-- Every class that was mentioned is found where the image is restored. -/
theorem resolveMentioned_ok {t : ClassTable} {ids : List ClassId} {l : Linker}
    (h : Counterparts t l.classes) (hids : ∀ id ∈ ids, ∃ c, t.get? id = some c ∧ Portable t c) :
    ∃ (classes : Resolved) (l' : Linker), (classRecords t ids).mapM resolveClass l = .ok classes l' ∧ l.Grows l' ∧
      ∀ id ∈ ids, Resolves t l'.classes classes id := by
  have hrecords : ∀ record ∈ classRecords t ids, ∃ id c, t.get? id = some c ∧ Portable t c ∧
      record = ⟨c.name, c.structuralHash⟩ := by
    intro record hrecord
    obtain ⟨id, hid, c, hc, rfl⟩ := mem_classRecords hrecord
    obtain ⟨c', hc', hportable⟩ := hids id hid
    cases hc.symm.trans hc'
    exact ⟨id, c, hc, hportable, rfl⟩
  obtain ⟨classes, l', hrun, hgrows, hfound⟩ := resolveClasses_ok h hrecords
  refine ⟨classes, l', hrun, hgrows, fun id hid => ?_⟩
  have hcounter := h.grows hgrows.classes
  obtain ⟨c, hc, _⟩ := hids id hid
  obtain ⟨record, hrecord, hname⟩ := exists_classRecord hid hc
  obtain ⟨id', hfind, hlookup⟩ := hfound record hrecord
  rw [hname] at hfind hlookup
  obtain ⟨c', hc', hname'⟩ := hcounter.regular'.named c.name id' hlookup
  exact ⟨c, id', hc, hfind, c, c', hc, hc', hcounter.declaration_of_name hc hc' hname'⟩

end Snapshot

end ClassMachine
