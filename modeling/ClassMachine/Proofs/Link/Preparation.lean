import ClassMachine.Proofs.Link.Lineage

/-!
Preparation in whatever order. A class is laid out after its superclasses, and only once their links
are set. So its slots follow those of the superclasses it is linked to, however the table came about,
and any two tables in which it is declared alike and has the same chain number its fields alike.
-/
namespace ClassMachine
open Stateful

namespace ClassTable

/-- A change that concerns neither hierarchy nor layouts. -/
structure Spares (t t' : ClassTable) : Prop where
  names : t'.byName = t.byName
  classes : ∀ id, (t'.get? id).map ClassInfo.skeleton = (t.get? id).map ClassInfo.skeleton

/-- What becomes of a class table: classes are added that have no layout yet, superclasses are looked
for, and classes are prepared. Nothing else touches hierarchy and layouts. -/
inductive Becomes (t : ClassTable) : ClassTable → Prop
  | same : Becomes t t
  | added {t₁ t₂ : ClassTable} {name : String} {build : ClassId → ClassInfo} {id : ClassId}
      (h : Becomes t t₁) (hinsert : t₁.insert name build = .ok (id, t₂))
      (hlayout : (build id).layout = none)
      (hlink : ∀ link, (build id).superLink = some link → link = (build id).superName.bind t₁.lookup?) :
      Becomes t t₂
  | linked {t₁ : ClassTable} (h : Becomes t t₁) (id : ClassId) : Becomes t (superclass id t₁).2
  | prepared {l : Linker} (h : Becomes t l.classes) (id : ClassId) :
      Becomes t (Linker.prepare id l).2.classes
  | aside {t₁ t₂ : ClassTable} (h : Becomes t t₁) (hspares : t₁.Spares t₂) : Becomes t t₂

/-- Classes whose chain ends are laid out behind the superclasses in it. -/
def InLine (t : ClassTable) : Prop :=
  ∀ id c ids kinds, t.get? id = some c → c.layout.isSome → t.Line id ids kinds →
    c.layout = some (Linker.extendLayout kinds c) ∧
      c.fields.toList = Linker.numberFields kinds.length c.fields.toList

/-- A class that was laid out. -/
def Laid (t : ClassTable) (id : ClassId) : Prop := ∃ c, t.get? id = some c ∧ c.layout.isSome

/-- A class table as it comes about: names and links lead to classes, and a class is laid out only
after its superclasses and behind them. -/
structure Orderly (t : ClassTable) : Prop where
  named : ∀ name id, t.lookup? name = some id → ∃ c, t.get? id = some c
  linked : ∀ id c parent, t.get? id = some c → c.superLink = some (some parent) → ∃ p, t.get? parent = some p
  upward : t.Followed t.Laid
  inLine : t.InLine

/-- A change by which no class is laid out. -/
structure Steady (t t' : ClassTable) : Prop where
  settles : t.Settles t'
  named : ∀ name id, t'.lookup? name = some id → ∃ c, t'.get? id = some c
  linked : ∀ id c parent, t'.get? id = some c → c.superLink = some (some parent) → ∃ p, t'.get? parent = some p
  laid : ∀ id, t'.Laid id → t.Laid id

variable {t t' t₁ t₂ : ClassTable} {id : ClassId} {ids : List ClassId} {kinds : List Kind}

theorem orderly_empty : ({} : ClassTable).Orderly := by
  have hnone : ∀ id, ({} : ClassTable).get? id = none := fun _ => rfl
  refine ⟨fun name id h => ?_, fun id c _ h => ?_, ?_, fun id c _ _ h => ?_⟩
  · rw [show ({} : ClassTable).lookup? name = none from Std.ExtTreeMap.getElem?_empty] at h
    cases h
  · rw [hnone] at h
    cases h
  · rintro id ⟨c, hc, _⟩
    rw [hnone] at hc
    cases hc
  · rw [hnone] at h
    cases h

theorem Settles.laid (hs : t.Settles t') (h : t.Laid id) : t'.Laid id := by
  obtain ⟨c, hc, hlaid⟩ := h
  obtain ⟨c', hc', hsettles⟩ := hs id c hc
  exact ⟨c', hc', hsettles.isSome_layout hlaid⟩

/-- What is above a class that was laid out stays laid out above it. -/
theorem Orderly.upward_later (ht : t.Orderly) (hs : t.Settles t') (h : t.Laid id) :
    ∃ c' link, t'.get? id = some c' ∧ c'.superLink = some link ∧
      ∀ parent, link = some parent → t'.Laid parent := by
  obtain ⟨c, link, hc, hlink, hparent⟩ := ht.upward id h
  obtain ⟨c', hc', hsettles⟩ := hs id c hc
  exact ⟨c', link, hc', hsettles.superLink _ hlink, fun parent hp => hs.laid (hparent parent hp)⟩

theorem Orderly.steady (ht : t.Orderly) (h : t.Steady t') : t'.Orderly := by
  refine ⟨h.named, h.linked, fun x hx => ht.upward_later h.settles (h.laid x hx), ?_⟩
  intro id c' ids kinds hc' hlaid' hline
  obtain ⟨c, hc, hlaid⟩ := h.laid id ⟨c', hc', hlaid'⟩
  have hbefore := (hline.before h.settles ht.upward ⟨c, hc, hlaid⟩).1
  obtain ⟨hlayout, hfields⟩ := ht.inLine id c ids kinds hc hlaid hbefore
  have hsettles := h.settles.of_get? hc hc'
  rw [Linker.extendLayout_bare hsettles.bare, hsettles.fields_eq hlaid]
  exact ⟨(hsettles.layout _ hlayout).1, hfields⟩

theorem Spares.exists_left (h : t.Spares t') {c' : ClassInfo} (hc' : t'.get? id = some c') :
    ∃ c, t.get? id = some c ∧ c'.skeleton = c.skeleton := by
  have hid := h.classes id
  rw [hc', Option.map_some] at hid
  obtain ⟨c, hc, heq⟩ := Option.map_eq_some_iff.1 hid.symm
  exact ⟨c, hc, heq.symm⟩

theorem Spares.symm (h : t.Spares t') : t'.Spares t := ⟨h.names.symm, fun id => (h.classes id).symm⟩

theorem Spares.settles (h : t.Spares t') : t.Settles t' := by
  intro id c hc
  obtain ⟨c', hc', heq⟩ := h.symm.exists_left hc
  exact ⟨c', hc', .of_skeleton heq.symm⟩

theorem Spares.steady (h : t.Spares t') (ht : t.Orderly) : t.Steady t' := by
  refine ⟨h.settles, fun name id hl => ?_, fun id c' parent hc' hlink => ?_, ?_⟩
  · unfold lookup? at hl
    rw [h.names] at hl
    exact h.settles.known (ht.named name id hl)
  · obtain ⟨c, hc, heq⟩ := h.exists_left hc'
    rw [show c'.superLink = c.superLink from congrArg (·.2.1) heq] at hlink
    exact h.settles.known (ht.linked id c parent hc hlink)
  · rintro id ⟨c', hc', hlaid⟩
    obtain ⟨c, hc, heq⟩ := h.exists_left hc'
    rw [show c'.layout = c.layout from congrArg (·.2.2.2) heq] at hlaid
    exact ⟨c, hc, hlaid⟩

theorem spares_record (t : ClassTable) (severity : Severity) (subject message : String) :
    t.Spares (t.record severity subject message) := ⟨rfl, fun _ => rfl⟩

theorem settles_insert {name : String} {build : ClassId → ClassInfo}
    (h : t.insert name build = .ok (id, t')) : t.Settles t' := by
  obtain ⟨_, _, _, hclasses, _⟩ := insert_eq h
  intro x c hc
  refine ⟨c, ?_, .of_skeleton rfl⟩
  rw [get?_push hclasses, if_neg, hc]
  rintro rfl
  rw [get?_eq_none_of_size_le (Nat.le_refl _)] at hc
  cases hc

theorem steady_insert (ht : t.Orderly) {name : String} {build : ClassId → ClassInfo}
    (h : t.insert name build = .ok (id, t')) (hlayout : (build id).layout = none)
    (hlink : ∀ parent, (build id).superLink = some (some parent) → ∃ name, t.lookup? name = some parent) :
    t.Steady t' := by
  have hsettles := settles_insert h
  obtain ⟨rfl, _, _, hclasses, hlookup⟩ := insert_eq h
  have hget := get?_push hclasses
  refine ⟨hsettles, fun name' id hl => ?_, fun id c' parent hc' hlink' => ?_, ?_⟩
  · rw [hlookup] at hl
    split at hl
    · cases hl
      exact ⟨_, by rw [hget, if_pos rfl]⟩
    · exact hsettles.known (ht.named name' id hl)
  · rw [hget] at hc'
    split at hc'
    · cases hc'
      obtain ⟨name', hl⟩ := hlink parent hlink'
      exact hsettles.known (ht.named name' parent hl)
    · exact hsettles.known (ht.linked id c' parent hc' hlink')
  · rintro id ⟨c', hc', hlaid⟩
    rw [hget] at hc'
    split at hc'
    · cases hc'
      rw [hlayout] at hlaid
      cases hlaid
    · exact ⟨c', hc', hlaid⟩

/-- A superclass that is found was linked before or is found by its name. -/
theorem superclass_named {c : ClassInfo} {parent : ClassId} (hc : t.get? id = some c)
    (h : (superclass id t).1 = some parent) :
    c.superLink = some (some parent) ∨ ∃ name, t.lookup? name = some parent := by
  rw [superclass_fst, hc, Option.bind_some] at h
  cases hlink : c.superLink with
  | some link =>
    rw [hlink] at h
    exact .inl (congrArg some h)
  | none =>
    rw [hlink] at h
    obtain ⟨name, _, hl⟩ := Option.bind_eq_some_iff.1 h
    exact .inr ⟨name, hl⟩

theorem steady_superclass (ht : t.Orderly) (id : ClassId) : t.Steady (superclass id t).2 := by
  have hsettles := superclass_settles id t
  have hget := fun x => get?_superclass id x t
  refine ⟨hsettles, fun name id' hl => ?_, fun id' c' parent hc' hlink' => ?_, ?_⟩
  · unfold lookup? at hl
    rw [byName_superclass] at hl
    exact hsettles.known (ht.named name id' hl)
  · rw [hget] at hc'
    split at hc'
    · next heq =>
      subst heq
      obtain ⟨c, hc, rfl⟩ := Option.map_eq_some_iff.1 hc'
      rcases superclass_named hc (Option.some.inj hlink') with hlink | ⟨name, hl⟩
      · exact hsettles.known (ht.linked id c parent hc hlink)
      · exact hsettles.known (ht.named name parent hl)
    · exact hsettles.known (ht.linked id' c' parent hc' hlink')
  · rintro id' ⟨c', hc', hlaid⟩
    rw [hget] at hc'
    split at hc'
    · obtain ⟨c, hc, rfl⟩ := Option.map_eq_some_iff.1 hc'
      exact ⟨c, hc, hlaid⟩
    · exact ⟨c', hc', hlaid⟩

theorem Orderly.climb (ht : t.Orderly) (origin : ClassId) (fuel : Nat) (chain : List ClassId)
    (current : ClassId) : (climb origin fuel chain current t).2.Orderly := by
  induction fuel generalizing chain current t with
  | zero => exact ht
  | succ fuel ih =>
    have hsuper := ht.steady (steady_superclass ht current)
    rw [ClassTable.climb, state_bind]
    generalize superclass current t = r at hsuper
    obtain ⟨link, t₁⟩ := r
    cases link with
    | none => exact hsuper
    | some parent =>
      dsimp only
      split
      · exact hsuper.steady ((spares_record t₁ _ _ _).steady hsuper)
      · exact ih hsuper _ _

theorem Orderly.ancestry (ht : t.Orderly) (id : ClassId) : (ancestry id t).2.Orderly := ht.climb _ _ _ _

theorem findInterfaces_log (owner : String) (names : List String) (t : ClassTable) :
    ∃ log, (findInterfaces owner names t).2 = { t with log := log } := by
  induction names generalizing t with
  | nil => exact ⟨t.log, rfl⟩
  | cons name rest ih =>
    rw [findInterfaces, state_get]
    cases t.lookup? name with
    | some id => exact ih t
    | none => exact ih (t.record .warning owner s!"missing interface {name}")

/-- Asking for the interfaces of a class sets its links and does nothing else. -/
theorem get?_interfaces (id x : ClassId) (t : ClassTable) :
    (interfaces id t).2.get? x =
      if id = x then (t.get? x).map fun c => { c with interfaceLinks := some (interfaces id t).1 }
      else t.get? x := by
  rw [interfaces, state_get]
  cases hc : t.get? id with
  | none =>
    show t.get? x = _
    split
    · next heq => rw [← heq, hc]; rfl
    · rfl
  | some c =>
    dsimp only
    cases hlinks : c.interfaceLinks with
    | some links =>
      show t.get? x = _
      split
      · next heq =>
        rw [← heq, hc, Option.map_some]
        show some c = some { c with interfaceLinks := some links }
        rw [← hlinks]
      · rfl
    | none =>
      obtain ⟨log, hlog⟩ := findInterfaces_log c.name c.interfaceNames t
      show ((findInterfaces c.name c.interfaceNames t).2.update id _).get? x = _
      rw [get?_update, hlog]
      rfl

theorem byName_interfaces (id : ClassId) (t : ClassTable) : (interfaces id t).2.byName = t.byName := by
  rw [interfaces, state_get]
  cases t.get? id with
  | none => rfl
  | some c =>
    dsimp only
    cases c.interfaceLinks with
    | some links => rfl
    | none =>
      obtain ⟨log, hlog⟩ := findInterfaces_log c.name c.interfaceNames t
      show (findInterfaces c.name c.interfaceNames t).2.byName = _
      rw [hlog]

theorem spares_interfaces (id : ClassId) (t : ClassTable) : t.Spares (interfaces id t).2 := by
  refine ⟨byName_interfaces id t, fun x => ?_⟩
  rw [get?_interfaces]
  split
  · rw [Option.map_map]
    rfl
  · rfl

/-- The classes in `ids` were laid out, and nothing else was done. -/
structure Lays (ids : List ClassId) (t t' : ClassTable) : Prop where
  settles : t.Settles t'
  names : t'.byName = t.byName
  links : ∀ x c', t'.get? x = some c' → ∃ c, t.get? x = some c ∧ c.superLink = c'.superLink
  before : ∀ x, t'.Laid x → t.Laid x ∨ x ∈ ids
  laid : ∀ x ∈ ids, ∀ c', t'.get? x = some c' → c'.layout.isSome

theorem Lays.nil (t : ClassTable) : Lays [] t t :=
  ⟨.refl t, rfl, fun _ c hc => ⟨c, hc, rfl⟩, fun _ => .inl, fun _ hx => by cases hx⟩

theorem Lays.append {ids ids' : List ClassId} (h : Lays ids t t₁) (h' : Lays ids' t₁ t₂) :
    Lays (ids ++ ids') t t₂ := by
  refine ⟨h.settles.trans h'.settles, h'.names.trans h.names, fun x c₂ hc₂ => ?_, fun x hx => ?_,
    fun x hx c₂ hc₂ => ?_⟩
  · obtain ⟨c₁, hc₁, hlink₁⟩ := h'.links x c₂ hc₂
    obtain ⟨c, hc, hlink⟩ := h.links x c₁ hc₁
    exact ⟨c, hc, hlink.trans hlink₁⟩
  · rcases h'.before x hx with hx | hx
    · exact (h.before x hx).imp id (List.mem_append_left _)
    · exact .inr (List.mem_append_right _ hx)
  · rcases List.mem_append.1 hx with hx | hx
    · obtain ⟨c₁, hc₁, _⟩ := h'.links x c₂ hc₂
      exact (h'.settles.of_get? hc₁ hc₂).isSome_layout (h.laid x hx c₁ hc₁)
    · exact h'.laid x hx c₂ hc₂

/-- A chain that ends after classes were laid out ended before. -/
theorem Lays.line (h : Lays ids t t') {id : ClassId} {line : List ClassId} (hline : t'.Line id line kinds) :
    t.Line id line kinds := by
  induction hline with
  | last hc' hlink' =>
    obtain ⟨c, hc, hlink⟩ := h.links _ _ hc'
    exact .last hc (hlink.trans hlink')
  | next hc' hlink' hp' _ ih =>
    obtain ⟨c, hc, hlink⟩ := h.links _ _ hc'
    obtain ⟨p, hp, _⟩ := h.links _ _ hp'
    have hsettles := h.settles.of_get? hp hp'
    rw [Linker.extendLayout_bare hsettles.bare]
    exact .next hc (hlink.trans hlink') hp ih

theorem Lays.rooted (h : Lays ids t t') {id : ClassId} (hid : t'.Rooted id) : t.Rooted id := by
  obtain ⟨line, kinds, hline⟩ := hid
  exact ⟨line, kinds, h.line hline⟩

/-- A table is in order again when classes were laid out from which no link leads away. -/
theorem Orderly.lays (ht : t.Orderly) (h : Lays ids t t')
    (hclosed : ∀ x ∈ ids, ∀ c, t.get? x = some c → ∃ link, c.superLink = some link ∧
      ∀ parent, link = some parent → parent ∈ ids) (hin : t'.InLine) : t'.Orderly := by
  refine ⟨fun name x hl => ?_, fun x c' parent hc' hlink' => ?_, fun x hx => ?_, hin⟩
  · unfold lookup? at hl
    rw [h.names] at hl
    exact h.settles.known (ht.named name x hl)
  · obtain ⟨c, hc, hlink⟩ := h.links x c' hc'
    exact h.settles.known (ht.linked x c parent hc (hlink.trans hlink'))
  · rcases h.before x hx with hbefore | hmem
    · exact ht.upward_later h.settles hbefore
    · obtain ⟨c', hc', _⟩ := hx
      obtain ⟨c, hc, hlink⟩ := h.links x c' hc'
      obtain ⟨link, hlink', hparent⟩ := hclosed x hmem c hc
      refine ⟨c', link, hc', hlink.symm.trans hlink', fun parent hp => ?_⟩
      obtain ⟨p, hp'⟩ := h.settles.known (ht.linked x c parent hc (hp ▸ hlink'))
      exact ⟨p, hp', h.laid parent (hparent parent hp) p hp'⟩

end ClassTable

namespace Linker
open ClassTable

variable {l : Linker} {id : ClassId} {ids : List ClassId} {kinds : List Kind}

theorem layOut_superLink (inherited : List Kind) (c : ClassInfo) :
    (layOut inherited c).superLink = c.superLink := by
  unfold layOut
  split <;> rfl

theorem layOut_layout (inherited : List Kind) (c : ClassInfo) :
    (layOut inherited c).layout = some (c.layout.getD (extendLayout inherited c)) := by
  unfold layOut
  split
  · next layout h => rw [h]; rfl
  · next h => rw [h]; rfl

theorem layOut_skeleton {c c' : ClassInfo} (h : c'.skeleton = c.skeleton) (inherited : List Kind) :
    (layOut inherited c').skeleton = (layOut inherited c).skeleton := by
  simp only [ClassInfo.skeleton, Prod.mk.injEq] at h
  obtain ⟨hname, hlink, hfields, hlayout⟩ := h
  unfold layOut
  rw [hlayout]
  cases c.layout with
  | some layout => simp [ClassInfo.skeleton, hname, hlink, hfields, hlayout]
  | none => simp [ClassInfo.skeleton, extendLayout, hname, hlink, hfields]

theorem prepareOne_unknown {inherited : Inheritance} (h : (interfaces id l.classes).2.get? id = none) :
    prepareOne inherited id l = (inherited, { l with classes := (interfaces id l.classes).2 }) := by
  have hfound : (onClasses (interfaces id) l).2.classes.get? id = none := h
  rw [prepareOne, state_bind, state_get, hfound]
  rfl

/-- Preparing a class that is there: its interfaces are looked for, and it is laid out and given its
dispatch table. -/
theorem prepareOne_run {inherited : Inheritance} {c : ClassInfo} {made : DispatchTable × Linker}
    (h : (interfaces id l.classes).2.get? id = some c)
    (hmade : dispatchOf inherited.dispatch (layOut inherited.kinds c)
      { l with classes := (interfaces id l.classes).2 } = made) :
    prepareOne inherited id l =
      (⟨(c.layout.getD (extendLayout inherited.kinds c)).kinds, made.1⟩,
        { made.2 with classes := (interfaces id l.classes).2.update id fun _ =>
          { layOut inherited.kinds c with dispatch := some made.1 } }) := by
  have hclasses : made.2.classes = (interfaces id l.classes).2 := by
    rw [← hmade]
    exact (dispatchOf_grows _ _ _).2.1
  have hrun : prepareOne inherited id l =
      (⟨((layOut inherited.kinds c).layout.map (·.kinds)).getD inherited.kinds, made.1⟩,
        { made.2 with classes := made.2.classes.update id fun _ =>
          { layOut inherited.kinds c with dispatch := some made.1 } }) := by
    have hfound : (onClasses (interfaces id) l).2.classes.get? id = some c := h
    rw [prepareOne, state_bind, state_get, hfound, ← hmade]
    rfl
  rw [hrun, hclasses, layOut_layout]
  rfl

/-- Preparing one class lays that class out and passes its layout on. -/
theorem prepareOne_skeleton (inherited : Inheritance) (id : ClassId) (l : Linker) :
    (prepareOne inherited id l).2.classes.byName = l.classes.byName ∧
    (∀ x, ((prepareOne inherited id l).2.classes.get? x).map ClassInfo.skeleton =
      (l.classes.get? x).map fun c =>
        if id = x then (layOut inherited.kinds c).skeleton else c.skeleton) ∧
    ∀ c', (prepareOne inherited id l).2.classes.get? id = some c' →
      c'.layout = some ⟨(prepareOne inherited id l).1.kinds⟩ := by
  have hspares := spares_interfaces id l.classes
  have hclasses := hspares.classes
  cases hc₁ : (interfaces id l.classes).2.get? id with
  | none =>
    have hc : l.classes.get? id = none := by simpa [hc₁] using (hclasses id).symm
    rw [prepareOne_unknown hc₁]
    refine ⟨hspares.names, fun x => ?_, fun c' hc' => by cases hc₁.symm.trans hc'⟩
    rw [hclasses x]
    by_cases hx : id = x
    · rw [← hx, hc]
      rfl
    · simp only [if_neg hx]
  | some c₁ =>
    obtain ⟨c, hc, hskeleton⟩ := hspares.exists_left hc₁
    rw [prepareOne_run hc₁ rfl]
    dsimp only
    refine ⟨hspares.names, fun x => ?_, fun c' hc' => ?_⟩
    · rw [get?_update]
      by_cases hx : id = x
      · subst hx
        simp only [if_pos, hc₁, hc, Option.map_some]
        exact congrArg some (layOut_skeleton hskeleton inherited.kinds)
      · simp only [if_neg hx, hclasses x]
    · rw [get?_update, if_pos rfl, hc₁] at hc'
      cases hc'
      exact layOut_layout inherited.kinds c₁

theorem prepareOne_lays (inherited : Inheritance) (id : ClassId) (l : Linker) :
    Lays [id] l.classes (prepareOne inherited id l).2.classes := by
  obtain ⟨hnames, hclasses, hlaid⟩ := prepareOne_skeleton inherited id l
  have hbefore : ∀ x c', (prepareOne inherited id l).2.classes.get? x = some c' →
      ∃ c, l.classes.get? x = some c ∧
        (if id = x then (layOut inherited.kinds c).skeleton else c.skeleton) = c'.skeleton := by
    intro x c' hc'
    have hx := hclasses x
    rw [hc', Option.map_some] at hx
    exact Option.map_eq_some_iff.1 hx.symm
  refine ⟨(prepareOne_grows inherited id l).classes.settles, hnames, fun x c' hc' => ?_, ?_,
    fun x hx c' hc' => ?_⟩
  · obtain ⟨c, hc, heq⟩ := hbefore x c' hc'
    refine ⟨c, hc, ?_⟩
    have hlink := congrArg (·.2.1) heq
    split at hlink
    · exact (layOut_superLink inherited.kinds c).symm.trans hlink
    · exact hlink
  · rintro x ⟨c', hc', hlaid'⟩
    obtain ⟨c, hc, heq⟩ := hbefore x c' hc'
    by_cases hid : id = x
    · exact .inr (by simp [hid])
    · rw [if_neg hid] at heq
      have hlayout : c.layout = c'.layout := congrArg (·.2.2.2) heq
      exact .inl ⟨c, hc, hlayout ▸ hlaid'⟩
  · obtain rfl : x = id := by simpa using hx
    rw [hlaid c' hc']
    rfl

theorem foldlM_prepareOne_lays (ids : List ClassId) (inherited : Inheritance) (l : Linker) :
    Lays ids l.classes (ids.foldlM prepareOne inherited l).2.classes := by
  induction ids generalizing inherited l with
  | nil => exact .nil _
  | cons id ids ih =>
    rw [List.foldlM_cons, state_bind]
    exact (prepareOne_lays inherited id l).append (ih _ _)

/-- A class that is given what it inherits along its chain is laid out in line. -/
theorem prepareOne_inLine {inherited : Inheritance} (h : l.classes.InLine)
    (hinherited : ∀ ids kinds, l.classes.Line id ids kinds → inherited.kinds = kinds) :
    (prepareOne inherited id l).2.classes.InLine := by
  intro x c' ids kinds hc' hlaid' hline'
  have hlays := prepareOne_lays inherited id l
  have hline := hlays.line hline'
  have hx := (prepareOne_skeleton inherited id l).2.1 x
  rw [hc', Option.map_some] at hx
  obtain ⟨c, hc, heq⟩ := Option.map_eq_some_iff.1 hx.symm
  have hsettles := hlays.settles.of_get? hc hc'
  rw [extendLayout_bare hsettles.bare]
  by_cases hlaid : c.layout.isSome
  · obtain ⟨hlayout, hfields⟩ := h x c ids kinds hc hlaid hline
    rw [hsettles.fields_eq hlaid]
    exact ⟨(hsettles.layout _ hlayout).1, hfields⟩
  · have hnone : c.layout = none := by simpa using hlaid
    by_cases hid : id = x
    · subst hid
      cases hinherited ids kinds hline
      rw [if_pos rfl, ClassInfo.skeleton, ClassInfo.skeleton, layOut, hnone] at heq
      simp only [Prod.mk.injEq] at heq
      obtain ⟨_, _, hfields, hlayout⟩ := heq
      refine ⟨hlayout.symm, ?_⟩
      rw [numberFields_bare hsettles.bare, ← hfields]
    · rw [if_neg hid] at heq
      have hlayout : c.layout = c'.layout := congrArg (·.2.2.2) heq
      rw [← hlayout, hnone] at hlaid'
      cases hlaid'

/-- Going down a chain from its end, every class is given what it inherits. -/
theorem foldlM_prepareOne_line (h : l.classes.InLine) (hline : l.classes.Line id ids kinds) :
    ((id :: ids).reverse.foldlM prepareOne {} l).2.classes.InLine ∧
      ∀ c, ((id :: ids).reverse.foldlM prepareOne {} l).2.classes.get? id = some c →
        c.layout = some ⟨((id :: ids).reverse.foldlM prepareOne {} l).1.kinds⟩ := by
  induction hline with
  | @last id c hc hlink =>
    show (prepareOne {} id l).2.classes.InLine ∧ ∀ c, (prepareOne {} id l).2.classes.get? id = some c →
      c.layout = some ⟨(prepareOne {} id l).1.kinds⟩
    refine ⟨prepareOne_inLine h fun ids kinds hline => ?_, (prepareOne_skeleton {} id l).2.2⟩
    exact (hline.unique (.last hc hlink)).2
  | @next id parent c p ids kinds hc hlink hp hrest ih =>
    rw [List.reverse_cons, List.foldlM_append, state_bind]
    have hlays := foldlM_prepareOne_lays (parent :: ids).reverse {} l
    generalize (parent :: ids).reverse.foldlM prepareOne {} l = r at ih hlays
    show (prepareOne r.1 id r.2).2.classes.InLine ∧ ∀ c, (prepareOne r.1 id r.2).2.classes.get? id = some c →
      c.layout = some ⟨(prepareOne r.1 id r.2).1.kinds⟩
    refine ⟨prepareOne_inLine ih.1 fun ids' kinds' hline => ?_, (prepareOne_skeleton r.1 id r.2).2.2⟩
    -- What `parent` has passed on is its layout, which is in line.
    obtain ⟨p', hp', hsettles⟩ := hlays.settles parent p hp
    have hpassed := ih.2 p' hp'
    have hlaid := ih.1 parent p' ids kinds hp' (by rw [hpassed]; rfl) (hrest.settles hlays.settles)
    rw [hpassed, extendLayout_bare hsettles.bare] at hlaid
    have hunique := (hlays.line hline).unique (.next hc hlink hp hrest)
    rw [← hunique.2, ← Option.some.inj hlaid.1]

theorem foldlM_prepareOne_unrooted (h : l.classes.InLine) (hids : ∀ x ∈ ids, ¬ l.classes.Rooted x)
    (inherited : Inheritance) : (ids.foldlM prepareOne inherited l).2.classes.InLine := by
  induction ids generalizing inherited l with
  | nil => exact h
  | cons id ids ih =>
    rw [List.foldlM_cons, state_bind]
    apply ih
    · apply prepareOne_inLine h
      intro line kinds hline
      exact absurd ⟨line, kinds, hline⟩ (hids id (by simp))
    · intro x hx hrooted
      exact hids x (by simp [hx]) ((prepareOne_lays inherited id l).rooted hrooted)

/-- Preparing a class that was not prepared lays out all that climbing from it finds. -/
theorem prepare_eq {c : ClassInfo} (hc : l.classes.get? id = some c) :
    (prepare id l).2 = if isPrepared c then l else
      ((ancestry id l.classes).1.reverse.foldlM prepareOne {} { l with classes := (ancestry id l.classes).2 }).2 := by
  rw [prepare, state_get, hc]
  dsimp only
  split <;> rfl

theorem prepare_orderly (h : l.classes.Orderly) (id : ClassId) : (prepare id l).2.classes.Orderly := by
  cases hc : l.classes.get? id with
  | none =>
    rw [prepare, state_get, hc]
    exact h
  | some c =>
    rw [prepare_eq hc]
    split
    · exact h
    · have ht := h.ancestry id
      obtain ⟨more, hclimbed⟩ := ancestry_climbed id l.classes
      generalize ancestry id l.classes = r at ht hclimbed
      obtain ⟨chain, t⟩ := r
      have hchain : chain = id :: more := by simpa using hclimbed.found_eq
      subst hchain
      have hlays := foldlM_prepareOne_lays (id :: more).reverse {} { l with classes := t }
      refine ht.lays hlays (fun x hx c hc => ?_) ?_
      · obtain ⟨link, hlink, hparent⟩ := hclimbed.closed x (List.mem_reverse.1 hx) c hc
        exact ⟨link, hlink, fun parent hp => List.mem_reverse.2 (hparent parent hp)⟩
      · rcases hclimbed.line with ⟨kinds, hline⟩ | hnone
        · exact (foldlM_prepareOne_line (l := { l with classes := t }) ht.inLine hline).1
        · exact foldlM_prepareOne_unrooted (l := { l with classes := t }) ht.inLine
            (fun x hx => hnone x (List.mem_reverse.1 hx)) {}

end Linker

namespace ClassTable

variable {t t' t₁ t₂ : ClassTable} {id : ClassId} {ids : List ClassId} {kinds : List Kind}

theorem Becomes.settles (h : t.Becomes t') : t.Settles t' := by
  induction h with
  | same => exact .refl t
  | added _ hinsert _ _ ih => exact ih.trans (settles_insert hinsert)
  | linked _ id ih => exact ih.trans (superclass_settles id _)
  | prepared _ id ih => exact ih.trans (Linker.prepare_grows id _).classes.settles
  | aside _ hspares ih => exact ih.trans hspares.settles

theorem Becomes.orderly (h : t.Becomes t') (ht : t.Orderly) : t'.Orderly := by
  induction h with
  | same => exact ht
  | added _ hinsert hlayout hlink ih =>
    refine ih.steady (steady_insert ih hinsert hlayout fun parent hparent => ?_)
    obtain ⟨name, _, hl⟩ := Option.bind_eq_some_iff.1 (hlink _ hparent).symm
    exact ⟨name, hl⟩
  | linked _ id ih => exact ih.steady (steady_superclass ih id)
  | prepared _ id ih => exact Linker.prepare_orderly ih id
  | aside _ hspares ih => exact ih.steady (hspares.steady ih)

/-- Classes that are declared alike and inherit the same have their fields in the same slots. -/
theorem InLine.fields_eq (h₁ : t₁.InLine) (h₂ : t₂.InLine) {ids₁ ids₂ : List ClassId} {c₁ c₂ : ClassInfo}
    (hline₁ : t₁.Line id ids₁ kinds) (hline₂ : t₂.Line id ids₂ kinds) (hc₁ : t₁.get? id = some c₁)
    (hc₂ : t₂.get? id = some c₂) (hlaid₁ : c₁.layout.isSome) (hlaid₂ : c₂.layout.isSome)
    (hbare : c₁.bare = c₂.bare) : c₁.fields = c₂.fields := by
  apply Array.toList_inj.1
  calc c₁.fields.toList = Linker.numberFields kinds.length c₁.fields.toList :=
        (h₁ id c₁ ids₁ kinds hc₁ hlaid₁ hline₁).2
    _ = Linker.numberFields kinds.length c₂.fields.toList := Linker.numberFields_bare hbare _
    _ = c₂.fields.toList := (h₂ id c₂ ids₂ kinds hc₂ hlaid₂ hline₂).2.symm

end ClassTable

end ClassMachine
