import ClassMachine.Proofs.Link.Declarations
import Mathlib.Data.List.Perm.Subperm

/-!
Superclass chains. A link to a superclass is set once, so a chain that was followed to its end stays
as it is, and so does what a class inherits along it. Climbing from a class either runs down such a
chain or meets none of its classes: it never stops for want of fuel.
-/
namespace ClassMachine
open Stateful

/-- A field as it was loaded: instance fields have no slots yet. -/
def Field.unplaced (f : Field) : Field := if f.isStatic then f else { f with slot := none }

theorem Field.isStatic_unplaced (f : Field) : f.unplaced.isStatic = f.isStatic := by
  unfold unplaced
  split <;> rfl

theorem Field.Places.unplaced {f f' : Field} (h : f.Places f') : f'.unplaced = f.unplaced := by
  cases h with
  | same => rfl
  | placed hstatic =>
    have hplaced : ∀ slot, Field.isStatic { f with slot := slot } = false := fun _ => hstatic
    simp [Field.unplaced, hstatic, hplaced]

/-- What a class is declared as, as far as hierarchy and layout rest on it. -/
def ClassInfo.bare (c : ClassInfo) : Option String × List Field :=
  (c.superName, c.fields.toList.map Field.unplaced)

/-- What fixes the place of a class in the hierarchy and of its fields in an object. -/
def ClassInfo.skeleton (c : ClassInfo) :
    Option String × Option (Option ClassId) × Array Field × Option Layout :=
  (c.superName, c.superLink, c.fields, c.layout)

namespace Linker

theorem numberFields_unplaced (next : Nat) (fields : List Field) :
    numberFields next (fields.map Field.unplaced) = numberFields next fields := by
  induction fields generalizing next with
  | nil => rfl
  | cons f fields ih =>
    rw [List.map_cons, numberFields, numberFields, Field.isStatic_unplaced, ih, ih]
    by_cases hstatic : f.isStatic
    · simp [Field.unplaced, hstatic]
    · simp [Field.unplaced, hstatic]

variable {c c' : ClassInfo}

theorem numberFields_bare (h : c'.bare = c.bare) (next : Nat) :
    numberFields next c'.fields.toList = numberFields next c.fields.toList := by
  rw [← numberFields_unplaced, ← numberFields_unplaced next c.fields.toList,
    show c'.fields.toList.map Field.unplaced = _ from congrArg Prod.snd h]
  rfl

theorem extendLayout_bare (h : c'.bare = c.bare) (inherited : List Kind) :
    extendLayout inherited c' = extendLayout inherited c := by
  have hkind : ∀ f : Field, f.unplaced.kind = f.kind := by
    intro f
    unfold Field.unplaced
    split <;> rfl
  have hkinds : ∀ fields : List Field, (fields.filter (!·.isStatic)).map Field.kind =
      ((fields.map Field.unplaced).filter (!·.isStatic)).map Field.kind := by
    intro fields
    simp [List.filter_map, Function.comp_def, Field.isStatic_unplaced, hkind]
  unfold extendLayout
  rw [hkinds, hkinds c.fields.toList, show c'.fields.toList.map Field.unplaced = _ from congrArg Prod.snd h]
  rfl

end Linker

/-- A class of which more may be settled: links and layouts stay once they are there. -/
structure ClassInfo.Settles (c c' : ClassInfo) : Prop where
  bare : c'.bare = c.bare
  superLink : ∀ link, c.superLink = some link → c'.superLink = some link
  layout : ∀ layout, c.layout = some layout → c'.layout = some layout ∧ c'.fields = c.fields

namespace ClassInfo

variable {c c' c₁ c₂ c₃ : ClassInfo}

theorem Settles.of_skeleton (h : c'.skeleton = c.skeleton) : c.Settles c' := by
  simp only [skeleton, Prod.mk.injEq] at h
  obtain ⟨hname, hlink, hfields, hlayout⟩ := h
  refine ⟨?_, fun _ h => hlink.trans h, fun _ h => ⟨hlayout.trans h, hfields⟩⟩
  rw [ClassInfo.bare, hname, hfields]
  rfl

theorem Settles.trans (h : c₁.Settles c₂) (h' : c₂.Settles c₃) : c₁.Settles c₃ := by
  constructor
  · exact h'.bare.trans h.bare
  · exact fun link hl => h'.superLink link (h.superLink link hl)
  · intro layout hl
    obtain ⟨hl', hf⟩ := h.layout layout hl
    obtain ⟨hl'', hf'⟩ := h'.layout layout hl'
    exact ⟨hl'', hf'.trans hf⟩

theorem Prepares.settles (h : c.Prepares c') : c.Settles c' := by
  refine ⟨?_, h.superLink, h.layout⟩
  have hname : c'.superName = c.superName := by rw [h.declared]
  have hfields := h.fields.map_eq fun _ _ hf => Field.Places.unplaced hf
  rw [ClassInfo.bare, hname, hfields]
  rfl

theorem fieldPosition?_bare (h : c'.bare = c.bare) (name descriptor : String) :
    c'.fieldPosition? name descriptor = c.fieldPosition? name descriptor := by
  have htest : ∀ f : Field, (f.unplaced.name == name && f.unplaced.descriptor == descriptor) =
      (f.name == name && f.descriptor == descriptor) := by
    intro f
    unfold Field.unplaced
    split <;> rfl
  have htests := congrArg (List.map fun f : Field => f.name == name && f.descriptor == descriptor)
    (congrArg Prod.snd h)
  simp only [bare, List.map_map, Function.comp_def, htest] at htests
  exact lastIndex?_congr htests

theorem Settles.isSome_layout (h : c.Settles c') (hc : c.layout.isSome) : c'.layout.isSome := by
  obtain ⟨layout, hlayout⟩ := Option.isSome_iff_exists.1 hc
  rw [(h.layout layout hlayout).1]
  rfl

theorem Settles.fields_eq (h : c.Settles c') (hc : c.layout.isSome) : c'.fields = c.fields := by
  obtain ⟨layout, hlayout⟩ := Option.isSome_iff_exists.1 hc
  exact (h.layout layout hlayout).2

end ClassInfo

namespace ClassTable

/-- Every class of the first table is there in the second, and what was settled of it is as it was. -/
def Settles (t t' : ClassTable) : Prop :=
  ∀ id c, t.get? id = some c → ∃ c', t'.get? id = some c' ∧ c.Settles c'

variable {t t' t₁ t₂ t₃ : ClassTable}

theorem Settles.refl (t : ClassTable) : t.Settles t := fun _ c hc => ⟨c, hc, .of_skeleton rfl⟩

theorem Settles.trans (h : t₁.Settles t₂) (h' : t₂.Settles t₃) : t₁.Settles t₃ := by
  intro id c hc
  obtain ⟨c₂, hc₂, hs⟩ := h id c hc
  obtain ⟨c₃, hc₃, hs'⟩ := h' id c₂ hc₂
  exact ⟨c₃, hc₃, hs.trans hs'⟩

theorem Settles.known (h : t.Settles t') {id : ClassId} (hid : ∃ c, t.get? id = some c) :
    ∃ c', t'.get? id = some c' := by
  obtain ⟨c, hc⟩ := hid
  obtain ⟨c', hc', _⟩ := h id c hc
  exact ⟨c', hc'⟩

theorem Settles.of_get? (h : t.Settles t') {id : ClassId} {c c' : ClassInfo} (hc : t.get? id = some c)
    (hc' : t'.get? id = some c') : c.Settles c' := by
  obtain ⟨c'', hc'', hs⟩ := h id c hc
  cases hc'.symm.trans hc''
  exact hs

theorem Grows.settles (h : t.Grows t') : t.Settles t' := by
  intro id c hc
  obtain ⟨c', hc', hp⟩ := h.known id c hc
  exact ⟨c', hc', hp.settles⟩

/-- The superclasses of a class, the nearest first, when links lead to a last one, and the kinds of
the fields it inherits from them. -/
inductive Line (t : ClassTable) : ClassId → List ClassId → List Kind → Prop
  | last {id : ClassId} {c : ClassInfo} (hc : t.get? id = some c) (hlink : c.superLink = some none) :
      Line t id [] []
  | next {id parent : ClassId} {c p : ClassInfo} {ids : List ClassId} {kinds : List Kind}
      (hc : t.get? id = some c) (hlink : c.superLink = some (some parent)) (hp : t.get? parent = some p)
      (h : Line t parent ids kinds) : Line t id (parent :: ids) (Linker.extendLayout kinds p).kinds

/-- A class whose superclass chain was followed to its end. -/
def Rooted (t : ClassTable) (id : ClassId) : Prop := ∃ ids kinds, t.Line id ids kinds

variable {id : ClassId} {ids ids' : List ClassId} {kinds kinds' : List Kind}

theorem Line.unique (h : t.Line id ids kinds) (h' : t.Line id ids' kinds') : ids' = ids ∧ kinds' = kinds := by
  induction h generalizing ids' kinds' with
  | last hc hlink =>
    cases h' with
    | last _ _ => exact ⟨rfl, rfl⟩
    | next hc' hlink' _ _ =>
      cases hc.symm.trans hc'
      cases hlink.symm.trans hlink'
  | next hc hlink hp _ ih =>
    cases h' with
    | last hc' hlink' =>
      cases hc.symm.trans hc'
      cases hlink.symm.trans hlink'
    | next hc' hlink' hp' hrest =>
      cases hc.symm.trans hc'
      cases hlink.symm.trans hlink'
      cases hp.symm.trans hp'
      obtain ⟨rfl, rfl⟩ := ih hrest
      exact ⟨rfl, rfl⟩

theorem Rooted.known (h : t.Rooted id) : ∃ c, t.get? id = some c := by
  obtain ⟨ids, kinds, hline⟩ := h
  cases hline with
  | last hc _ => exact ⟨_, hc⟩
  | next hc _ _ _ => exact ⟨_, hc⟩

theorem Rooted.parent (h : t.Rooted id) {c : ClassInfo} {parent : ClassId} (hc : t.get? id = some c)
    (hlink : c.superLink = some (some parent)) : t.Rooted parent := by
  obtain ⟨ids, kinds, hline⟩ := h
  cases hline with
  | last hc' hlink' =>
    cases hc.symm.trans hc'
    cases hlink.symm.trans hlink'
  | next hc' hlink' _ hrest =>
    cases hc.symm.trans hc'
    cases hlink.symm.trans hlink'
    exact ⟨_, _, hrest⟩

/-- A chain that was followed to its end stays as it is. -/
theorem Line.settles (h : t.Line id ids kinds) (hs : t.Settles t') : t'.Line id ids kinds := by
  induction h with
  | last hc hlink =>
    obtain ⟨c', hc', hsettles⟩ := hs _ _ hc
    exact .last hc' (hsettles.superLink _ hlink)
  | next hc hlink hp _ ih =>
    obtain ⟨c', hc', hsettles⟩ := hs _ _ hc
    obtain ⟨p', hp', hparent⟩ := hs _ _ hp
    rw [← Linker.extendLayout_bare hparent.bare]
    exact .next hc' (hsettles.superLink _ hlink) hp' ih

/-- Classes whose links are set and lead from one to another. -/
def Followed (t : ClassTable) (P : ClassId → Prop) : Prop :=
  ∀ x, P x → ∃ c link, t.get? x = some c ∧ c.superLink = some link ∧ ∀ parent, link = some parent → P parent

/-- A chain that ends later on ends already where its links were set. -/
theorem Line.before {P : ClassId → Prop} (hline : t'.Line id ids kinds) (hs : t.Settles t')
    (hP : t.Followed P) (hid : P id) : t.Line id ids kinds ∧ ∀ x ∈ id :: ids, P x := by
  induction hline with
  | @last id _ hc' hlink' =>
    obtain ⟨c, link, hc, hlink, _⟩ := hP id hid
    cases hlink'.symm.trans ((hs.of_get? hc hc').superLink _ hlink)
    exact ⟨.last hc hlink, by simpa using hid⟩
  | @next id parent _ _ _ _ hc' hlink' hp' _ ih =>
    obtain ⟨c, link, hc, hlink, hparent⟩ := hP id hid
    cases hlink'.symm.trans ((hs.of_get? hc hc').superLink _ hlink)
    obtain ⟨hrest, hall⟩ := ih (hparent parent rfl)
    obtain ⟨p, _, hp, _⟩ := hP parent (hparent parent rfl)
    rw [Linker.extendLayout_bare (hs.of_get? hp hp').bare]
    refine ⟨.next hc hlink hp hrest, fun x hx => ?_⟩
    rcases List.mem_cons.1 hx with rfl | hx
    · exact hid
    · exact hall x hx

/-- No chain of classes that all link to one another comes to an end. -/
theorem not_rooted_of_circular {ring : List ClassId}
    (hring : ∀ x ∈ ring, ∃ c parent, t.get? x = some c ∧ c.superLink = some (some parent) ∧ parent ∈ ring)
    (hid : id ∈ ring) : ¬ t.Rooted id := by
  rintro ⟨ids, kinds, h⟩
  induction h with
  | last hc hlink =>
    obtain ⟨c, parent, hc', hlink', _⟩ := hring _ hid
    cases hc.symm.trans hc'
    cases hlink.symm.trans hlink'
  | next hc hlink _ _ ih =>
    obtain ⟨c, parent, hc', hlink', hparent⟩ := hring _ hid
    cases hc.symm.trans hc'
    cases hlink.symm.trans hlink'
    exact ih hparent

section Climbing

theorem findSuper_log (t : ClassTable) (c : ClassInfo) : ∃ log, (t.findSuper c).2 = { t with log := log } := by
  unfold findSuper
  split
  · exact ⟨t.log, rfl⟩
  · split
    · exact ⟨t.log, rfl⟩
    · exact ⟨_, rfl⟩

/-- What a superclass link is, or would be looked up to be. -/
theorem superclass_fst (x : ClassId) (t : ClassTable) : (superclass x t).1 =
    (t.get? x).bind fun c => c.superLink.getD (c.superName.bind t.lookup?) := by
  unfold superclass
  cases t.get? x with
  | none => rfl
  | some c =>
    rw [Option.bind_some]
    dsimp only
    cases c.superLink with
    | some link => rfl
    | none =>
      rw [Option.getD_none]
      unfold findSuper
      cases c.superName with
      | none => rfl
      | some name =>
        rw [Option.bind_some]
        dsimp only
        cases t.lookup? name <;> rfl

/-- Asking for a superclass sets the link of that class and does nothing else. -/
theorem get?_superclass (id x : ClassId) (t : ClassTable) :
    (superclass id t).2.get? x =
      if id = x then (t.get? x).map fun c => { c with superLink := some (superclass id t).1 }
      else t.get? x := by
  unfold superclass
  cases hc : t.get? id with
  | none =>
    dsimp only
    split
    · next heq => rw [← heq, hc]; rfl
    · rfl
  | some c =>
    dsimp only
    cases hlink : c.superLink with
    | some link =>
      dsimp only
      split
      · next heq =>
        rw [← heq, hc, Option.map_some, ← hlink]
      · rfl
    | none =>
      obtain ⟨log, hlog⟩ := findSuper_log t c
      dsimp only
      rw [get?_update, hlog]
      rfl

theorem byName_superclass (id : ClassId) (t : ClassTable) : (superclass id t).2.byName = t.byName := by
  unfold superclass
  split
  · rfl
  · split
    · rfl
    · obtain ⟨log, hlog⟩ := findSuper_log t _
      dsimp only
      rw [hlog]
      rfl

theorem size_superclass (id : ClassId) (t : ClassTable) : (superclass id t).2.size = t.size := by
  unfold superclass
  split
  · rfl
  · split
    · rfl
    · obtain ⟨log, hlog⟩ := findSuper_log t _
      dsimp only [size, update]
      rw [Array.size_modify, hlog]

theorem superclass_settles (id : ClassId) (t : ClassTable) : t.Settles (superclass id t).2 :=
  (superclass_grows id t).settles

/-- Different classes of a table are no more than it has. -/
theorem length_le_size {ids : List ClassId} (hnodup : ids.Nodup) (h : ∀ x ∈ ids, ∃ c, t.get? x = some c) :
    ids.length ≤ t.size := by
  have hsub : ids ⊆ List.range t.size := by
    intro x hx
    obtain ⟨c, hc⟩ := h x hx
    exact List.mem_range.2 (Array.getElem?_eq_some_iff.1 hc).1
  have hle := (hnodup.subperm hsub).length_le
  simpa using hle

/-- What climbing on from `current` finds, when `prior` was passed: either the chain that ends, or
classes none of which has one. Either way no link leads out of what was found. -/
structure Climbed (t : ClassTable) (prior : List ClassId) (current : ClassId) (found more : List ClassId) :
    Prop where
  found_eq : found = (current :: prior).reverse ++ more
  line : (∃ kinds, t.Line current more kinds) ∨ ∀ x ∈ current :: more, ¬ t.Rooted x
  closed : ∀ x ∈ current :: more, ∀ c, t.get? x = some c →
    ∃ link, c.superLink = some link ∧ ∀ parent, link = some parent → parent ∈ found

theorem climb_climbed (origin : ClassId) {fuel : Nat} {prior : List ClassId} {current : ClassId} {t : ClassTable}
    (hprior : ∀ x ∈ prior, ∃ c parent, t.get? x = some c ∧ c.superLink = some (some parent) ∧
      parent ∈ current :: prior)
    (hnodup : (current :: prior).Nodup) (hfuel : t.size < fuel + prior.length) :
    ∃ more, (climb origin fuel (current :: prior) current t).2.Climbed prior current
      (climb origin fuel (current :: prior) current t).1 more := by
  induction fuel generalizing prior current t with
  | zero =>
    have hknown : ∀ x ∈ prior, ∃ c, t.get? x = some c := by
      intro x hx
      obtain ⟨c, _, hc, _⟩ := hprior x hx
      exact ⟨c, hc⟩
    have := length_le_size (List.nodup_cons.1 hnodup).2 hknown
    omega
  | succ fuel ih =>
    have hcurrent := get?_superclass current current t
    have hsettles := superclass_settles current t
    rw [if_pos rfl] at hcurrent
    rw [climb, state_bind]
    generalize hrun : superclass current t = run at *
    obtain ⟨link, t₁⟩ := run
    dsimp only at hcurrent hsettles ⊢
    -- Every class passed so far, `current` with it, has its link.
    have hlinked : ∀ c, t₁.get? current = some c → c.superLink = some link := by
      intro c hc
      rw [hcurrent] at hc
      obtain ⟨c₀, _, rfl⟩ := Option.map_eq_some_iff.1 hc
      rfl
    cases link with
    | none =>
      refine ⟨[], by simp; rfl, ?_, ?_⟩
      · cases hc : t₁.get? current with
        | none =>
          right
          intro x hx hrooted
          obtain rfl : x = current := by simpa using hx
          obtain ⟨c, hc'⟩ := hrooted.known
          cases hc.symm.trans hc'
        | some c => exact .inl ⟨[], .last hc (hlinked c hc)⟩
      · intro x hx c hc
        obtain rfl : x = current := by simpa using hx
        exact ⟨none, hlinked c hc, fun _ h => by cases h⟩
    | some parent =>
      have hknown : ∃ c, t₁.get? current = some c ∧ c.superLink = some (some parent) := by
        cases hc : t.get? current with
        | none =>
          rw [superclass, hc] at hrun
          cases hrun
        | some c => exact ⟨_, by rw [hcurrent, hc]; rfl, rfl⟩
      have hpassed : ∀ x ∈ current :: prior, ∃ c p, t₁.get? x = some c ∧ c.superLink = some (some p) ∧
          (p = parent ∨ p ∈ current :: prior) := by
        intro x hx
        rcases List.mem_cons.1 hx with rfl | hx
        · obtain ⟨c, hc, hlink⟩ := hknown
          exact ⟨c, parent, hc, hlink, .inl rfl⟩
        · obtain ⟨c, p, hc, hlink, hp⟩ := hprior x hx
          obtain ⟨c', hc', hs⟩ := hsettles x c hc
          exact ⟨c', p, hc', hs.superLink _ hlink, .inr hp⟩
      dsimp only
      split
      · next hmem =>
        have hring : parent ∈ current :: prior := by simpa using hmem
        have hclosed : ∀ x ∈ current :: prior, ∃ c p, t₁.get? x = some c ∧
            c.superLink = some (some p) ∧ p ∈ current :: prior := by
          intro x hx
          obtain ⟨c, p, hc, hlink, hp⟩ := hpassed x hx
          exact ⟨c, p, hc, hlink, hp.elim (fun h => h ▸ hring) id⟩
        refine ⟨[], by simp; rfl, .inr fun x hx => ?_, ?_⟩
        · obtain rfl : x = current := by simpa using hx
          exact not_rooted_of_circular hclosed (by simp)
        · intro x hx c hc
          obtain rfl : x = current := by simpa using hx
          refine ⟨some parent, hlinked c hc, fun p hp => ?_⟩
          cases hp
          exact List.mem_reverse.2 hring
      · next hmem =>
        have hfresh : parent ∉ current :: prior := by simpa using hmem
        have hnext : ∀ x ∈ current :: prior, ∃ c p, t₁.get? x = some c ∧ c.superLink = some (some p) ∧
            p ∈ parent :: current :: prior := by
          intro x hx
          obtain ⟨c, p, hc, hlink, hp⟩ := hpassed x hx
          exact ⟨c, p, hc, hlink, List.mem_cons.2 hp⟩
        have hsize : t₁.size < fuel + (current :: prior).length := by
          have hsame : t₁.size = t.size := by simpa [hrun] using size_superclass current t
          simp only [List.length_cons]
          omega
        obtain ⟨more, hmore⟩ := ih hnext (List.nodup_cons.2 ⟨hfresh, hnodup⟩) hsize
        have hclimb := (climb_grows origin fuel (parent :: current :: prior) parent t₁).settles
        generalize climb origin fuel (parent :: current :: prior) parent t₁ = r at hmore hclimb
        obtain ⟨c, hc, hlink⟩ := hknown
        obtain ⟨c', hc', hs⟩ := hclimb current c hc
        have hlink' := hs.superLink _ hlink
        refine ⟨parent :: more, by rw [hmore.found_eq]; simp, ?_, ?_⟩
        · rcases hmore.line with ⟨kinds, hline⟩ | hnone
          · obtain ⟨p, hp⟩ := Rooted.known ⟨_, _, hline⟩
            exact .inl ⟨_, .next hc' hlink' hp hline⟩
          · refine .inr fun x hx => ?_
            rcases List.mem_cons.1 hx with rfl | hx
            · exact fun hrooted => hnone parent (by simp) (hrooted.parent hc' hlink')
            · exact hnone x hx
        · intro x hx c'' hc''
          rcases List.mem_cons.1 hx with rfl | hx
          · cases hc'.symm.trans hc''
            refine ⟨some parent, hlink', fun p hp => ?_⟩
            cases hp
            rw [hmore.found_eq]
            simp
          · exact hmore.closed x hx c'' hc''

/-- The superclasses of a class: the chain that ends, or classes none of which has one. -/
theorem ancestry_climbed (id : ClassId) (t : ClassTable) :
    ∃ more, (ancestry id t).2.Climbed [] id (ancestry id t).1 more :=
  climb_climbed id (by simp) (by simp) (by simp)

/-- Climbing that meets a class whose chain ends has followed a chain that ends. -/
theorem ancestry_line {x : ClassId} (hx : x ∈ (ancestry id t).1) (hrooted : (ancestry id t).2.Rooted x) :
    ∃ ids kinds, (ancestry id t).2.Line id ids kinds ∧ (ancestry id t).1 = id :: ids := by
  obtain ⟨more, hclimbed⟩ := ancestry_climbed id t
  have hfound : (ancestry id t).1 = id :: more := by simpa using hclimbed.found_eq
  rcases hclimbed.line with ⟨kinds, hline⟩ | hnone
  · exact ⟨more, kinds, hline, hfound⟩
  · exact absurd hrooted (hnone x (hfound ▸ hx))

theorem ancestry_of_line (h : (ancestry id t).2.Line id ids kinds) : (ancestry id t).1 = id :: ids := by
  obtain ⟨more, hclimbed⟩ := ancestry_climbed id t
  have hid : id ∈ (ancestry id t).1 := by simp [hclimbed.found_eq]
  obtain ⟨ids', kinds', hline, hfound⟩ := ancestry_line hid ⟨ids, kinds, h⟩
  rw [hfound, (h.unique hline).1]

end Climbing

section Resolution

theorem Line.mem_known (h : t.Line id ids kinds) {x : ClassId} (hx : x ∈ id :: ids) :
    ∃ c, t.get? x = some c := by
  induction h with
  | last hc _ =>
    obtain rfl := List.mem_singleton.1 hx
    exact ⟨_, hc⟩
  | next hc _ _ _ ih =>
    rcases List.mem_cons.1 hx with rfl | hx
    · exact ⟨_, hc⟩
    · exact ih hx

theorem declaredField?_settles (hs : t.Settles t') {x : ClassId} {c : ClassInfo} (hc : t.get? x = some c)
    (name descriptor : String) : t'.declaredField? name descriptor x = t.declaredField? name descriptor x := by
  obtain ⟨c', hc', hsettles⟩ := hs x c hc
  simp only [declaredField?, hc, hc', Option.bind_some, ClassInfo.fieldPosition?_bare hsettles.bare]

theorem resolveField_ok {name descriptor : String} {field : FieldId} :
    (resolveField id name descriptor t).1 = .ok field ↔
      (ancestry id t).1.findSome? ((ancestry id t).2.declaredField? name descriptor) = some field := by
  rw [resolveField, state_bind, state_get]
  cases (ancestry id t).1.findSome? ((ancestry id t).2.declaredField? name descriptor) with
  | none =>
    show Except.error _ = _ ↔ _
    simp
  | some found =>
    show Except.ok found = _ ↔ _
    simp

theorem resolveField_table (id : ClassId) (name descriptor : String) (t : ClassTable) :
    (resolveField id name descriptor t).2 = (ancestry id t).2 := by
  rw [resolveField, state_bind, state_get]
  cases (ancestry id t).1.findSome? ((ancestry id t).2.declaredField? name descriptor) <;> rfl

theorem owner_mem_ancestry {name descriptor : String} {field : FieldId}
    (h : (resolveField id name descriptor t).1 = .ok field) : field.owner ∈ (ancestry id t).1 := by
  obtain ⟨x, hx, hdeclared⟩ := List.exists_of_findSome?_eq_some (resolveField_ok.1 h)
  obtain ⟨c, _, hposition⟩ := Option.bind_eq_some_iff.1 hdeclared
  obtain ⟨index, _, rfl⟩ := Option.map_eq_some_iff.1 hposition
  exact hx

theorem findSome?_settles {name descriptor : String} (hs : t.Settles t') {xs : List ClassId}
    (hxs : ∀ x ∈ xs, ∃ c, t.get? x = some c) :
    xs.findSome? (t'.declaredField? name descriptor) = xs.findSome? (t.declaredField? name descriptor) := by
  induction xs with
  | nil => rfl
  | cons x xs ih =>
    obtain ⟨c, hc⟩ := hxs x (by simp)
    rw [List.findSome?_cons, List.findSome?_cons, declaredField?_settles hs hc,
      ih fun y hy => hxs y (by simp [hy])]

end Resolution

end ClassTable

end ClassMachine
