import ClassMachine.Proofs.Link.Requests
import Mathlib.Algebra.Order.Ring.Int
import Mathlib.Data.List.Nodup

/-!
Slots of instance fields. However a linker came about, the layout of a prepared class is the layout of
its superclass with the fields declared in the class after it. So the instance fields along a chain,
the root's first, have the slots 0, 1, 2 and so on, and they keep them.
-/
namespace ClassMachine
open Stateful

/-- Fields that every object has, in the order of declaration. -/
def ClassInfo.instanceFields (c : ClassInfo) : List Field := c.fields.toList.filter (!·.isStatic)

namespace ClassTable

def instanceFields (t : ClassTable) (id : ClassId) : List Field :=
  ((t.get? id).map (·.instanceFields)).getD []

/-- One class was found to be the superclass of the other. -/
def Extends (t : ClassTable) (id parent : ClassId) : Prop :=
  ∃ c, t.get? id = some c ∧ c.superLink = some (some parent)

/-- No class that links lead to is above itself. -/
def Acyclic (t : ClassTable) (id : ClassId) : Prop :=
  ∀ x, Relation.ReflTransGen t.Extends id x → ¬ Relation.TransGen t.Extends x x

variable {t : ClassTable} {id : ClassId} {ids : List ClassId} {kinds : List Kind}

theorem Acyclic.parent {parent : ClassId} (h : t.Acyclic id) (hp : t.Extends id parent) : t.Acyclic parent :=
  fun x hx => h x (.head hp hx)

/-- Links that are set and lead to no class twice lead to a last one, since there are only so many. -/
theorem Acyclic.rooted {P : ClassId → Prop} (h : t.Acyclic id) (hP : t.Followed P) (hid : P id) :
    t.Rooted id := by
  suffices hclimb : ∀ (fuel : Nat) (prior : List ClassId) (current : ClassId), t.Acyclic current → P current →
      prior.Nodup → (∀ x ∈ prior, P x ∧ Relation.TransGen t.Extends x current) →
      t.size < fuel + prior.length → t.Rooted current from
    hclimb (t.size + 1) [] id h hid (by simp) (by simp) (by simp)
  intro fuel
  induction fuel with
  | zero =>
    intro prior current _ _ hnodup hprior hfuel
    have hknown : ∀ x ∈ prior, ∃ c, t.get? x = some c := by
      intro x hx
      obtain ⟨c, _, hc, _⟩ := hP x (hprior x hx).1
      exact ⟨c, hc⟩
    have := length_le_size hnodup hknown
    omega
  | succ fuel ih =>
    intro prior current hacyclic hcurrent hnodup hprior hfuel
    obtain ⟨c, link, hc, hlink, hparent⟩ := hP current hcurrent
    cases link with
    | none => exact ⟨[], [], .last hc hlink⟩
    | some parent =>
      have hextends : t.Extends current parent := ⟨c, hc, hlink⟩
      have hfresh : current ∉ prior := fun hmem => hacyclic current .refl (hprior current hmem).2
      have hpassed : ∀ x ∈ current :: prior, P x ∧ Relation.TransGen t.Extends x parent := by
        intro x hx
        rcases List.mem_cons.1 hx with rfl | hx
        · exact ⟨hcurrent, .single hextends⟩
        · exact ⟨(hprior x hx).1, (hprior x hx).2.tail hextends⟩
      have hsize : t.size < fuel + (current :: prior).length := by
        simp only [List.length_cons]
        omega
      have hrooted := ih (current :: prior) parent (hacyclic.parent hextends) (hparent parent rfl)
        (List.nodup_cons.2 ⟨hfresh, hnodup⟩) hpassed hsize
      obtain ⟨p, hp⟩ := hrooted.known
      obtain ⟨ids, kinds, hline⟩ := hrooted
      exact ⟨_, _, .next hc hlink hp hline⟩

end ClassTable

namespace Linker
open ClassTable

theorem extendLayout_kinds (inherited : List Kind) (c : ClassInfo) :
    (extendLayout inherited c).kinds = inherited ++ c.instanceFields.map Field.kind := rfl

/-- Instance fields are numbered one after the other. -/
theorem slots_numberFields (next : Nat) (fields : List Field) :
    ((numberFields next fields).filter (!·.isStatic)).map Field.slot =
      (List.range' next (fields.filter (!·.isStatic)).length).map some := by
  induction fields generalizing next with
  | nil => rfl
  | cons f fields ih =>
    unfold numberFields
    by_cases hstatic : f.isStatic
    · simp [hstatic, ih]
    · have hplaced : Field.isStatic { f with slot := some next } = false := by
        show f.isStatic = false
        simpa using hstatic
      simp [hstatic, hplaced, ih, List.range'_succ]

end Linker

namespace ClassTable

variable {t : ClassTable} {id : ClassId} {ids : List ClassId} {kinds : List Kind}

/-- Classes along a chain that are laid out are in line. -/
theorem Orderly.line_of_mem (ht : t.Orderly) (hline : t.Line id ids kinds) (hid : t.Laid id) :
    ∀ x ∈ id :: ids, t.Laid x := (hline.before (.refl t) ht.upward hid).2

/-- What a class inherits is the layout of its superclass. -/
theorem Orderly.inherited (ht : t.Orderly) {parent : ClassId} {c p : ClassInfo}
    (hline : t.Line id ids kinds) (hc : t.get? id = some c) (hlaid : c.layout.isSome)
    (hlink : c.superLink = some (some parent)) (hp : t.get? parent = some p) : p.layout = some ⟨kinds⟩ := by
  have hall := ht.line_of_mem hline ⟨c, hc, hlaid⟩
  cases hline with
  | last hc' hlink' =>
    cases hc.symm.trans hc'
    cases hlink.symm.trans hlink'
  | next hc' hlink' hp' hrest =>
    cases hc.symm.trans hc'
    cases hlink.symm.trans hlink'
    cases hp.symm.trans hp'
    obtain ⟨p', hp', hlaid'⟩ := hall parent (by simp)
    cases hp.symm.trans hp'
    exact (ht.inLine parent p _ _ hp hlaid' hrest).1

/-- The instance fields along a chain, the last class's first: their kinds make up the layout, and
their slots count up from 0. -/
theorem Orderly.chain (ht : t.Orderly) {c : ClassInfo} (hline : t.Line id ids kinds)
    (hc : t.get? id = some c) (hlaid : c.layout.isSome) :
    ((id :: ids).reverse.flatMap t.instanceFields).map Field.kind = (Linker.extendLayout kinds c).kinds ∧
    ((id :: ids).reverse.flatMap t.instanceFields).map Field.slot =
      (List.range (Linker.extendLayout kinds c).kinds.length).map some := by
  have hall := ht.line_of_mem hline ⟨c, hc, hlaid⟩
  have hown : ∀ {x : ClassId} {cx : ClassInfo} {above : List ClassId} {inherited : List Kind},
      t.get? x = some cx → cx.layout.isSome → t.Line x above inherited →
      (t.instanceFields x).map Field.slot =
        (List.range' inherited.length cx.instanceFields.length).map some := by
    intro x cx above inherited hcx hlaid hline
    have hnumbered := (ht.inLine x cx above inherited hcx hlaid hline).2
    simp only [instanceFields, hcx, Option.map_some, Option.getD_some]
    rw [ClassInfo.instanceFields, hnumbered, Linker.slots_numberFields, ← hnumbered]
  induction hline generalizing c with
  | last hc' hlink =>
    cases hc.symm.trans hc'
    have hslots := hown hc hlaid (.last hc hlink)
    simp only [List.reverse_singleton, List.flatMap_cons, List.flatMap_nil, List.append_nil, hslots]
    simp [instanceFields, hc, Linker.extendLayout_kinds, List.range_eq_range']
  | @next id parent c' p ids kinds hc' hlink hp hrest ih =>
    obtain rfl : c = c' := Option.some.inj (hc.symm.trans hc')
    obtain ⟨p', hp', hlaidp⟩ := hall parent (by simp)
    cases hp.symm.trans hp'
    obtain ⟨hkinds, hslots⟩ := ih hp hlaidp fun x hx => hall x (by simp [List.mem_cons.1 hx])
    have hslots' := hown hc hlaid (.next hc hlink hp hrest)
    constructor
    · rw [List.reverse_cons, List.flatMap_append, List.map_append, hkinds]
      simp [instanceFields, hc, Linker.extendLayout_kinds]
    · rw [List.reverse_cons, List.flatMap_append, List.map_append, hslots]
      simp only [List.flatMap_cons, List.flatMap_nil, List.append_nil, hslots', ← List.map_append,
        List.range_eq_range']
      have hcount : ∀ m n : Nat, List.range' 0 m ++ List.range' m n = List.range' 0 (m + n) := by
        intro m n
        simpa using List.range'_append_1 (s := 0) (m := m) (n := n)
      rw [hcount, Linker.extendLayout_kinds _ c, List.length_append, List.length_map]

end ClassTable

namespace Linker
open ClassTable

/-- What holds of a prepared class, its layout and the classes above it. -/
structure LaidOut (l : Linker) (id : ClassId) (c : ClassInfo) (layout : Layout) : Prop where
  /-- The layout is that of the superclass, which is prepared as well, and the fields declared here
  stand after it in the order of declaration. -/
  appended : ∃ inherited : List Kind,
    (c.superLink = some none ∧ inherited = [] ∨
      ∃ parent p, c.superLink = some (some parent) ∧ l.classes.get? parent = some p ∧
        isPrepared p = true ∧ p.layout = some ⟨inherited⟩) ∧
    layout.kinds = inherited ++ c.instanceFields.map Field.kind ∧
    ∀ i f, c.instanceFields[i]? = some f → f.slot = some (inherited.length + i)
  /-- Fields of the class and of those above it are found in their slots. -/
  found : ∀ x ∈ (ancestry id l.classes).1, ∀ f ∈ l.classes.instanceFields x,
    ∃ slot, f.slot = some slot ∧ layout.kinds[slot]? = some f.kind
  distinct : (((ancestry id l.classes).1.flatMap l.classes.instanceFields).map Field.slot).Nodup
  size : layout.size = headerWeight + (layout.kinds.map Kind.weight).sum

theorem size_eq_sum (layout : Layout) : layout.size = headerWeight + (layout.kinds.map Kind.weight).sum := by
  have htotal : ∀ kinds : List Kind, total Kind.weight kinds = (kinds.map Kind.weight).sum := by
    intro kinds
    induction kinds with
    | nil => rfl
    | cons kind kinds ih => simp [ih]
  rw [Layout.size, htotal]

variable {l l' : Linker} {id : ClassId} {ids : List ClassId} {kinds : List Kind} {c : ClassInfo}

theorem isPrepared_of_laid (h : l.classes.Even) (hc : l.classes.get? id = some c) (hlaid : c.layout.isSome) :
    isPrepared c = true := by
  rw [isPrepared, hlaid, ← h id c hc, hlaid]
  rfl

theorem Reachable.appended (h : l.Reachable) (hc : l.classes.get? id = some c) (hlaid : c.layout.isSome)
    (hline : l.classes.Line id ids kinds) :
    (c.superLink = some none ∧ kinds = [] ∨
      ∃ parent p, c.superLink = some (some parent) ∧ l.classes.get? parent = some p ∧
        isPrepared p = true ∧ p.layout = some ⟨kinds⟩) ∧
    ∀ i f, c.instanceFields[i]? = some f → f.slot = some (kinds.length + i) := by
  constructor
  · obtain ⟨c', link, hc', hlink, hparent⟩ := h.orderly.upward id ⟨c, hc, hlaid⟩
    cases hc.symm.trans hc'
    cases link with
    | none => exact .inl ⟨hlink, (Line.unique (.last hc hlink) hline).2⟩
    | some parent =>
      obtain ⟨p, hp, hlaidp⟩ := hparent parent rfl
      have hlayout := h.orderly.inherited hline hc hlaid hlink hp
      exact .inr ⟨parent, p, hlink, hp, isPrepared_of_laid h.even hp hlaidp, hlayout⟩
  · intro i f hf
    have hnumbered := (h.orderly.inLine id c ids kinds hc hlaid hline).2
    have hslots := slots_numberFields kinds.length c.fields.toList
    rw [← hnumbered] at hslots
    have hslot := congrArg (·[i]?) hslots
    simp only [List.getElem?_map] at hslot
    rw [show (c.fields.toList.filter (!·.isStatic))[i]? = some f from hf, Option.map_some] at hslot
    obtain ⟨n, hn, heq⟩ := Option.map_eq_some_iff.1 hslot.symm
    obtain ⟨_, rfl⟩ := List.getElem?_eq_some_iff.1 hn
    simpa using heq.symm

/-- A class that is prepared extends the layout of its superclass, and every later linker has it as
it is, whatever is asked for in between. -/
theorem Reachable.laidOut {l : Linker} (h : l.Reachable) {id : ClassId} {c : ClassInfo}
    (hc : l.classes.get? id = some c) (hprepared : isPrepared c = true) (hacyclic : l.classes.Acyclic id) :
    ∃ layout, c.layout = some layout ∧ l.LaidOut id c layout ∧
      ∀ l', l.Leads l' → ∃ c', l'.classes.get? id = some c' ∧ c'.layout = some layout ∧
        c'.fields = c.fields ∧ c'.superLink = c.superLink := by
  have hlaid : c.layout.isSome := (Bool.and_eq_true_iff.1 hprepared).1
  obtain ⟨ids, kinds, hline⟩ := hacyclic.rooted h.orderly.upward ⟨c, hc, hlaid⟩
  have hlayout := (h.orderly.inLine id c ids kinds hc hlaid hline).1
  have hchain := ancestry_of_line (hline.settles (ancestry_grows id l.classes).settles)
  obtain ⟨hkinds, hslots⟩ := h.orderly.chain hline hc hlaid
  obtain ⟨habove, hown⟩ := h.appended hc hlaid hline
  refine ⟨extendLayout kinds c, hlayout, ⟨⟨kinds, habove, rfl, hown⟩, ?_, ?_, size_eq_sum _⟩, ?_⟩
  · intro x hx f hf
    rw [hchain] at hx
    have hmem : f ∈ (id :: ids).reverse.flatMap l.classes.instanceFields :=
      List.mem_flatMap.2 ⟨x, List.mem_reverse.2 hx, hf⟩
    obtain ⟨slot, hslot⟩ := List.mem_iff_getElem?.1 hmem
    have hkind := congrArg (·[slot]?) hkinds
    have hplace := congrArg (·[slot]?) hslots
    simp only [List.getElem?_map, hslot, Option.map_some] at hkind hplace
    obtain ⟨n, hn, heq⟩ := Option.map_eq_some_iff.1 hplace.symm
    obtain ⟨_, rfl⟩ := List.getElem?_eq_some_iff.1 hn
    exact ⟨slot, by simpa using heq.symm, hkind.symm⟩
  · rw [hchain, ((List.reverse_perm (id :: ids)).flatMap_right _).symm.map Field.slot |>.nodup_iff, hslots]
    exact List.nodup_range.map fun _ _ => Option.some.inj
  · intro l' hl
    obtain ⟨c', hc', hsettles⟩ := Leads.settles hl id c hc
    obtain ⟨hlayout', hfields⟩ := hsettles.layout _ hlayout
    obtain ⟨c₀, link, hc₀, hlink, _⟩ := h.orderly.upward id ⟨c, hc, hlaid⟩
    cases hc.symm.trans hc₀
    exact ⟨c', hc', hlayout', hfields, (hsettles.superLink link hlink).trans hlink.symm⟩

/-- Numbers that go down along links never come back. -/
theorem acyclic_of_descending {t : ClassTable}
    (h : ∀ id < t.size, ∀ parent ∈ ((t.get? id).bind (·.superLink)).join, parent < id) (id : ClassId) :
    t.Acyclic id := by
  have hlink : ∀ x y, t.Extends x y → y < x := by
    rintro x y ⟨c, hc, hlink⟩
    exact h x (Array.getElem?_eq_some_iff.1 hc).1 y (by simp [hc, hlink])
  have hdown : ∀ x y, Relation.TransGen t.Extends x y → y < x := by
    intro x y hxy
    induction hxy with
    | single hextends => exact hlink _ _ hextends
    | tail _ hextends ih => exact Nat.lt_trans (hlink _ _ hextends) ih
  exact fun x _ hxx => Nat.lt_irrefl x (hdown x x hxx)

/-- Two classes, the second prepared before the first was asked for. -/
def derivedFirst : Linker :=
  [Request.register { name := "Base", fields := [⟨"a", "I", {}⟩, ⟨"s", "I", .staticFlag⟩, ⟨"b", "J", {}⟩] },
    .register { name := "Derived", superName := some "Base", fields := [⟨"c", "LBase;", {}⟩] },
    .prepare 1].foldl (fun l r => r.run l) {}

theorem derivedFirst_laidOut : ∃ c layout, derivedFirst.classes.get? 1 = some c ∧ isPrepared c = true ∧
    c.layout = some layout ∧ layout.kinds = [.int, .long, .reference] ∧ derivedFirst.LaidOut 1 c layout := by
  have hreachable : derivedFirst.Reachable := ⟨.generic, leads_foldl _ _⟩
  have hacyclic : derivedFirst.classes.Acyclic 1 := acyclic_of_descending (by decide) 1
  have hfound : (derivedFirst.classes.get? 1).map (fun c => (isPrepared c, c.layout)) =
      some (true, some ⟨[.int, .long, .reference]⟩) := by decide
  obtain ⟨c, hc, heq⟩ := Option.map_eq_some_iff.1 hfound
  obtain ⟨hprepared, hlayout⟩ := Prod.mk.inj heq
  obtain ⟨layout, hlayout', hlaid, _⟩ := hreachable.laidOut hc hprepared hacyclic
  cases hlayout.symm.trans hlayout'
  exact ⟨c, _, hc, hprepared, hlayout, rfl, hlaid⟩

end Linker

end ClassMachine
