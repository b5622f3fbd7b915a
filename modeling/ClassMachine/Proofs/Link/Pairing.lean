import ClassMachine.Proofs.Link.Independence
import ClassMachine.Proofs.Link.Preparation

/-!
One body linked under both ways of field access. Binding fields at link time prepares classes that
access by name leaves alone, but names no class and links none differently. So the two runs go
through tables with the same hierarchy, and whatever one finds the other finds.
-/
namespace ClassMachine
open Stateful

namespace ClassTable

/-- Tables that name, declare and link the same classes. -/
structure SameHierarchy (t t' : ClassTable) : Prop where
  names : t'.byName = t.byName
  classes : ∀ id, (t'.get? id).map (fun c => (c.bare, c.superLink)) =
    (t.get? id).map fun c => (c.bare, c.superLink)

variable {t t' t₁ t₂ t₃ : ClassTable} {id : ClassId} {ids : List ClassId} {kinds : List Kind}

namespace SameHierarchy

theorem refl (t : ClassTable) : t.SameHierarchy t := ⟨rfl, fun _ => rfl⟩

theorem symm (h : t.SameHierarchy t') : t'.SameHierarchy t := ⟨h.names.symm, fun id => (h.classes id).symm⟩

theorem trans (h : t₁.SameHierarchy t₂) (h' : t₂.SameHierarchy t₃) : t₁.SameHierarchy t₃ :=
  ⟨h'.names.trans h.names, fun id => (h'.classes id).trans (h.classes id)⟩

theorem lookup? (h : t.SameHierarchy t') (name : String) : t'.lookup? name = t.lookup? name := by
  unfold ClassTable.lookup?
  rw [h.names]

theorem get? (h : t.SameHierarchy t') {c : ClassInfo} (hc : t.get? id = some c) :
    ∃ c', t'.get? id = some c' ∧ c'.bare = c.bare ∧ c'.superLink = c.superLink := by
  have hid := h.classes id
  rw [hc, Option.map_some] at hid
  obtain ⟨c', hc', heq⟩ := Option.map_eq_some_iff.1 hid
  exact ⟨c', hc', congrArg (·.1) heq, congrArg (·.2) heq⟩

theorem get?_none (h : t.SameHierarchy t') (hc : t.get? id = none) : t'.get? id = none := by
  simpa [hc] using h.classes id

theorem size_eq (h : t.SameHierarchy t') : t'.size = t.size := by
  have hle : ∀ {t t' : ClassTable}, t.SameHierarchy t' → t'.size ≤ t.size := by
    intro t t' h
    have hnone : t.get? t.size = none := get?_eq_none_of_size_le (Nat.le_refl _)
    exact Array.getElem?_eq_none_iff.1 (h.get?_none hnone)
  exact Nat.le_antisymm (hle h) (hle h.symm)

theorem line (h : t.SameHierarchy t') (hline : t.Line id ids kinds) : t'.Line id ids kinds := by
  induction hline with
  | last hc hlink =>
    obtain ⟨c', hc', _, hlink'⟩ := h.get? hc
    exact .last hc' (hlink'.trans hlink)
  | next hc hlink hp _ ih =>
    obtain ⟨c', hc', _, hlink'⟩ := h.get? hc
    obtain ⟨p', hp', hbare, _⟩ := h.get? hp
    rw [← Linker.extendLayout_bare hbare]
    exact .next hc' (hlink'.trans hlink) hp' ih

end SameHierarchy

theorem Spares.sameHierarchy (h : t.Spares t') : t.SameHierarchy t' := by
  refine ⟨h.names, fun id => ?_⟩
  have htied : ∀ c : ClassInfo, (c.bare, c.superLink) =
      ((c.skeleton.1, c.skeleton.2.2.1.toList.map Field.unplaced), c.skeleton.2.1) := fun _ => rfl
  have hid := congrArg (Option.map fun k : Option String × Option (Option ClassId) × Array Field ×
    Option Layout => ((k.1, k.2.2.1.toList.map Field.unplaced), k.2.1)) (h.classes id)
  simp only [Option.map_map, Function.comp_def] at hid
  simp only [htied]
  exact hid

theorem Lays.sameHierarchy (h : Lays ids t t') : t.SameHierarchy t' := by
  refine ⟨h.names, fun id => ?_⟩
  cases hc : t.get? id with
  | some c =>
    obtain ⟨c', hc', hsettles⟩ := h.settles id c hc
    obtain ⟨c₀, hc₀, hlink⟩ := h.links id c' hc'
    cases hc.symm.trans hc₀
    rw [hc', Option.map_some, Option.map_some, hsettles.bare, hlink]
  | none =>
    cases hc' : t'.get? id with
    | none => rfl
    | some c' =>
      obtain ⟨c₀, hc₀, _⟩ := h.links id c' hc'
      cases hc.symm.trans hc₀

section Climbing

theorem superclass_same (h : t.SameHierarchy t') (id : ClassId) :
    (superclass id t').1 = (superclass id t).1 ∧ (superclass id t).2.SameHierarchy (superclass id t').2 := by
  have hfound : (superclass id t').1 = (superclass id t).1 := by
    unfold superclass
    cases hc : t.get? id with
    | none => rw [h.get?_none hc]
    | some c =>
      obtain ⟨c', hc', hbare, hlink⟩ := h.get? hc
      rw [hc']
      dsimp only
      rw [hlink]
      cases c.superLink with
      | some link => rfl
      | none =>
        have hname : c'.superName = c.superName := congrArg (·.1) hbare
        simp only [findSuper, hname]
        cases c.superName with
        | none => rfl
        | some name =>
          simp only [h.lookup?]
          cases t.lookup? name <;> rfl
  refine ⟨hfound, ?_, fun x => ?_⟩
  · rw [byName_superclass, byName_superclass]
    exact h.names
  · rw [get?_superclass, get?_superclass, hfound]
    by_cases hx : id = x
    · have hclass := congrArg (Option.map fun p : (Option String × List Field) × Option (Option ClassId) =>
        (p.1, some (superclass id t).1)) (h.classes x)
      simp only [Option.map_map, Function.comp_def] at hclass
      simp only [if_pos hx, Option.map_map, Function.comp_def]
      exact hclass
    · simp only [if_neg hx]
      exact h.classes x

theorem climb_same (h : t.SameHierarchy t') (origin : ClassId) (fuel : Nat) (chain : List ClassId)
    (current : ClassId) : (climb origin fuel chain current t').1 = (climb origin fuel chain current t).1 ∧
      (climb origin fuel chain current t).2.SameHierarchy (climb origin fuel chain current t').2 := by
  induction fuel generalizing chain current t t' with
  | zero => exact ⟨rfl, h⟩
  | succ fuel ih =>
    obtain ⟨hfound, hsame⟩ := superclass_same h current
    rw [climb, state_bind, state_bind, hfound]
    generalize superclass current t' = r' at hsame
    generalize superclass current t = r at hsame
    obtain ⟨link, t₁⟩ := r
    cases link with
    | none => exact ⟨rfl, hsame⟩
    | some parent =>
      dsimp only
      split
      · refine ⟨rfl, ?_⟩
        have hrecord : ∀ (t : ClassTable) (subject : String),
            t.SameHierarchy (t.record .error subject "circular superclass chain") :=
          fun t subject => (spares_record t _ subject _).sameHierarchy
        exact ((hrecord t₁ _).symm.trans hsame).trans (hrecord r'.2 _)
      · exact ih hsame _ _

theorem ancestry_same (h : t.SameHierarchy t') (id : ClassId) :
    (ancestry id t').1 = (ancestry id t).1 ∧ (ancestry id t).2.SameHierarchy (ancestry id t').2 := by
  rw [ancestry, state_get, state_get, h.size_eq]
  exact climb_same h _ _ _ _

/-- Climbing along links that are set changes none. -/
theorem climb_followed {P : ClassId → Prop} (hP : t.Followed P) (origin : ClassId) (fuel : Nat)
    (chain : List ClassId) {current : ClassId} (hcurrent : P current) :
    t.SameHierarchy (climb origin fuel chain current t).2 := by
  induction fuel generalizing chain current with
  | zero => exact .refl t
  | succ fuel ih =>
    obtain ⟨c, link, hc, hlink, hparent⟩ := hP current hcurrent
    have hrun : superclass current t = (link, t) := by
      rw [superclass, hc]
      dsimp only
      rw [hlink]
    rw [climb, state_bind, hrun]
    cases link with
    | none => exact .refl t
    | some parent =>
      dsimp only
      split
      · exact (spares_record t _ _ _).sameHierarchy
      · exact ih _ (hparent parent rfl)

/-- Known classes that climbing has found have their links set. -/
theorem followed_ancestry (ht : t.Orderly) (id : ClassId) :
    (ancestry id t).2.Followed fun x => x ∈ (ancestry id t).1 ∧ ∃ c, (ancestry id t).2.get? x = some c := by
  obtain ⟨more, hclimbed⟩ := ancestry_climbed id t
  have hfound : (ancestry id t).1 = id :: more := by simpa using hclimbed.found_eq
  rintro x ⟨hx, c, hc⟩
  obtain ⟨link, hlink, hparent⟩ := hclimbed.closed x (hfound ▸ hx) c hc
  refine ⟨c, link, hc, hlink, fun parent hp => ⟨hparent parent hp, ?_⟩⟩
  exact (ht.ancestry id).linked x c parent hc (hp ▸ hlink)

theorem Settles.size_le (hs : t.Settles t') : t.size ≤ t'.size := by
  by_contra hlt
  have hlast : t'.size < t.size := by omega
  obtain ⟨c', hc', _⟩ := hs t'.size _ (Array.getElem?_eq_getElem hlast)
  rw [get?_eq_none_of_size_le (Nat.le_refl _)] at hc'
  cases hc'

/-- Climbing again, when links were set before, goes the same way, whether or not the chain ends. -/
theorem climb_again {origin origin' : ClassId} {fuel fuel' : Nat} {prior : List ClassId} {current : ClassId}
    (ht : t.Orderly) (hknown : ∀ x ∈ current :: prior, ∃ c, t.get? x = some c) (hnodup : (current :: prior).Nodup)
    (hfuel : t.size < fuel + prior.length) (hfuel' : t.size < fuel' + prior.length)
    (hs : (climb origin fuel (current :: prior) current t).2.Settles t') :
    (climb origin' fuel' (current :: prior) current t').1 = (climb origin fuel (current :: prior) current t).1 := by
  have hlength := length_le_size (List.nodup_cons.1 hnodup).2 fun x hx => hknown x (by simp [hx])
  induction fuel generalizing fuel' prior current t with
  | zero => omega
  | succ fuel ih =>
    cases fuel' with
    | zero => omega
    | succ fuel' =>
      obtain ⟨c, hc⟩ := hknown current (by simp)
      have hsuper := ht.steady (steady_superclass ht current)
      have hget := get?_superclass current current t
      have hsize := size_superclass current t
      have hsettles := superclass_settles current t
      rw [if_pos rfl, hc, Option.map_some] at hget
      rw [climb, state_bind] at hs ⊢
      rw [climb, state_bind]
      generalize superclass current t = r at *
      obtain ⟨link, t₁⟩ := r
      dsimp only at hs hget hsize hsettles hsuper ⊢
      have hlink : t₁.Settles t' → superclass current t' = (link, t') := by
        intro hlater
        obtain ⟨c', hc', hsettles'⟩ := hlater current _ hget
        simp only [superclass, hc', hsettles'.superLink link rfl]
      cases link with
      | none =>
        rw [hlink hs]
        rfl
      | some parent =>
        dsimp only at hs ⊢
        by_cases hmem : (current :: prior).contains parent = true
        · rw [if_pos hmem] at hs ⊢
          have hlogged := (spares_record t₁ .error (t₁.nameOf origin) "circular superclass chain").settles
          rw [hlink (hlogged.trans hs)]
          dsimp only
          rw [if_pos hmem]
          rfl
        · rw [if_neg hmem] at hs ⊢
          rw [hlink ((climb_grows origin fuel (parent :: current :: prior) parent t₁).settles.trans hs)]
          dsimp only
          rw [if_neg hmem]
          have hfresh : parent ∉ current :: prior := by simpa using hmem
          have hparent := hsuper.linked current _ parent hget rfl
          have hknown' : ∀ x ∈ parent :: current :: prior, ∃ c, t₁.get? x = some c := by
            intro x hx
            rcases List.mem_cons.1 hx with rfl | hx
            · exact hparent
            · exact hsettles.known (hknown x hx)
          have hnodup' : (parent :: current :: prior).Nodup := List.nodup_cons.2 ⟨hfresh, hnodup⟩
          have hlength' := length_le_size hnodup fun x hx => hknown' x (by simp [List.mem_cons.1 hx])
          simp only [List.length_cons] at hlength'
          exact ih hsuper hknown' hnodup' (by simp only [List.length_cons]; omega)
            (by simp only [List.length_cons]; omega) hs (by simpa using hlength')

/-- A class that was asked for its superclasses answers the same later on. -/
theorem ancestry_again (ht : t.Orderly) {c : ClassInfo} (hc : t.get? id = some c)
    (hs : (ancestry id t).2.Settles t') : (ancestry id t').1 = (ancestry id t).1 := by
  have hsize := ((ancestry_grows id t).settles.trans hs).size_le
  have hknown : ∀ x ∈ [id], ∃ c, t.get? x = some c := by
    intro x hx
    obtain rfl := List.mem_singleton.1 hx
    exact ⟨c, hc⟩
  exact climb_again ht hknown (by simp) (by simp) (by simp only [List.length_nil]; omega) hs

/-- Climbing from a class that is there finds classes that are there. -/
theorem climb_known (ht : t.Orderly) (origin : ClassId) (fuel : Nat) {chain : List ClassId} {current : ClassId}
    (hcurrent : ∃ c, t.get? current = some c) (hchain : ∀ x ∈ chain, ∃ c, t.get? x = some c) :
    ∀ x ∈ (climb origin fuel chain current t).1, ∃ c, (climb origin fuel chain current t).2.get? x = some c := by
  induction fuel generalizing chain current t with
  | zero => exact fun x hx => hchain x (List.mem_reverse.1 hx)
  | succ fuel ih =>
    obtain ⟨c, hc⟩ := hcurrent
    have hsuper := ht.steady (steady_superclass ht current)
    have hget := get?_superclass current current t
    have hsettles := superclass_settles current t
    rw [if_pos rfl, hc, Option.map_some] at hget
    rw [climb, state_bind]
    generalize superclass current t = r at *
    obtain ⟨link, t₁⟩ := r
    have hpassed : ∀ x ∈ chain.reverse, ∃ c, t₁.get? x = some c := fun x hx =>
      hsettles.known (hchain x (List.mem_reverse.1 hx))
    cases link with
    | none => exact hpassed
    | some parent =>
      dsimp only
      split
      · exact hpassed
      · have hparent := hsuper.linked current _ parent hget rfl
        apply ih hsuper hparent
        intro x hx
        rcases List.mem_cons.1 hx with rfl | hx
        · exact hparent
        · exact hsettles.known (hchain x hx)

/-- A field that was found is found again. -/
theorem resolveField_again (ht : t.Orderly) {name descriptor : String} {c : ClassInfo} (hc : t.get? id = some c)
    (hs : (ancestry id t).2.Settles t') {field : FieldId} :
    (resolveField id name descriptor t').1 = .ok field ↔ (resolveField id name descriptor t).1 = .ok field := by
  have hagain := ancestry_again ht hc hs
  have hs' := hs.trans (ancestry_grows id t').settles
  rw [resolveField_ok, resolveField_ok, hagain]
  have hknown : ∀ x ∈ (ancestry id t).1, ∃ c, (ancestry id t).2.get? x = some c :=
    climb_known ht id (t.size + 1) ⟨c, hc⟩ (by simpa using ⟨c, hc⟩)
  rw [findSome?_settles hs' hknown]

end Climbing

/-- Preparing a class whose links are set changes no link. -/
theorem sameHierarchy_prepare {P : ClassId → Prop} {l : Linker} (hP : l.classes.Followed P) (hid : P id) :
    l.classes.SameHierarchy (Linker.prepare id l).2.classes := by
  obtain ⟨c, _, hc, _⟩ := hP id hid
  rw [Linker.prepare_eq hc]
  split
  · exact .refl _
  · have hclimb : l.classes.SameHierarchy (ancestry id l.classes).2 := climb_followed hP _ _ _ hid
    exact hclimb.trans (Linker.foldlM_prepareOne_lays _ _ { l with classes := (ancestry id l.classes).2 }).sameHierarchy

/-- Tables in order with the same hierarchy. -/
structure Paired (t t' : ClassTable) : Prop where
  same : t.SameHierarchy t'
  left : t.Orderly
  right : t'.Orderly

theorem Paired.spares (h : t.Paired t') (hs : t.Spares t₁) (hs' : t'.Spares t₂) : t₁.Paired t₂ :=
  ⟨(hs.sameHierarchy.symm.trans h.same).trans hs'.sameHierarchy, h.left.steady (hs.steady h.left),
    h.right.steady (hs'.steady h.right)⟩

/-- Two questions that are answered as `R` says in paired tables, and leave them paired. -/
def Pairs {α β : Type} (R : α → β → Prop) (x : StateM ClassTable α) (y : StateM ClassTable β) : Prop :=
  ∀ t t', t.Paired t' → R (x t).1 (y t').1 ∧ (x t).2.Paired (y t').2

/-- A question that changes neither hierarchy nor layouts. -/
def Sparing {α : Type} (x : StateM ClassTable α) : Prop := ∀ t : ClassTable, t.Spares (x t).2

namespace Sparing

variable {α β : Type}

theorem pure (a : α) : Sparing (pure a : StateM ClassTable α) := fun _ => ⟨rfl, fun _ => rfl⟩

theorem bind {x : StateM ClassTable α} {f : α → StateM ClassTable β} (hx : Sparing x)
    (hf : ∀ a, Sparing (f a)) : Sparing (x >>= f) := fun t =>
  ⟨(hf _ _).names.trans (hx t).names, fun id => ((hf _ _).classes id).trans ((hx t).classes id)⟩

theorem get {f : ClassTable → StateM ClassTable β} (hf : ∀ t, Sparing (f t)) : Sparing (get >>= f) :=
  fun t => hf t t

end Sparing

namespace Pairs

variable {α β γ δ : Type} {R : α → β → Prop} {S : γ → δ → Prop}

theorem bind {x : StateM ClassTable α} {y : StateM ClassTable β} {f : α → StateM ClassTable γ}
    {g : β → StateM ClassTable δ} (hx : Pairs R x y) (hf : ∀ a b, R a b → Pairs S (f a) (g b)) :
    Pairs S (x >>= f) (y >>= g) := by
  intro t t' h
  obtain ⟨hR, hpaired⟩ := hx t t' h
  exact hf _ _ hR _ _ hpaired

theorem of_sparing {x : StateM ClassTable α} (hx : Sparing x) : Pairs (fun _ _ => True) x x :=
  fun t t' h => ⟨trivial, h.spares (hx t) (hx t')⟩

end Pairs

theorem allInterfaces_sparing (ids : List ClassId) : Sparing (allInterfaces ids) := by
  induction ids with
  | nil => exact .pure _
  | cons id ids ih =>
    apply Sparing.bind (spares_interfaces id)
    intro links
    exact ih.bind fun _ => .pure _

theorem searchInterfaces_sparing (name descriptor : String) (fuel : Nat) (seen pending : List ClassId) :
    Sparing (searchInterfaces name descriptor fuel seen pending) := by
  induction fuel generalizing seen pending with
  | zero => exact .pure _
  | succ fuel ih =>
    unfold searchInterfaces
    split
    · exact .pure _
    · apply Sparing.get
      intro t
      split
      · exact .pure _
      · exact Sparing.bind (spares_interfaces _) fun _ => ih _ _

theorem ancestry_pairs (id : ClassId) : Pairs Eq (ancestry id) (ancestry id) := by
  intro t t' h
  obtain ⟨hfound, hsame⟩ := ancestry_same h.same id
  exact ⟨hfound.symm, hsame, h.left.ancestry id, h.right.ancestry id⟩

theorem resolveMethod_pairs (id : ClassId) (name descriptor : String) :
    Pairs (fun _ _ => True) (resolveMethod id name descriptor) (resolveMethod id name descriptor) := by
  apply (ancestry_pairs id).bind
  rintro chain _ rfl
  apply Pairs.of_sparing
  apply Sparing.get
  intro t
  split
  · exact .pure _
  · apply (allInterfaces_sparing chain).bind
    intro pending
    apply Sparing.get
    intro t
    apply (searchInterfaces_sparing _ _ _ _ _).bind
    intro found
    split <;> exact .pure _

theorem declaredField?_same (h : t.SameHierarchy t') (name descriptor : String) :
    t'.declaredField? name descriptor = t.declaredField? name descriptor := by
  funext x
  unfold declaredField?
  cases hc : t.get? x with
  | none => rw [h.get?_none hc]
  | some c =>
    obtain ⟨c', hc', hbare, _⟩ := h.get? hc
    rw [hc', Option.bind_some, Option.bind_some, ClassInfo.fieldPosition?_bare hbare]

theorem resolveField_pairs (id : ClassId) (name descriptor : String) :
    Pairs (fun a b => ∀ field, a = .ok field ↔ b = .ok field) (resolveField id name descriptor)
      (resolveField id name descriptor) := by
  intro t t' h
  obtain ⟨hfound, hpaired⟩ := ancestry_pairs id t t' h
  rw [resolveField_table, resolveField_table]
  refine ⟨fun field => ?_, hpaired⟩
  rw [resolveField_ok, resolveField_ok, hfound, declaredField?_same hpaired.same]

section Arrays

theorem insert_pairs (h : t.Paired t') (name : String) (element : ElementType) :
    OutcomesAgree (fun p q => p.1 = q.1 ∧ p.2.Paired q.2) (t.insert name (t.arrayInfo name element))
      (t'.insert name (t'.arrayInfo name element)) := by
  have hlookup := h.same.lookup?
  cases hleft : t.insert name (t.arrayInfo name element) with
  | error e =>
    have hright : t'.insert name (t'.arrayInfo name element) = .error e := by
      unfold insert at hleft ⊢
      rw [h.same.names]
      split at hleft
      · next hname => rw [if_pos hname, hleft]
      · cases hleft
    rw [hright]
    exact .error e
  | ok p =>
    obtain ⟨q, hright⟩ : ∃ q, t'.insert name (t'.arrayInfo name element) = .ok q := by
      unfold insert at hleft ⊢
      rw [h.same.names]
      split at hleft
      · cases hleft
      · next hname => exact ⟨_, if_neg hname⟩
    rw [hright]
    have hlinks : ∀ (t : ClassTable) (id parent : ClassId),
        (t.arrayInfo name element id).superLink = some (some parent) → ∃ name, t.lookup? name = some parent :=
      fun t id parent h => ⟨objectClass, Option.some.inj h⟩
    have hleft' := h.left.steady (steady_insert h.left hleft rfl (hlinks t _))
    have hright' := h.right.steady (steady_insert h.right hright rfl (hlinks t' _))
    obtain ⟨hid, _, _, hclasses, _⟩ := insert_eq hleft
    obtain ⟨hid', _, _, hclasses', _⟩ := insert_eq hright
    refine .ok ⟨by rw [hid, hid', h.same.size_eq], ⟨?_, fun x => ?_⟩, hleft', hright'⟩
    · unfold insert at hleft hright
      split at hleft
      · cases hleft
      · split at hright
        · cases hright
        · cases hleft
          cases hright
          dsimp only
          rw [h.same.names, h.same.size_eq]
    · rw [get?_push hclasses, get?_push hclasses', h.same.size_eq]
      split
      · simp only [Option.map_some, ClassInfo.bare, arrayInfo, hlookup]
      · exact h.same.classes x

theorem arrayOfType_pairs (h : t.Paired t') (component : FieldType) :
    OutcomesAgree (fun p q => p.1 = q.1 ∧ p.2.Paired q.2) (t.arrayOfType component) (t'.arrayOfType component) := by
  have hlookup := h.same.lookup?
  induction component with
  | primitive kind =>
    unfold arrayOfType
    simp only [hlookup]
    split
    · exact .ok ⟨rfl, h⟩
    · exact insert_pairs h _ _
  | object element =>
    unfold arrayOfType
    simp only [hlookup]
    split
    · exact .ok ⟨rfl, h⟩
    · split
      · exact insert_pairs h _ _
      · exact .error _
  | array inner ih =>
    unfold arrayOfType
    simp only [hlookup]
    split
    · exact .ok ⟨rfl, h⟩
    · generalize t.arrayOfType inner = r at ih
      generalize t'.arrayOfType inner = r' at ih
      cases ih with
      | error e => exact .error e
      | ok hrel =>
        obtain ⟨hid, hpaired⟩ := hrel
        dsimp only
        rw [hid]
        exact insert_pairs hpaired _ _

theorem arrayClass_pairs (name : String) :
    Pairs (fun a b => a.toOption = b.toOption) (arrayClass name) (arrayClass name) := by
  intro t t' h
  unfold arrayClass
  rw [h.same.lookup?]
  cases t.lookup? name with
  | some id => exact ⟨rfl, h⟩
  | none =>
    dsimp only
    split
    · next component _ =>
      have hrel := arrayOfType_pairs h component
      generalize t.arrayOfType component = r at hrel
      generalize t'.arrayOfType component = r' at hrel
      cases hrel with
      | error e => exact ⟨rfl, h⟩
      | ok hrel => exact ⟨congrArg some hrel.1, hrel.2⟩
    · exact ⟨rfl, h⟩

theorem resolveName_pairs (name : String) : Pairs Eq (resolveName name) (resolveName name) := by
  intro t t' h
  unfold resolveName
  split
  · exact arrayClass_pairs name t t' h
  · exact ⟨(h.same.lookup? name).symm, h⟩

end Arrays

end ClassTable

/-- Linkers of the two ways of field access whose tables are paired. -/
structure Linker.Paired (l l' : Linker) : Prop where
  classes : l.classes.Paired l'.classes
  generic : l.access = .generic
  bridge : l'.access = .precompiledBridge

namespace LinkM

/-- Two computations whose results are as `R` says when both succeed on paired linkers, and which
leave the linkers paired. -/
def Twin {α β : Type} (R : α → β → Prop) (x : LinkM α) (y : LinkM β) : Prop :=
  ∀ l l' a b k k', Linker.Paired l l' → x l = .ok a k → y l' = .ok b k' → R a b ∧ Linker.Paired k k'

/-- A computation that changes neither hierarchy nor layouts. -/
def Aside {α : Type} (x : LinkM α) : Prop :=
  ∀ l a k, x l = .ok a k → l.classes.Spares k.classes ∧ k.access = l.access

namespace Aside

variable {α β : Type}

theorem pure (a : α) : Aside (pure a) := by
  rintro l _ _ ⟨⟩
  exact ⟨⟨rfl, fun _ => rfl⟩, rfl⟩

theorem throw (e : LinkError) : Aside (throw e : LinkM α) := by
  rintro l _ _ ⟨⟩

theorem bind {x : LinkM α} {f : α → LinkM β} (hx : Aside x) (hf : ∀ a, Aside (f a)) : Aside (x >>= f) := by
  intro l b k h
  obtain ⟨a, l₁, hrun, hrest⟩ := bind_ok.1 h
  obtain ⟨hspares, haccess⟩ := hx l a l₁ hrun
  obtain ⟨hspares', haccess'⟩ := hf a l₁ b k hrest
  exact ⟨⟨hspares'.names.trans hspares.names,
    fun id => (hspares'.classes id).trans (hspares.classes id)⟩, haccess'.trans haccess⟩

theorem get {f : Linker → LinkM β} (hf : ∀ l, Aside (f l)) : Aside (get >>= f) := fun l => hf l l

theorem record (severity : Severity) (subject message : String) :
    Aside (LinkM.ofState (Linker.record severity subject message)) := by
  rintro l _ _ ⟨⟩
  exact ⟨ClassTable.spares_record l.classes severity subject message, rfl⟩

theorem intern (name descriptor : String) : Aside (LinkM.ofState (Linker.intern name descriptor)) := by
  rintro l _ _ ⟨⟩
  exact ⟨⟨rfl, fun _ => rfl⟩, rfl⟩

end Aside

namespace Twin

variable {α β γ δ : Type} {R : α → β → Prop} {S : γ → δ → Prop}

theorem bind {x : LinkM α} {y : LinkM β} {f : α → LinkM γ} {g : β → LinkM δ} (hx : Twin R x y)
    (hf : ∀ a b, R a b → Twin S (f a) (g b)) : Twin S (x >>= f) (y >>= g) := by
  intro l l' c d k k' h hrun hrun'
  obtain ⟨a, l₁, ha, hc⟩ := bind_ok.1 hrun
  obtain ⟨b, l₁', hb, hd⟩ := bind_ok.1 hrun'
  obtain ⟨hR, hpaired⟩ := hx l l' a b l₁ l₁' h ha hb
  exact hf a b hR l₁ l₁' c d k k' hpaired hc hd

theorem of_aside {x : LinkM α} {y : LinkM β} (hx : Aside x) (hy : Aside y) : Twin (fun _ _ => True) x y := by
  intro l l' a b k k' h hrun hrun'
  obtain ⟨hspares, haccess⟩ := hx l a k hrun
  obtain ⟨hspares', haccess'⟩ := hy l' b k' hrun'
  exact ⟨trivial, h.classes.spares hspares hspares', haccess.trans h.generic, haccess'.trans h.bridge⟩

theorem bind_aside {R : α → α → Prop} {x y : LinkM α} {f : α → LinkM γ} (hx : Twin R x y)
    (hf : ∀ a, Aside (f a)) : Twin (fun _ _ => True) (x >>= f) (y >>= f) :=
  hx.bind fun a b _ => .of_aside (hf a) (hf b)

theorem get {f : Linker → LinkM α} {g : Linker → LinkM β} (hf : ∀ l l', l.Paired l' → Twin R (f l) (g l')) :
    Twin R (get >>= f) (get >>= g) := fun l l' a b k k' h => hf l l' h l l' a b k k' h

theorem ofExcept (x : Except LinkError α) {f : α → LinkM γ} {g : α → LinkM δ}
    (hf : ∀ a, Twin S (f a) (g a)) :
    Twin S (LinkM.ofExcept x >>= f) (LinkM.ofExcept x >>= g) := by
  cases x with
  | ok a => exact hf a
  | error e =>
    rintro _ _ _ _ _ _ _ ⟨⟩

theorem ofClasses {x : StateM ClassTable α} {y : StateM ClassTable β} (h : ClassTable.Pairs R x y) :
    Twin R (LinkM.ofClasses x) (LinkM.ofClasses y) := by
  rintro l l' _ _ _ _ hpaired ⟨⟩ ⟨⟩
  obtain ⟨hR, hclasses⟩ := h l.classes l'.classes hpaired.classes
  exact ⟨hR, hclasses, hpaired.generic, hpaired.bridge⟩

end Twin

end LinkM

namespace SymbolSite
open LinkM ClassTable

variable (s : SymbolSite)

theorem missing_aside (kind : SymbolKind) (symbol : String) (pops : List Category) (push : Option Category) :
    Aside (s.missing kind symbol pops push) := (Aside.record _ _ _).bind fun _ => .pure _

theorem loadConstant_twin (index : Nat) (wide : Bool) :
    Twin (fun _ _ => True) (s.loadConstant index wide) (s.loadConstant index wide) := by
  apply Twin.ofExcept
  intro c
  split
  · exact .of_aside (.pure _) (.pure _)
  · exact .of_aside (.pure _) (.pure _)
  · exact .of_aside (.pure _) (.pure _)
  · apply (Twin.ofClasses (resolveName_pairs _)).bind_aside
    intro id?
    cases id? with
    | some id => exact .pure _
    | none => exact s.missing_aside _ _ _ _
  · exact .of_aside (.pure _) (.pure _)
  · exact .of_aside (.pure _) (.pure _)
  · exact .of_aside (.throw _) (.throw _)

theorem staticField_twin (index : Nat) (put : Bool) :
    Twin (fun _ _ => True) (s.staticField index put) (s.staticField index put) := by
  apply Twin.ofExcept
  intro member
  apply Twin.ofExcept
  intro type
  apply Twin.get
  intro l l' h
  rw [h.classes.same.lookup?]
  cases l.classes.lookup? member.owner with
  | none => exact .of_aside (s.missing_aside _ _ _ _) (s.missing_aside _ _ _ _)
  | some owner =>
    apply (Twin.ofClasses (resolveField_pairs _ _ _)).bind_aside
    intro found
    cases found with
    | error e => exact s.missing_aside _ _ _ _
    | ok id =>
      apply Aside.get
      intro l
      split
      · exact s.missing_aside _ _ _ _
      · exact .pure _

theorem invoke_twin (kind : InvokeKind) (index : Nat) :
    Twin (fun _ _ => True) (s.invoke kind index) (s.invoke kind index) := by
  apply Twin.ofExcept
  intro member
  apply Twin.ofExcept
  intro descriptor
  apply (Twin.ofClasses (resolveName_pairs _)).bind
  rintro owner? _ rfl
  cases owner? with
  | none => exact .of_aside (s.missing_aside _ _ _ _) (s.missing_aside _ _ _ _)
  | some owner =>
    apply (Twin.ofClasses (resolveMethod_pairs owner member.name member.descriptor)).bind_aside
    intro found
    cases found with
    | error e => exact s.missing_aside _ _ _ _
    | ok method =>
      cases kind with
      | static => exact .pure _
      | special => exact .pure _
      | interface => exact (Aside.intern _ _).bind fun _ => .pure _
      | virtual =>
        apply (Aside.intern _ _).bind
        intro signature
        split <;> exact .pure _

theorem classUse_twin (use : ClassUse) (index : Nat) :
    Twin (fun _ _ => True) (s.classUse use index) (s.classUse use index) := by
  apply Twin.ofExcept
  intro name
  apply (Twin.ofClasses (resolveName_pairs _)).bind_aside
  intro id?
  cases id? with
  | some id => cases use <;> exact .pure _
  | none => cases use <;> exact s.missing_aside _ _ _ _

/-- What an access to a field that is found links to by name. -/
def namedAccess (put : Bool) (member : MemberRef) (kind : Kind) : Instruction :=
  if put then .putField member.name member.descriptor kind
  else .getField member.name member.descriptor kind

/-- What an access links to when the slot is bound. -/
def slotAccess (put : Bool) (slot : Nat) (kind : Kind) : Instruction :=
  if put then .putFieldSlot slot kind else .getFieldSlot slot kind

/-- What an access to a field that is found links to, when the slot may be bound. -/
def boundAccess (put : Bool) (member : MemberRef) (kind : Kind) : Option (Nat × Kind) → Instruction
  | some (slot, kind) => slotAccess put slot kind
  | none => namedAccess put member kind

section Found

variable {s} {put : Bool} {member : MemberRef} {type : FieldType} {l k : Linker} {owner : ClassId}
  {field : FieldId} {t : ClassTable}

/-- An access to a field that is found takes the form its slot decides. -/
theorem instanceAccess_found {slot? : Option (Nat × Kind)} (hl : l.classes.lookup? member.owner = some owner)
    (hfound : resolveField owner member.name member.descriptor l.classes = (.ok field, t))
    (hslot : fieldSlot? field { l with classes := t } = .ok slot? k) :
    s.instanceAccess put member type l = .ok (boundAccess put member type.kind slot?) k := by
  have hresolve : LinkM.ofClasses (resolveField owner member.name member.descriptor) l =
      .ok (.ok field) { l with classes := t } := by
    show EStateM.Result.ok (resolveField owner member.name member.descriptor l.classes).1
      { l with classes := (resolveField owner member.name member.descriptor l.classes).2 } = _
    rw [hfound]
  unfold instanceAccess
  rw [bind_get, hl]
  dsimp only
  rw [bind_of_ok hresolve]
  dsimp only
  rw [bind_of_ok hslot]
  cases slot? <;> rfl

theorem fieldSlot?_generic (h : l.access = .generic) (field : FieldId) : fieldSlot? field l = .ok none l := by
  unfold fieldSlot?
  rw [bind_get, h]
  rfl

theorem fieldSlot?_bridge (h : l.access = .precompiledBridge) (field : FieldId) :
    fieldSlot? field l = .ok ((Linker.prepare field.owner l).1.bind fun c =>
      (c.fields[field.index]?).bind Field.accessor?) (Linker.prepare field.owner l).2 := by
  unfold fieldSlot?
  rw [bind_get, h]
  rfl

/-- What stands in for an access to a field that is not found. -/
def missingAccess (put : Bool) (member : MemberRef) (type : FieldType) (known : Bool) : Instruction :=
  .unresolved ⟨if known then .field else .type, if known then member.text else member.owner,
    if put then [.one, type.category] else [.one], if put then none else some type.category⟩

/-- An access to a class or a field that is not found is left unresolved, in the table that the search
has left. -/
theorem instanceAccess_missing (s : SymbolSite) (put : Bool) (type : FieldType)
    (h : ∀ owner field, l.classes.lookup? member.owner = some owner →
      (resolveField owner member.name member.descriptor l.classes).1 ≠ .ok field) :
    ∃ k, s.instanceAccess put member type l =
        .ok (missingAccess put member type (l.classes.lookup? member.owner).isSome) k ∧ k.access = l.access ∧
      (((l.classes.lookup? member.owner).map fun owner =>
        (resolveField owner member.name member.descriptor l.classes).2).getD l.classes).Spares k.classes := by
  unfold instanceAccess
  rw [bind_get]
  cases hl : l.classes.lookup? member.owner with
  | none => exact ⟨_, rfl, rfl, spares_record l.classes _ _ _⟩
  | some owner =>
    have hresolve : LinkM.ofClasses (resolveField owner member.name member.descriptor) l =
        .ok (resolveField owner member.name member.descriptor l.classes).1
          { l with classes := (resolveField owner member.name member.descriptor l.classes).2 } := rfl
    dsimp only [Option.map_some, Option.getD_some]
    rw [bind_of_ok hresolve]
    cases hfound : (resolveField owner member.name member.descriptor l.classes).1 with
    | ok field => exact absurd hfound (h owner field hl)
    | error e => exact ⟨_, rfl, rfl, spares_record _ _ _ _⟩

end Found

/-- What becomes of an access to a field that is found, under each way of access. -/
theorem instanceAccess_twice {l l' : Linker} {owner : ClassId} {field : FieldId} {member : MemberRef}
    (h : l.Paired l') (hl : l.classes.lookup? member.owner = some owner)
    (hfield : (resolveField owner member.name member.descriptor l.classes).1 = .ok field)
    (put : Bool) (type : FieldType) :
    ∃ k k', Linker.Paired k k' ∧
      (resolveField owner member.name member.descriptor l'.classes).1 = .ok field ∧
      k' = (Linker.prepare field.owner
        { l' with classes := (resolveField owner member.name member.descriptor l'.classes).2 }).2 ∧
      s.instanceAccess put member type l = .ok (namedAccess put member type.kind) k ∧
      s.instanceAccess put member type l' = .ok (boundAccess put member type.kind
        ((k'.classes.get? field.owner).bind fun c => (c.fields[field.index]?).bind Field.accessor?)) k' := by
  obtain ⟨hsame, hpaired⟩ := resolveField_pairs owner member.name member.descriptor _ _ h.classes
  have hfield' := (hsame field).1 hfield
  have hl' := (h.classes.same.lookup? member.owner).trans hl
  obtain ⟨c, _, hc, _⟩ := resolveField_found (Prod.ext hfield' rfl)
  have hfollowed := followed_ancestry h.classes.right owner
  rw [← resolveField_table owner member.name member.descriptor] at hfollowed
  let g : Linker := { l with classes := (resolveField owner member.name member.descriptor l.classes).2 }
  let b : Linker := { l' with classes := (resolveField owner member.name member.descriptor l'.classes).2 }
  have hslot := fieldSlot?_bridge (l := b) h.bridge field
  rw [prepare_fst] at hslot
  refine ⟨g, (Linker.prepare field.owner b).2, ⟨⟨hpaired.same.trans ?_, hpaired.left, ?_⟩, h.generic, ?_⟩,
    hfield', rfl, ?_, ?_⟩
  · exact sameHierarchy_prepare (l := b) hfollowed ⟨owner_mem_ancestry hfield', c, hc⟩
  · exact Linker.prepare_orderly (l := b) hpaired.right field.owner
  · exact (Linker.prepare_grows field.owner b).access.trans h.bridge
  · exact instanceAccess_found hl (Prod.ext hfield rfl) (fieldSlot?_generic (l := g) h.generic field)
  · exact instanceAccess_found hl' (Prod.ext hfield' rfl) hslot

/-- Binding a slot prepares the declaring class, whose links the search for the field has set. -/
theorem instanceAccess_twin (put : Bool) (member : MemberRef) (type : FieldType) :
    Twin (fun _ _ => True) (s.instanceAccess put member type) (s.instanceAccess put member type) := by
  intro l l' i i' k k' h hrun hrun'
  have hlookup := h.classes.same.lookup? member.owner
  have hpairs := fun owner => resolveField_pairs owner member.name member.descriptor _ _ h.classes
  by_cases hfound : ∃ owner field, l.classes.lookup? member.owner = some owner ∧
      (resolveField owner member.name member.descriptor l.classes).1 = .ok field
  · obtain ⟨owner, field, hl, hfield⟩ := hfound
    obtain ⟨k₁, k₁', hpaired, _, _, heq, heq'⟩ := s.instanceAccess_twice h hl hfield put type
    rw [heq] at hrun
    rw [heq'] at hrun'
    cases hrun
    cases hrun'
    exact ⟨trivial, hpaired⟩
  · have hmissing : ∀ owner field, l.classes.lookup? member.owner = some owner →
        (resolveField owner member.name member.descriptor l.classes).1 ≠ .ok field :=
      fun owner field hl hfield => hfound ⟨owner, field, hl, hfield⟩
    have hmissing' : ∀ owner field, l'.classes.lookup? member.owner = some owner →
        (resolveField owner member.name member.descriptor l'.classes).1 ≠ .ok field :=
      fun owner field hl hfield =>
        hmissing owner field (hlookup.symm.trans hl) (((hpairs owner).1 field).2 hfield)
    obtain ⟨k₁, heq, haccess, hspares⟩ := s.instanceAccess_missing put type hmissing
    obtain ⟨k₁', heq', haccess', hspares'⟩ := s.instanceAccess_missing put type hmissing'
    rw [heq] at hrun
    rw [heq'] at hrun'
    cases hrun
    cases hrun'
    refine ⟨trivial, ?_, haccess.trans h.generic, haccess'.trans h.bridge⟩
    rw [hlookup] at hspares'
    cases hl : l.classes.lookup? member.owner with
    | none =>
      rw [hl] at hspares hspares'
      exact h.classes.spares hspares hspares'
    | some owner =>
      rw [hl] at hspares hspares'
      exact (hpairs owner).2.spares hspares hspares'

theorem resolve_twin (op : Operation) : Twin (fun _ _ => True) (s.resolve op) (s.resolve op) := by
  cases op with
  | plain i => exact .of_aside (.pure _) (.pure _)
  | loadConstant index wide => exact s.loadConstant_twin index wide
  | staticField index put => exact s.staticField_twin index put
  | instanceField index put =>
    apply Twin.ofExcept
    intro member
    apply Twin.ofExcept
    intro type
    exact s.instanceAccess_twin put member type
  | invoke kind index => exact s.invoke_twin kind index
  | classUse use index => exact s.classUse_twin use index

end SymbolSite

namespace Decoding
open LinkM

/-- The two forms of the instruction at `pc` when a body is linked under both ways of access; the
second run goes on to the linker `k'`. -/
structure LinkedTwice (pool : ConstantPool) (subject : String) (b : Body) (k' : Linker) (pc : Nat)
    (i i' : Instruction) : Prop where
  linked : ∃ op l l₁ l' l₁', operation b pc = .ok op ∧ Linker.Paired l l' ∧
    SymbolSite.resolve ⟨pool, subject, pc⟩ op l = .ok i l₁ ∧
    SymbolSite.resolve ⟨pool, subject, pc⟩ op l' = .ok i' l₁' ∧ l₁'.Moves k'

variable {pool : ConstantPool} {subject : String}

theorem ofExcept_ok {α : Type} {x : Except LinkError α} {a : α} {l k : Linker} (h : LinkM.ofExcept x l = .ok a k) :
    x = .ok a ∧ l = k := by
  cases x with
  | ok b =>
    cases h
    exact ⟨rfl, rfl⟩
  | error e => cases h

theorem linkInstructions_twice {b : Body} {pcs : List Nat} {l l' k k' : Linker} {is is' : List Instruction}
    (h : l.Paired l') (hrun : linkInstructions pool subject b pcs l = .ok is k)
    (hrun' : linkInstructions pool subject b pcs l' = .ok is' k') {index pc : Nat} {i i' : Instruction}
    (hpc : pcs[index]? = some pc) (hi : is[index]? = some i) (hi' : is'[index]? = some i') :
    LinkedTwice pool subject b k' pc i i' := by
  induction pcs generalizing index l l' is is' with
  | nil => simp at hpc
  | cons first pcs ih =>
    obtain ⟨op, l₁, hop, hrun⟩ := bind_ok.1 hrun
    obtain ⟨j, l₂, hj, hrun⟩ := bind_ok.1 hrun
    obtain ⟨js, l₃, hjs, hrun⟩ := bind_ok.1 hrun
    cases hrun
    obtain ⟨op', l₁', hop', hrun'⟩ := bind_ok.1 hrun'
    obtain ⟨j', l₂', hj', hrun'⟩ := bind_ok.1 hrun'
    obtain ⟨js', l₃', hjs', hrun'⟩ := bind_ok.1 hrun'
    cases hrun'
    obtain ⟨hoperation, rfl⟩ := ofExcept_ok hop
    obtain ⟨hoperation', rfl⟩ := ofExcept_ok hop'
    cases hoperation.symm.trans hoperation'
    have hpaired := (SymbolSite.resolve_twin ⟨pool, subject, first⟩ op l l' j j' l₂ l₂' h hj hj').2
    cases index with
    | zero =>
      cases hpc
      cases hi
      cases hi'
      have hmoves := (linkInstructions_moves pool subject b pcs l₂').of_ok hjs'
      exact ⟨op, l, l₂, l', l₂', hoperation, h, hj, hj', hmoves⟩
    | succ index => exact ih hpaired hjs hjs' hpc hi hi'

/-- Every instruction of a body that is linked under both ways of access. -/
theorem decode_twice {raw : RawCode} {l l' k k' : Linker} {code code' : LinkedCode} (h : l.Paired l')
    (hrun : decode pool subject raw l = .ok code k) (hrun' : decode pool subject raw l' = .ok code' k')
    {pcs : List Nat} (hpcs : starts raw.code = .ok pcs) {index pc : Nat} {i i' : Instruction}
    (hpc : pcs[index]? = some pc) (hi : code.instructions[index]? = some i)
    (hi' : code'.instructions[index]? = some i') :
    LinkedTwice pool subject (Body.ofStarts raw.code pcs) k' pc i i' := by
  have hsplit : ∀ {l k : Linker} {code : LinkedCode}, decode pool subject raw l = .ok code k → ∃ is l₁,
      linkInstructions pool subject (Body.ofStarts raw.code pcs) pcs l = .ok is l₁ ∧
        code.instructions = is.toArray ∧ l₁.Moves k := by
    intro l k code hrun
    unfold decode at hrun
    split at hrun
    · cases hrun
    · obtain ⟨pcs', l₀, hstarts, hrun⟩ := bind_ok.1 hrun
      obtain ⟨hsame, rfl⟩ := ofExcept_ok hstarts
      cases hpcs.symm.trans hsame
      obtain ⟨is, l₁, his, hrun⟩ := bind_ok.1 hrun
      obtain ⟨handlers, l₂, hhandlers, hrun⟩ := bind_ok.1 hrun
      cases hrun
      exact ⟨is, l₁, his, rfl, (linkHandlers_moves pool subject _ raw.handlers l₁).of_ok hhandlers⟩
  obtain ⟨is, l₁, his, hcode, _⟩ := hsplit hrun
  obtain ⟨is', l₁', his', hcode', hmoves⟩ := hsplit hrun'
  rw [hcode, List.getElem?_toArray] at hi
  rw [hcode', List.getElem?_toArray] at hi'
  obtain ⟨op, m, m₁, m', m₁', hop, hpaired, hj, hj', hlater⟩ :=
    (linkInstructions_twice h his his' hpc hi hi').linked
  exact ⟨op, m, m₁, m', m₁', hop, hpaired, hj, hj', hlater.trans hmoves⟩

/-- A field that the second run has bound to its slot: it was found from the class that the operand
names, and the class that declares it has been laid out. -/
structure Bound (member : MemberRef) (k' : Linker) (field : FieldId) (slot : Nat) : Prop where
  found : ∃ (t : ClassTable) (owner : ClassId) (c : ClassInfo), t.Orderly ∧ t.get? owner = some c ∧
    (ClassTable.resolveField owner member.name member.descriptor t).1 = .ok field ∧
    (ClassTable.ancestry owner t).2.Settles k'.classes ∧ k'.classes.lookup? member.owner = some owner
  placed : ∃ c f, k'.classes.get? field.owner = some c ∧ c.layout.isSome ∧
    c.fields[field.index]? = some f ∧ f.slot = some slot

theorem Bound.later {member : MemberRef} {k k' : Linker} {field : FieldId} {slot : Nat}
    (h : Bound member k field slot) (hs : k.classes.Settles k'.classes)
    (hnames : ∀ name id, k.classes.lookup? name = some id → k'.classes.lookup? name = some id) :
    Bound member k' field slot := by
  obtain ⟨t, owner, c, ht, hc, hfound, hsettles, hl⟩ := h.found
  obtain ⟨c₁, f, hc₁, hlaid, hf, hslot⟩ := h.placed
  obtain ⟨c₂, hc₂, hsettled⟩ := hs field.owner c₁ hc₁
  refine ⟨⟨t, owner, c, ht, hc, hfound, hsettles.trans hs, hnames _ _ hl⟩,
    c₂, f, hc₂, hsettled.isSome_layout hlaid, ?_, hslot⟩
  rw [hsettled.fields_eq hlaid]
  exact hf

/-- A class that is prepared has been laid out, whether or not its chain ends. -/
theorem prepare_isSome_layout {l : Linker} {id : ClassId} {c₀ c : ClassInfo} (hc₀ : l.classes.get? id = some c₀)
    (hc : (Linker.prepare id l).2.classes.get? id = some c) : c.layout.isSome := by
  rw [Linker.prepare_eq hc₀] at hc
  split at hc
  · next hprepared =>
    cases hc₀.symm.trans hc
    exact (Bool.and_eq_true_iff.1 hprepared).1
  · obtain ⟨more, hclimbed⟩ := ClassTable.ancestry_climbed id l.classes
    have hlays := Linker.foldlM_prepareOne_lays (ClassTable.ancestry id l.classes).1.reverse {}
      { l with classes := (ClassTable.ancestry id l.classes).2 }
    exact hlays.laid id (by simp [hclimbed.found_eq]) c hc

/-- What the second run does with a field that is found. -/
theorem bound_of_found {l' k' : Linker} {owner : ClassId} {field : FieldId} {member : MemberRef} {access : Nat × Kind}
    (ht : l'.classes.Orderly) (hl : l'.classes.lookup? member.owner = some owner)
    (hfield : (ClassTable.resolveField owner member.name member.descriptor l'.classes).1 = .ok field)
    (hk : k' = (Linker.prepare field.owner { l' with classes :=
      (ClassTable.resolveField owner member.name member.descriptor l'.classes).2 }).2)
    (hslot : ((k'.classes.get? field.owner).bind fun c => (c.fields[field.index]?).bind Field.accessor?) =
      some access) :
    Bound member k' field access.1 := by
  have hgrows := Linker.prepare_grows field.owner { l' with classes :=
    (ClassTable.resolveField owner member.name member.descriptor l'.classes).2 }
  rw [← hk] at hgrows
  obtain ⟨c, hc⟩ := ht.named _ _ hl
  obtain ⟨c₁, _, hc₁, _⟩ := resolveField_found (Prod.ext hfield rfl)
  obtain ⟨c₂, hc₂, haccess⟩ := Option.bind_eq_some_iff.1 hslot
  obtain ⟨f, hf, haccess⟩ := Option.bind_eq_some_iff.1 haccess
  have hasked := ClassTable.resolveField_table owner member.name member.descriptor l'.classes
  refine ⟨⟨l'.classes, owner, c, ht, hc, hfield, ?_, ?_⟩, c₂, f, hc₂, ?_, hf, ?_⟩
  · rw [← hasked]
    exact hgrows.classes.settles
  · apply hgrows.classes.names
    show (ClassTable.resolveField owner member.name member.descriptor l'.classes).2.lookup? _ = _
    rw [hasked]
    exact (ClassTable.ancestry_grows owner l'.classes).names _ _ hl
  · rw [hk] at hc₂
    exact prepare_isSome_layout hc₁ hc₂
  · unfold Field.accessor? at haccess
    split at haccess
    · cases haccess
    · obtain ⟨slot, hplaced, rfl⟩ := Option.map_eq_some_iff.1 haccess
      exact hplaced

/-- What becomes of an instance field access: the same instruction twice, or a lookup by name and a
slot. -/
theorem LinkedTwice.access {b : Body} {k' : Linker} {pc cp : Nat} {put : Bool} {member : MemberRef}
    {i i' : Instruction} (h : LinkedTwice pool subject b k' pc i i')
    (hop : operation b pc = .ok (.instanceField cp put))
    (hmember : SymbolSite.fieldMember ⟨pool, subject, pc⟩ cp = .ok member) :
    i = i' ∨ ∃ field slot kind, Bound member k' field slot ∧
      i = SymbolSite.namedAccess put member kind ∧ i' = SymbolSite.slotAccess put slot kind := by
  obtain ⟨op, l, l₁, l', l₁', hop', hpaired, hi, hi', hmoves⟩ := h.linked
  cases hop.symm.trans hop'
  have hsplit : ∀ {l k : Linker} {i : Instruction},
      SymbolSite.resolve ⟨pool, subject, pc⟩ (.instanceField cp put) l = .ok i k →
        ∃ type, SymbolSite.fieldType ⟨pool, subject, pc⟩ cp member = .ok type ∧
          SymbolSite.instanceAccess ⟨pool, subject, pc⟩ put member type l = .ok i k := by
    intro l k i hrun
    obtain ⟨member', l₀, hm, hrun⟩ := bind_ok.1 hrun
    obtain ⟨hsame, rfl⟩ := ofExcept_ok hm
    cases hmember.symm.trans hsame
    obtain ⟨type, l₀, ht, hrun⟩ := bind_ok.1 hrun
    obtain ⟨htype, rfl⟩ := ofExcept_ok ht
    exact ⟨type, htype, hrun⟩
  obtain ⟨type, htype, hi⟩ := hsplit hi
  obtain ⟨type', htype', hi'⟩ := hsplit hi'
  cases htype.symm.trans htype'
  have hlookup := hpaired.classes.same.lookup? member.owner
  have hpairs := fun owner => ClassTable.resolveField_pairs owner member.name member.descriptor _ _ hpaired.classes
  by_cases hfound : ∃ owner field, l.classes.lookup? member.owner = some owner ∧
      (ClassTable.resolveField owner member.name member.descriptor l.classes).1 = .ok field
  · obtain ⟨owner, field, hl, hfield⟩ := hfound
    obtain ⟨g, b', _, hfield', hprepared, heq, heq'⟩ :=
      SymbolSite.instanceAccess_twice ⟨pool, subject, pc⟩ hpaired hl hfield put type
    cases heq.symm.trans hi
    cases heq'.symm.trans hi'
    cases hslot : (l₁'.classes.get? field.owner).bind fun c => (c.fields[field.index]?).bind Field.accessor? with
    | none => exact .inl rfl
    | some access =>
      have hbound := bound_of_found hpaired.classes.right (hlookup.trans hl) hfield' hprepared hslot
      have hkind : access.2 = type.kind := by
        obtain ⟨c, f, hc, hf, hdescriptor⟩ := resolveField_found (Prod.ext hfield' rfl)
        have hbridge := SymbolSite.fieldSlot?_bridge (l := { l' with classes :=
          (ClassTable.resolveField owner member.name member.descriptor l'.classes).2 }) hpaired.bridge field
        rw [prepare_fst, ← hprepared, hslot] at hbridge
        rw [(SymbolSite.fieldSlot?_kind hc hf).of_ok hbridge access rfl]
        exact kind_of_descriptor (SymbolSite.parse_of_fieldType htype) hdescriptor
      have hgrows := (Linker.Moves.grows hmoves).classes
      refine .inr ⟨field, access.1, type.kind, hbound.later hgrows.settles hgrows.names, rfl, ?_⟩
      rw [← hkind]
      rfl
  · left
    have hmissing : ∀ owner field, l.classes.lookup? member.owner = some owner →
        (ClassTable.resolveField owner member.name member.descriptor l.classes).1 ≠ .ok field :=
      fun owner field hl hfield => hfound ⟨owner, field, hl, hfield⟩
    have hmissing' : ∀ owner field, l'.classes.lookup? member.owner = some owner →
        (ClassTable.resolveField owner member.name member.descriptor l'.classes).1 ≠ .ok field :=
      fun owner field hl hfield =>
        hmissing owner field (hlookup.symm.trans hl) (((hpairs owner).1 field).2 hfield)
    obtain ⟨_, heq, _⟩ := SymbolSite.instanceAccess_missing ⟨pool, subject, pc⟩ put type hmissing
    obtain ⟨_, heq', _⟩ := SymbolSite.instanceAccess_missing ⟨pool, subject, pc⟩ put type hmissing'
    cases heq.symm.trans hi
    cases heq'.symm.trans hi'
    rw [hlookup]

end Decoding

end ClassMachine
