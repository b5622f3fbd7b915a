import ClassMachine.Proofs.Class.Tables

/-!
The subtype test. It is stated as it runs without any bound: the walk along superclass links goes on as
long as it comes to new classes, and arrays are compared by their elements as long as both have elements of
a class. Both end on every table that comes about, circular superclass chains and nested arrays included,
with the answer that the bounded test gives, and the answer is what a subtype is.
-/
namespace ClassMachine.ClassTable
open Stateful

/-- A walk along superclass links. It ends where a class has no superclass or one that was passed. -/
inductive Climbs (origin : ClassId) :
    List ClassId → ClassId → ClassTable → List ClassId → ClassTable → Prop
  | top {chain : List ClassId} {current : ClassId} {t t' : ClassTable}
      (h : superclass current t = (none, t')) : Climbs origin chain current t chain.reverse t'
  | circle {chain : List ClassId} {current parent : ClassId} {t t' : ClassTable}
      (h : superclass current t = (some parent, t')) (hpassed : parent ∈ chain) :
      Climbs origin chain current t chain.reverse
        (t'.record .error (t'.nameOf origin) "circular superclass chain")
  | next {chain found : List ClassId} {current parent : ClassId} {t t₁ t' : ClassTable}
      (h : superclass current t = (some parent, t₁)) (hnew : parent ∉ chain)
      (hrest : Climbs origin (parent :: chain) parent t₁ found t') : Climbs origin chain current t found t'

/-- A run of the subtype test, with its answer and what was looked up on the way. -/
inductive Tests : ClassId → ClassId → ClassTable → Bool → ClassTable → Prop
  | same {id : ClassId} {t : ClassTable} : Tests id id t true t
  | references {sub sup a b : ClassId} {t t' : ClassTable} {answer : Bool} (hne : sub ≠ sup)
      (helements : t.elements? sub sup = some (.reference a, .reference b)) (h : Tests a b t answer t') :
      Tests sub sup t answer t'
  | elements {sub sup : ClassId} {a b : ElementType} {t : ClassTable} (hne : sub ≠ sup)
      (helements : t.elements? sub sup = some (a, b)) (hflat : ∀ x y, (a, b) ≠ (.reference x, .reference y)) :
      Tests sub sup t (a = b) t
  | classes {sub sup : ClassId} {chain : List ClassId} {t t' : ClassTable} (hne : sub ≠ sup)
      (helements : t.elements? sub sup = none) (hchain : Climbs sub [sub] sub t chain t') :
      Tests sub sup t (anyIs sup chain t').1 (anyIs sup chain t').2

section Walks

variable {origin current : ClassId} {chain prior found found' : List ClassId} {t t' t'' : ClassTable}

/-- There is one walk at most. -/
theorem Climbs.unique (h : Climbs origin chain current t found t') (h' : Climbs origin chain current t found' t'') :
    found' = found ∧ t'' = t' := by
  induction h with
  | top hlink =>
    cases h' with
    | top hlink' => cases hlink.symm.trans hlink'; exact ⟨rfl, rfl⟩
    | circle hlink' _ => cases hlink.symm.trans hlink'
    | next hlink' _ _ => cases hlink.symm.trans hlink'
  | circle hlink hpassed =>
    cases h' with
    | top hlink' => cases hlink.symm.trans hlink'
    | circle hlink' _ => cases hlink.symm.trans hlink'; exact ⟨rfl, rfl⟩
    | next hlink' hnew _ => cases hlink.symm.trans hlink'; exact absurd hpassed hnew
  | next hlink hnew _ ih =>
    cases h' with
    | top hlink' => cases hlink.symm.trans hlink'
    | circle hlink' hpassed => cases hlink.symm.trans hlink'; exact absurd hpassed hnew
    | next hlink' _ hrest' => cases hlink.symm.trans hlink'; exact ih hrest'

/-- Each class on the way is a new one of the table, so the walk ends before the bound is reached. -/
theorem climbs_climb (origin : ClassId) {fuel : Nat} (hknown : ∀ x ∈ prior, ∃ c, t.get? x = some c)
    (hnodup : (current :: prior).Nodup) (hfuel : t.size < fuel + prior.length) :
    Climbs origin (current :: prior) current t (climb origin fuel (current :: prior) current t).1
      (climb origin fuel (current :: prior) current t).2 := by
  induction fuel generalizing prior current t with
  | zero =>
    have hle := length_le_size (List.nodup_cons.1 hnodup).2 hknown
    omega
  | succ fuel ih =>
    have hcurrent : ∀ {parent t₁}, superclass current t = (some parent, t₁) → ∃ c, t.get? current = some c := by
      intro parent t₁ h
      rw [superclass] at h
      cases hc : t.get? current with
      | some c => exact ⟨c, rfl⟩
      | none =>
        rw [hc] at h
        cases h
    have hconcurs := concurs_superclass current t
    rw [climb, state_bind]
    generalize hrun : superclass current t = r at hcurrent hconcurs ⊢
    obtain ⟨link, t₁⟩ := r
    cases link with
    | none => exact .top hrun
    | some parent =>
      dsimp only
      split
      · next hmem => exact .circle hrun (List.contains_iff_mem.1 hmem)
      · next hmem =>
        have hnew : parent ∉ current :: prior := fun h => hmem (List.contains_iff_mem.2 h)
        refine .next hrun hnew (ih (fun x hx => ?_) (List.nodup_cons.2 ⟨hnew, hnodup⟩) ?_)
        · have hx : ∃ c, t.get? x = some c := by
            rcases List.mem_cons.1 hx with rfl | hx
            · exact hcurrent rfl
            · exact hknown x hx
          obtain ⟨c, hc⟩ := hx
          obtain ⟨c', hc', _⟩ := hconcurs.known hc
          exact ⟨c', hc'⟩
        · rw [show t₁.size = t.size from hconcurs.size_eq, List.length_cons]
          omega

theorem climbs_ancestry (id : ClassId) (t : ClassTable) :
    Climbs id [id] id t (ancestry id t).1 (ancestry id t).2 :=
  climbs_climb id (by simp) (by simp) (by simp)

end Walks

section Tests

variable {sub sup : ClassId} {t t' t'' : ClassTable} {answer answer' : Bool}

/-- There is one run at most. -/
theorem Tests.unique (h : Tests sub sup t answer t') (h' : Tests sub sup t answer' t'') :
    answer' = answer ∧ t'' = t' := by
  induction h with
  | same =>
    cases h' with
    | same => exact ⟨rfl, rfl⟩
    | references hne _ _ | elements hne _ _ | classes hne _ _ => exact absurd rfl hne
  | references hne he _ ih =>
    cases h' with
    | same => exact absurd rfl hne
    | references _ he' h' => cases he.symm.trans he'; exact ih h'
    | elements _ he' hflat => cases he.symm.trans he'; exact absurd rfl (hflat _ _)
    | classes _ he' _ => cases he.symm.trans he'
  | elements hne he hflat =>
    cases h' with
    | same => exact absurd rfl hne
    | references _ he' _ => cases he.symm.trans he'; exact absurd rfl (hflat _ _)
    | elements _ he' _ => cases he.symm.trans he'; exact ⟨rfl, rfl⟩
    | classes _ he' _ => cases he.symm.trans he'
  | classes hne he hchain =>
    cases h' with
    | same => exact absurd rfl hne
    | references _ he' _ | elements _ he' _ => cases he.symm.trans he'
    | classes _ _ hchain' =>
      obtain ⟨rfl, rfl⟩ := hchain.unique hchain'
      exact ⟨rfl, rfl⟩

theorem elements?_eq_some {a b : ElementType} : t.elements? sub sup = some (a, b) ↔
    ∃ c d, t.get? sub = some c ∧ c.element = some a ∧ t.get? sup = some d ∧ d.element = some b := by
  unfold elements?
  constructor
  · intro h
    obtain ⟨c, hc, h⟩ := Option.bind_eq_some_iff.1 h
    obtain ⟨a', ha, h⟩ := Option.bind_eq_some_iff.1 h
    obtain ⟨d, hd, h⟩ := Option.bind_eq_some_iff.1 h
    obtain ⟨b', hb, h⟩ := Option.bind_eq_some_iff.1 h
    cases h
    exact ⟨c, d, hc, ha, hd, hb⟩
  · rintro ⟨c, d, hc, ha, hd, hb⟩
    simp [hc, ha, hd, hb]

/-- Each step from arrays to their elements leads to a class that came before. -/
theorem tests_isWithin (ht : t.Tiered) {fuel : Nat} (hfuel : sub < fuel ∨ t.size < fuel) :
    Tests sub sup t (isWithin fuel sub sup t).1 (isWithin fuel sub sup t).2 := by
  induction fuel generalizing sub sup with
  | zero => rcases hfuel with hfuel | hfuel <;> cases hfuel
  | succ fuel ih =>
    rw [isWithin]
    split
    · next heq =>
      subst heq
      exact .same
    · next hne =>
      rw [state_get]
      cases helements : t.elements? sub sup with
      | none => exact .classes hne helements (climbs_ancestry sub t)
      | some pair =>
        obtain ⟨a, b⟩ := pair
        cases a with
        | primitive a => cases b with
          | primitive b =>
            have hrun := Tests.elements hne helements fun _ _ h => by cases h
            simp only [ElementType.primitive.injEq] at hrun
            exact hrun
          | reference b => exact .elements hne helements fun _ _ h => by cases h
        | reference a => cases b with
          | primitive b => exact .elements hne helements fun _ _ h => by cases h
          | reference b =>
            obtain ⟨c, _, hc, ha, _, _⟩ := elements?_eq_some.1 helements
            have hlower := ht.lower sub c a hc ha
            refine .references hne helements (ih (.inl ?_))
            rcases hfuel with hfuel | hfuel
            · exact Nat.lt_of_lt_of_le hlower (Nat.le_of_lt_succ hfuel)
            · exact Nat.lt_of_lt_of_le (Nat.lt_trans hlower (lt_size ⟨c, hc⟩)) (Nat.le_of_lt_succ hfuel)

theorem tests_isSubclass (ht : t.Tiered) (sub sup : ClassId) :
    Tests sub sup t (isSubclass sub sup t).1 (isSubclass sub sup t).2 :=
  tests_isWithin ht (.inr (Nat.lt_succ_self t.size))

/-- The answer of a run, in terms of what it asks. -/
theorem Tests.answer_iff (h : Tests sub sup t answer t') (ht : t.Tiered) : answer = true ↔
    sub = sup ∨ (∃ kind, t.elements? sub sup = some (.primitive kind, .primitive kind)) ∨
      (∃ a b, t.elements? sub sup = some (.reference a, .reference b) ∧ t.Is a b) ∨
      t.elements? sub sup = none ∧ ∃ x ∈ (ancestry sub t).1, x = sup ∨ sup ∈ (interfaces x t).1 := by
  cases h with
  | same => exact ⟨fun _ => .inl rfl, fun _ => rfl⟩
  | @references _ _ a b _ _ _ hne he h =>
    have hanswer : t.Is a b ↔ answer = true := by rw [Is, (h.unique (tests_isSubclass ht a b)).1]
    constructor
    · intro hanswered
      exact .inr (.inr (.inl ⟨a, b, he, hanswer.2 hanswered⟩))
    · rintro (heq | ⟨kind, he'⟩ | ⟨a', b', he', his⟩ | ⟨he', _⟩)
      · exact absurd heq hne
      · cases he.symm.trans he'
      · cases he.symm.trans he'
        exact hanswer.1 his
      · cases he.symm.trans he'
  | @elements _ _ a b _ hne he hflat =>
    constructor
    · intro heq
      obtain rfl : a = b := of_decide_eq_true heq
      cases a with
      | primitive kind => exact .inr (.inl ⟨kind, he⟩)
      | reference x => exact absurd rfl (hflat x x)
    · rintro (heq | ⟨kind, he'⟩ | ⟨a', b', he', _⟩ | ⟨he', _⟩)
      · exact absurd heq hne
      · cases he.symm.trans he'
        exact decide_eq_true rfl
      · cases he.symm.trans he'
        exact absurd rfl (hflat a' b')
      · cases he.symm.trans he'
  | classes hne he hchain =>
    obtain ⟨rfl, rfl⟩ := (climbs_ancestry sub t).unique hchain
    have hlinks := (concurs_ancestry sub t).interfaces
    rw [anyIs_fst]
    simp only [hlinks]
    constructor
    · intro hfound
      exact .inr (.inr (.inr ⟨he, hfound⟩))
    · rintro (heq | ⟨kind, he'⟩ | ⟨a', b', he', _⟩ | ⟨_, hfound⟩)
      · exact absurd heq hne
      · cases he.symm.trans he'
      · cases he.symm.trans he'
      · exact hfound

/-- The subtype test of any table that comes about: it ends, and tells a class that is the other, arrays of
equal primitive elements or of elements that are subtypes, and otherwise a class of which some ancestor is
the other or declares it. A class is a subtype of itself, and subtypes remain so whatever is loaded or asked
for later. -/
theorem isSubclass_iff (h : t.Reached) (sub sup : ClassId) :
    Tests sub sup t (isSubclass sub sup t).1 (isSubclass sub sup t).2 ∧
    (t.Is sub sup ↔
      sub = sup ∨ (∃ kind, t.elements? sub sup = some (.primitive kind, .primitive kind)) ∨
        (∃ a b, t.elements? sub sup = some (.reference a, .reference b) ∧ t.Is a b) ∨
        t.elements? sub sup = none ∧ ∃ x ∈ (ancestry sub t).1, x = sup ∨ sup ∈ (interfaces x t).1) ∧
    t.Is sub sub ∧ (t.Is sub sup → ∀ t', t.Leads t' → t'.Is sub sup) := by
  have hrun := tests_isSubclass h.tiered sub sup
  refine ⟨hrun, hrun.answer_iff h.tiered, is_refl t sub, fun his t' hleads => ?_⟩
  exact his.retains (Leads.retains hleads) h.tiered.moored

end Tests

/-- Two classes that name each other as superclass, the one with an interface, arrays of arrays of both and
of the interface, and a class whose superclass comes too late. -/
def loopRequests : List Request :=
  [.register { name := "Left", superName := some "Right", interfaces := ["Face"] },
    .register { name := "Right", superName := some "Left" }, .register { name := "Face" },
    .arrayClass "[[LRight;", .arrayClass "[[LFace;", .register { name := "Early", superName := some "Late" },
    .isSubclass 7 2, .register { name := "Late", superName := some "Right" }]

def looped : ClassTable := loopRequests.foldl (fun t r => r.run t) {}

theorem isSubclass_iff_looped : looped.Reached ∧ (ancestry 1 looped).1 = [1, 0] ∧
    (∃ a b, looped.elements? 4 6 = some (.reference a, .reference b) ∧ looped.Is a b) ∧
    ¬ looped.Is 7 8 ∧ ((Request.register { name := "More" }).run looped).Is 4 6 := by
  have hreached : looped.Reached := leads_foldl loopRequests {}
  have hchain : (ancestry 1 looped).1 = [1, 0] := by decide +kernel
  have helements : looped.elements? 4 6 = some (.reference 3, .reference 5) := by decide +kernel
  have hlooks : (interfaces 0 looped).1 = [2] := by decide +kernel
  have hright : looped.Is 1 2 := by
    refine (isSubclass_iff hreached 1 2).2.1.2 (.inr (.inr (.inr ⟨by decide +kernel, 0, ?_, .inr ?_⟩)))
    · simp [hchain]
    · simp [hlooks]
  have hinner : looped.Is 3 5 :=
    (isSubclass_iff hreached 3 5).2.1.2 (.inr (.inr (.inl ⟨1, 2, by decide +kernel, hright⟩)))
  have houter : looped.Is 4 6 :=
    (isSubclass_iff hreached 4 6).2.1.2 (.inr (.inr (.inl ⟨3, 5, helements, hinner⟩)))
  have hlate : (ancestry 7 looped).1 = [7] := by decide +kernel
  have hnone : looped.elements? 7 8 = none := by decide +kernel
  refine ⟨hreached, hchain, ⟨3, 5, helements, hinner⟩, fun his => ?_,
    (isSubclass_iff hreached 4 6).2.2.2 houter _ (.single ⟨_, rfl⟩)⟩
  rcases (isSubclass_iff hreached 7 8).2.1.1 his with heq | ⟨kind, he⟩ | ⟨a, b, he, _⟩ | ⟨_, x, hx, h⟩
  · exact absurd heq (by decide)
  · cases hnone.symm.trans he
  · cases hnone.symm.trans he
  · obtain rfl : x = 7 := by simpa [hlate] using hx
    rcases h with heq | hmem
    · exact absurd heq (by decide)
    · exact absurd hmem (by decide +kernel)

end ClassMachine.ClassTable
