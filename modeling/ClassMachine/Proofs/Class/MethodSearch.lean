import ClassMachine.Proofs.Class.SubtypeTest
import ClassMachine.Proofs.Link.Dispatch

/-!
Method resolution. A method is looked for in a class and its superclasses, and after them in the interfaces
of all these and in whatever interfaces extend. The search through interfaces is stated as it runs without
any bound, over links that may lead in circles. What it has passed declares no such method, and leads only
to what it has passed or has yet to try; so a search that comes to its end has missed none, and it does come
to its end, for it passes a new class of the table each time.
-/
namespace ClassMachine
open Stateful

section Positions

variable {α : Type} {p : α → Bool} {xs : Array α} {i : Nat}

theorem lastIndex?_eq_none : lastIndex? p xs = none ↔ ∀ x ∈ xs, p x = false := by
  unfold lastIndex?
  rw [List.find?_eq_none]
  constructor
  · intro h x hx
    obtain ⟨i, hi, rfl⟩ := Array.mem_iff_getElem.1 hx
    simpa [Array.getElem?_eq_getElem hi] using h i (by simpa using hi)
  · intro h i hi
    have hlt : i < xs.size := by simpa using hi
    simp [Array.getElem?_eq_getElem hlt, h _ (Array.getElem_mem hlt)]

/-- No entry that passes the test comes after the last one. -/
theorem lastIndex?_last (h : lastIndex? p xs = some i) {j : Nat} {y : α} (hj : i < j) (hy : xs[j]? = some y) :
    p y = false := by
  unfold lastIndex? at h
  obtain ⟨-, before, after, hsplit, hbefore⟩ := List.find?_eq_some_iff_append.1 h
  have hmem : j ∈ (List.range xs.size).reverse := by
    simpa using (Array.getElem?_eq_some_iff.1 hy).1
  have hsorted : (List.range xs.size).reverse.Pairwise (· > ·) :=
    List.pairwise_reverse.2 List.pairwise_lt_range
  rw [hsplit] at hmem hsorted
  have hlower := (List.pairwise_cons.1 (List.pairwise_append.1 hsorted).2.1).1
  rcases List.mem_append.1 hmem with hmem | hmem
  · simpa [hy] using hbefore j hmem
  · rcases List.mem_cons.1 hmem with rfl | hmem
    · exact absurd hj (Nat.lt_irrefl j)
    · exact absurd (hlower j hmem) (Nat.lt_asymm hj)

end Positions

namespace ClassTable

/-- The class declares a method of that name and descriptor. -/
def Declares (t : ClassTable) (name descriptor : String) (x : ClassId) : Prop :=
  ∃ c m, t.get? x = some c ∧ m ∈ c.methods ∧ m.name = name ∧ m.descriptor = descriptor

/-- Of the methods of that name and descriptor that the class declares, the last one. -/
structure LastDeclared (t : ClassTable) (name descriptor : String) (x : ClassId) (method : MethodId) : Prop where
  owner : method.owner = x
  found : ∃ m, t.method? method = some m ∧ m.name = name ∧ m.descriptor = descriptor
  last : ∀ c later m, t.get? x = some c → method.index < later → c.methods[later]? = some m →
    ¬(m.name = name ∧ m.descriptor = descriptor)

/-- The class declares the interface. -/
def DeclaresInterface (t : ClassTable) (x i : ClassId) : Prop := i ∈ (interfaces x t).1

/-- An interface of the class, declared by it or by one above it, or extended by such an interface. -/
def Implements (t : ClassTable) (id i : ClassId) : Prop :=
  ∃ x ∈ (ancestry id t).1, ∃ j, t.DeclaresInterface x j ∧ Relation.ReflTransGen t.DeclaresInterface j i

/-- A search through interfaces: what was passed by, and what is yet to be tried, the next one first. -/
inductive Searches (name descriptor : String) :
    List ClassId → List ClassId → ClassTable → Option MethodId → ClassTable → Prop
  | exhausted {passed : List ClassId} {t : ClassTable} : Searches name descriptor passed [] t none t
  | again {passed pending : List ClassId} {i : ClassId} {t t' : ClassTable} {found : Option MethodId}
      (hpassed : i ∈ passed) (hrest : Searches name descriptor passed pending t found t') :
      Searches name descriptor passed (i :: pending) t found t'
  | found {passed pending : List ClassId} {i : ClassId} {t : ClassTable} {method : MethodId} (hnew : i ∉ passed)
      (h : t.declaredMethod? name descriptor i = some method) :
      Searches name descriptor passed (i :: pending) t (some method) t
  | onward {passed pending links : List ClassId} {i : ClassId} {t t₁ t' : ClassTable} {found : Option MethodId}
      (hnew : i ∉ passed) (h : t.declaredMethod? name descriptor i = none) (hlinks : interfaces i t = (links, t₁))
      (hrest : Searches name descriptor (i :: passed) (links.reverse ++ pending) t₁ found t') :
      Searches name descriptor passed (i :: pending) t found t'

/-- A run of method resolution, with its outcome and what was looked up on the way. -/
inductive Resolves (id : ClassId) (name descriptor : String) (t : ClassTable) :
    Except ClassError MethodId → ClassTable → Prop
  | inherited {chain : List ClassId} {method : MethodId} {t' : ClassTable} (hchain : Climbs id [id] id t chain t')
      (h : chain.findSome? (t'.declaredMethod? name descriptor) = some method) :
      Resolves id name descriptor t (.ok method) t'
  | implemented {chain pending : List ClassId} {method : MethodId} {t₁ t₂ t' : ClassTable}
      (hchain : Climbs id [id] id t chain t₁) (h : chain.findSome? (t₁.declaredMethod? name descriptor) = none)
      (hpending : allInterfaces chain t₁ = (pending, t₂))
      (hsearch : Searches name descriptor [] pending.reverse t₂ (some method) t') :
      Resolves id name descriptor t (.ok method) t'
  | missing {chain pending : List ClassId} {t₁ t₂ t' : ClassTable}
      (hchain : Climbs id [id] id t chain t₁) (h : chain.findSome? (t₁.declaredMethod? name descriptor) = none)
      (hpending : allInterfaces chain t₁ = (pending, t₂))
      (hsearch : Searches name descriptor [] pending.reverse t₂ none t') :
      Resolves id name descriptor t (.error (.noSuchMethod (t₂.nameOf id) name descriptor)) t'

section Declared

variable {t t' : ClassTable} {name descriptor : String} {x : ClassId} {method : MethodId}

theorem declaredMethod?_eq_none : t.declaredMethod? name descriptor x = none ↔ ¬t.Declares name descriptor x := by
  unfold declaredMethod? Declares
  cases hc : t.get? x with
  | none => simp
  | some c =>
    have hposition : c.method? name descriptor = none ↔ c.methodPosition? name descriptor = none := by
      unfold ClassInfo.method?
      cases hi : c.methodPosition? name descriptor with
      | none => simp
      | some i =>
        obtain ⟨m, hm, _⟩ := of_lastIndex? hi
        simp [hm]
    rw [Option.bind_some, Option.map_eq_none_iff, hposition, ClassInfo.methodPosition?, lastIndex?_eq_none]
    constructor
    · rintro h ⟨c', m, hc', hm, rfl, rfl⟩
      cases hc'
      simpa using h m hm
    · intro h m hm
      by_contra htest
      have hsame : m.name = name ∧ m.descriptor = descriptor := by simpa using htest
      exact h ⟨c, m, rfl, hm, hsame.1, hsame.2⟩

theorem Regular.lastDeclared (ht : t.Regular) (h : t.declaredMethod? name descriptor x = some method) :
    t.LastDeclared name descriptor x method := by
  obtain ⟨c, hc, h⟩ := Option.bind_eq_some_iff.1 h
  obtain ⟨m, hm, rfl⟩ := Option.map_eq_some_iff.1 h
  obtain ⟨i, hi, hm⟩ := Option.bind_eq_some_iff.1 hm
  obtain ⟨m', hm', htest⟩ := of_lastIndex? hi
  cases hm.symm.trans hm'
  have hid : m.id = ⟨x, i⟩ := (ht.listed x c hc).2.numbered i m hm
  have hsame : m.name = name ∧ m.descriptor = descriptor := by simpa using htest
  rw [hid]
  refine ⟨rfl, ⟨m, ?_, hsame⟩, fun c' later m' hc' hlater hm' hsame' => ?_⟩
  · rw [ClassTable.method?, hc]
    exact hm
  · cases hc.symm.trans hc'
    have hlast := lastIndex?_last hi hlater hm'
    simp [hsame'.1, hsame'.2] at hlast

/-- Looking links up leaves the declared methods alone. -/
theorem Concurs.declaredMethod? (h : t.Concurs t') (ha : t.Asks t') :
    t'.declaredMethod? name descriptor = t.declaredMethod? name descriptor := by
  funext x
  have hx := h.classes x
  unfold ClassTable.declaredMethod?
  cases hc : t.get? x with
  | none =>
    rw [hc] at hx
    generalize t'.get? x = found' at hx
    cases hx
    rfl
  | some c =>
    obtain ⟨c', hc', hmethods⟩ := ha.methods hc
    rw [hc', Option.bind_some, Option.bind_some, ClassInfo.method?, ClassInfo.method?, ClassInfo.methodPosition?,
      ClassInfo.methodPosition?, hmethods]

theorem Concurs.nameOf (h : t.Concurs t') (ha : t.Asks t') (x : ClassId) : t'.nameOf x = t.nameOf x := by
  have hx := h.classes x
  unfold ClassTable.nameOf
  cases hc : t.get? x with
  | none =>
    rw [hc] at hx
    generalize t'.get? x = found' at hx
    cases hx
    rfl
  | some c =>
    obtain ⟨c', hc', hp⟩ := (Asks.grows ha).known x c hc
    rw [hc', hp.declared]
    rfl

theorem Concurs.declaresInterface (h : t.Concurs t') : t'.DeclaresInterface = t.DeclaresInterface := by
  funext x i
  rw [DeclaresInterface, DeclaresInterface, h.interfaces]

theorem allInterfaces_fst (ids : List ClassId) (t : ClassTable) :
    (allInterfaces ids t).1 = ids.flatMap fun x => (interfaces x t).1 := by
  induction ids generalizing t with
  | nil => rfl
  | cons x ids ih =>
    have hlater : (fun y => (interfaces y (interfaces x t).2).1) = fun y => (interfaces y t).1 :=
      funext (concurs_interfaces x t).interfaces
    rw [List.flatMap_cons, ← hlater]
    exact congrArg ((interfaces x t).1 ++ ·) (ih _)

end Declared

section Search

variable {t t' : ClassTable} {name descriptor : String} {passed pending : List ClassId} {found : Option MethodId}

/-- A method that a search finds is declared by what it was to try, or by what that leads to. -/
theorem Searches.sound (h : Searches name descriptor passed pending t found t') {method : MethodId}
    (hfound : found = some method) : ∃ j ∈ pending, ∃ i,
      Relation.ReflTransGen t.DeclaresInterface j i ∧ t.declaredMethod? name descriptor i = some method := by
  induction h with
  | exhausted => cases hfound
  | again hpassed hrest ih =>
    obtain ⟨j, hj, hreached⟩ := ih hfound
    exact ⟨j, List.mem_cons_of_mem _ hj, hreached⟩
  | found hnew h =>
    cases hfound
    exact ⟨_, List.mem_cons_self, _, .refl, h⟩
  | @onward passed pending links x t t₁ t' found hnew h hlinks hrest ih =>
    have hconcurs := concurs_interfaces x t
    have hasks := interfaces_asks x t
    rw [hlinks] at hconcurs hasks
    obtain ⟨j, hj, i, hreach, hi⟩ := ih hfound
    rw [hconcurs.declaresInterface] at hreach
    rw [hconcurs.declaredMethod? hasks] at hi
    rcases List.mem_append.1 hj with hj | hj
    · have hlink : t.DeclaresInterface x j := by
        rw [DeclaresInterface, hlinks]
        exact List.mem_reverse.1 hj
      exact ⟨x, List.mem_cons_self, i, .head hlink hreach, hi⟩
    · exact ⟨j, List.mem_cons_of_mem _ hj, i, hreach, hi⟩

/-- What was passed by does not declare the method, and leads only to what was passed by or is to be tried. -/
structure Frontier (t : ClassTable) (name descriptor : String) (passed pending : List ClassId) : Prop where
  barren : ∀ x ∈ passed, t.declaredMethod? name descriptor x = none
  closed : ∀ x ∈ passed, ∀ i, t.DeclaresInterface x i → i ∈ passed ∨ i ∈ pending

/-- A search that finds nothing has passed by all that it was to try and all that this leads to. -/
theorem Searches.complete (h : Searches name descriptor passed pending t found t')
    (hfrontier : t.Frontier name descriptor passed pending) (hfound : found = none) {j i : ClassId}
    (hj : j ∈ passed ∨ j ∈ pending) (hreach : Relation.ReflTransGen t.DeclaresInterface j i) :
    t.declaredMethod? name descriptor i = none := by
  induction h with
  | exhausted =>
    refine hfrontier.barren i ?_
    induction hreach with
    | refl => simpa using hj
    | tail _ hlink ih => simpa using hfrontier.closed _ ih _ hlink
  | again hpassed hrest ih =>
    refine ih ⟨hfrontier.barren, fun x hx k hk => ?_⟩ hfound ?_ hreach
    · rcases hfrontier.closed x hx k hk with hmem | hmem
      · exact .inl hmem
      · rcases List.mem_cons.1 hmem with rfl | hmem
        · exact .inl hpassed
        · exact .inr hmem
    · rcases hj with hj | hj
      · exact .inl hj
      · rcases List.mem_cons.1 hj with rfl | hj
        · exact .inl hpassed
        · exact .inr hj
  | found hnew h => cases hfound
  | @onward passed pending links x t t₁ t' found hnew h hlinks hrest ih =>
    have hconcurs := concurs_interfaces x t
    have hasks := interfaces_asks x t
    rw [hlinks] at hconcurs hasks
    have hmoved : ∀ k, k ∈ passed ∨ k ∈ x :: pending → k ∈ x :: passed ∨ k ∈ links.reverse ++ pending := by
      intro k hk
      simp only [List.mem_cons, List.mem_append] at hk ⊢
      tauto
    rw [← hconcurs.declaresInterface] at hreach
    rw [← hconcurs.declaredMethod? hasks]
    refine ih ⟨fun y hy => ?_, fun y hy k hk => ?_⟩ hfound (hmoved j hj) hreach
    · rw [hconcurs.declaredMethod? hasks]
      rcases List.mem_cons.1 hy with rfl | hy
      · exact h
      · exact hfrontier.barren y hy
    · rw [hconcurs.declaresInterface] at hk
      rcases List.mem_cons.1 hy with rfl | hy
      · rw [DeclaresInterface, hlinks] at hk
        exact .inr (List.mem_append_left _ (List.mem_reverse.2 hk))
      · exact hmoved k (hfrontier.closed y hy k hk)

/-- What was passed by is skipped. -/
theorem Searches.dropWhile (h : Searches name descriptor passed (pending.dropWhile passed.contains) t found t') :
    Searches name descriptor passed pending t found t' := by
  induction pending with
  | nil => exact h
  | cons i pending ih =>
    rw [List.dropWhile_cons] at h
    split at h
    · next hpassed => exact .again (List.contains_iff_mem.1 hpassed) (ih h)
    · exact h

/-- Each class that is passed by is a new one of the table, so the search ends before the bound is reached. -/
theorem searches_searchInterfaces {fuel : Nat} (ht : t.Moored) (hnodup : passed.Nodup)
    (hpassed : ∀ x ∈ passed, ∃ c, t.get? x = some c) (hpending : ∀ x ∈ pending, ∃ c, t.get? x = some c)
    (hfuel : t.size < fuel + passed.length) :
    Searches name descriptor passed pending t (searchInterfaces name descriptor fuel passed pending t).1
      (searchInterfaces name descriptor fuel passed pending t).2 := by
  induction fuel generalizing passed pending t with
  | zero =>
    have hle := length_le_size hnodup hpassed
    omega
  | succ fuel ih =>
    refine Searches.dropWhile ?_
    have hrest : ∀ x ∈ pending.dropWhile passed.contains, ∃ c, t.get? x = some c := fun x hx =>
      hpending x ((List.dropWhile_sublist _).subset hx)
    have hhead := List.head?_dropWhile_not passed.contains pending
    rw [searchInterfaces]
    generalize pending.dropWhile passed.contains = ahead at hrest hhead ⊢
    cases ahead with
    | nil => exact .exhausted
    | cons i rest =>
      have hnew : i ∉ passed := fun hmem => by simp [hmem] at hhead
      dsimp only
      rw [state_get]
      cases hdeclared : t.declaredMethod? name descriptor i with
      | some method => exact .found hnew hdeclared
      | none =>
        have hconcurs := concurs_interfaces i t
        have hknown : ∀ {x}, (∃ c, t.get? x = some c) → ∃ c, (interfaces i t).2.get? x = some c := by
          rintro x ⟨c, hc⟩
          obtain ⟨c', hc', _⟩ := hconcurs.known hc
          exact ⟨c', hc'⟩
        refine .onward hnew hdeclared rfl (ih (hconcurs.retains.moored ht) (List.nodup_cons.2 ⟨hnew, hnodup⟩)
          (fun x hx => hknown ?_) (fun x hx => hknown ?_) ?_)
        · rcases List.mem_cons.1 hx with rfl | hx
          · exact hrest x List.mem_cons_self
          · exact hpassed x hx
        · rcases List.mem_append.1 hx with hx | hx
          · exact ht.interfaces i x (List.mem_reverse.1 hx)
          · exact hrest x (List.mem_cons_of_mem i hx)
        · have hsize : (interfaces i t).2.size = t.size := hconcurs.size_eq
          show (interfaces i t).2.size < fuel + (passed.length + 1)
          omega

end Search

section Resolution

variable {t t' : ClassTable} {id : ClassId} {name descriptor : String} {outcome : Except ClassError MethodId}

theorem resolves_resolveMethod (ht : t.Moored) (id : ClassId) (name descriptor : String) :
    Resolves id name descriptor t (resolveMethod id name descriptor t).1 (resolveMethod id name descriptor t).2 := by
  have hclimbs := climbs_ancestry id t
  have hmoored := (concurs_ancestry id t).retains.moored ht
  rw [resolveMethod, state_bind, state_get]
  generalize ancestry id t = r at hclimbs hmoored ⊢
  obtain ⟨chain, t₁⟩ := r
  dsimp only at hclimbs hmoored ⊢
  cases hchain : chain.findSome? (t₁.declaredMethod? name descriptor) with
  | some method => exact .inherited hclimbs hchain
  | none =>
    have hpending : ∀ x ∈ (allInterfaces chain t₁).1, ∃ c, (allInterfaces chain t₁).2.get? x = some c := by
      intro x hx
      rw [allInterfaces_fst] at hx
      obtain ⟨y, _, hx⟩ := List.mem_flatMap.1 hx
      obtain ⟨c, hc⟩ := hmoored.interfaces y x hx
      obtain ⟨c', hc', _⟩ := (concurs_allInterfaces chain t₁).known hc
      exact ⟨c', hc'⟩
    have hmoored₂ := (concurs_allInterfaces chain t₁).retains.moored hmoored
    dsimp only
    rw [state_bind, state_get, state_bind]
    generalize hall : allInterfaces chain t₁ = r at hpending hmoored₂ ⊢
    obtain ⟨pending, t₂⟩ := r
    dsimp only at hpending hmoored₂ ⊢
    have hsearch : Searches name descriptor [] pending.reverse t₂
        (searchInterfaces name descriptor (t₂.size + 1) [] pending.reverse t₂).1
        (searchInterfaces name descriptor (t₂.size + 1) [] pending.reverse t₂).2 :=
      searches_searchInterfaces hmoored₂ (by simp) (by simp) (by simpa using hpending) (by simp)
    generalize searchInterfaces name descriptor (t₂.size + 1) [] pending.reverse t₂ = r at hsearch ⊢
    obtain ⟨found, t₃⟩ := r
    cases found with
    | some method => exact .implemented hclimbs hchain hall hsearch
    | none => exact .missing hclimbs hchain hall hsearch

theorem mem_allInterfaces {j : ClassId} : j ∈ (allInterfaces (ancestry id t).1 (ancestry id t).2).1 ↔
    ∃ x ∈ (ancestry id t).1, t.DeclaresInterface x j := by
  rw [allInterfaces_fst, List.mem_flatMap]
  simp only [(concurs_ancestry id t).interfaces]
  exact Iff.rfl

/-- What comes of a run: a method of the first class that declares one, else a method of some interface, else
there is none. -/
theorem Resolves.finds (h : Resolves id name descriptor t outcome t') :
    (∃ method, (ancestry id t).1.findSome? (t.declaredMethod? name descriptor) = some method ∧
      outcome = .ok method) ∨
    (ancestry id t).1.findSome? (t.declaredMethod? name descriptor) = none ∧
      ((∃ i method, t.Implements id i ∧ t.declaredMethod? name descriptor i = some method ∧
          outcome = .ok method) ∨
        outcome = .error (.noSuchMethod (t.nameOf id) name descriptor) ∧
          ∀ i, t.Implements id i → t.declaredMethod? name descriptor i = none) := by
  have hconcurs := concurs_ancestry id t
  have hasks := ancestry_asks id t
  have hclimbs := climbs_ancestry id t
  have hall := hconcurs.trans (concurs_allInterfaces (ancestry id t).1 (ancestry id t).2)
  have hasked := hasks.trans (allInterfaces_asks (ancestry id t).1 (ancestry id t).2)
  cases h with
  | inherited hchain hfirst =>
    obtain ⟨rfl, rfl⟩ := hclimbs.unique hchain
    rw [hconcurs.declaredMethod? hasks] at hfirst
    exact .inl ⟨_, hfirst, rfl⟩
  | implemented hchain hnone hpending hsearch =>
    obtain ⟨rfl, rfl⟩ := hclimbs.unique hchain
    rw [hconcurs.declaredMethod? hasks] at hnone
    obtain ⟨j, hj, i, hreach, hi⟩ := hsearch.sound rfl
    obtain ⟨rfl, rfl⟩ := Prod.mk.inj hpending
    rw [hall.declaresInterface] at hreach
    rw [hall.declaredMethod? hasked] at hi
    obtain ⟨x, hx, hlink⟩ := mem_allInterfaces.1 (List.mem_reverse.1 hj)
    exact .inr ⟨hnone, .inl ⟨i, _, ⟨x, hx, j, hlink, hreach⟩, hi, rfl⟩⟩
  | missing hchain hnone hpending hsearch =>
    obtain ⟨rfl, rfl⟩ := hclimbs.unique hchain
    rw [hconcurs.declaredMethod? hasks] at hnone
    obtain ⟨rfl, rfl⟩ := Prod.mk.inj hpending
    refine .inr ⟨hnone, .inr ⟨by rw [hall.nameOf hasked], ?_⟩⟩
    rintro i ⟨x, hx, j, hlink, hreach⟩
    rw [← hall.declaresInterface] at hreach
    rw [← hall.declaredMethod? hasked]
    exact hsearch.complete ⟨by simp, by simp⟩ rfl
      (.inr (List.mem_reverse.2 (mem_allInterfaces.2 ⟨x, hx, hlink⟩))) hreach

theorem findSome?_eq_none_iff_declares {chain : List ClassId} :
    chain.findSome? (t.declaredMethod? name descriptor) = none ↔ ∀ x ∈ chain, ¬t.Declares name descriptor x := by
  simp only [List.findSome?_eq_none_iff, declaredMethod?_eq_none]

/-- The first of the classes that declares the method gives it. -/
theorem findSome?_first {before : List ClassId} {x : ClassId} (after : List ClassId)
    (hbefore : ∀ y ∈ before, ¬t.Declares name descriptor y) (hx : t.Declares name descriptor x) :
    ∃ method, t.declaredMethod? name descriptor x = some method ∧
      (before ++ x :: after).findSome? (t.declaredMethod? name descriptor) = some method := by
  obtain ⟨method, hmethod⟩ := Option.ne_none_iff_exists'.1 fun hnone => declaredMethod?_eq_none.1 hnone hx
  refine ⟨method, hmethod, ?_⟩
  rw [List.findSome?_append, findSome?_eq_none_iff_declares.2 hbefore, Option.none_or, List.findSome?_cons, hmethod]

end Resolution

section Linkers
open Linker

variable {l : Linker}

theorem Reachable.moored (h : l.Reachable) : l.classes.Moored := by
  obtain ⟨access, hleads⟩ := h
  exact (Changes.turns (Leads.changes hleads)).retains.moored moored_empty

/-- Method resolution on any table that comes about: it ends. The first class on the way up that declares the
method gives its last declaration of it. When there is none, an interface gives it, if any that can be
reached declares it; and only when none does is there an error, which says so. -/
theorem resolveMethod_complete (h : l.Reachable) (id : ClassId) (name descriptor : String) :
    Resolves id name descriptor l.classes (resolveMethod id name descriptor l.classes).1
      (resolveMethod id name descriptor l.classes).2 ∧
    (∀ before x after, (ancestry id l.classes).1 = before ++ x :: after →
      (∀ y ∈ before, ¬l.classes.Declares name descriptor y) → l.classes.Declares name descriptor x →
      ∃ method, l.classes.LastDeclared name descriptor x method ∧
        (resolveMethod id name descriptor l.classes).1 = .ok method) ∧
    ((∀ x ∈ (ancestry id l.classes).1, ¬l.classes.Declares name descriptor x) →
      (∃ i, l.classes.Implements id i ∧ l.classes.Declares name descriptor i) →
      ∃ i method, l.classes.Implements id i ∧ l.classes.LastDeclared name descriptor i method ∧
        (resolveMethod id name descriptor l.classes).1 = .ok method) ∧
    ∀ e, (resolveMethod id name descriptor l.classes).1 = .error e ↔
      e = .noSuchMethod (l.classes.nameOf id) name descriptor ∧
        (∀ x ∈ (ancestry id l.classes).1, ¬l.classes.Declares name descriptor x) ∧
        ∀ i, l.classes.Implements id i → ¬l.classes.Declares name descriptor i := by
  have hregular := h.regular
  have hrun := resolves_resolveMethod (Reachable.moored h) id name descriptor
  refine ⟨hrun, ?_⟩
  generalize (resolveMethod id name descriptor l.classes).1 = outcome at hrun ⊢
  rcases hrun.finds with ⟨method, hfirst, rfl⟩ | ⟨hnone, ⟨i, method, hi, hfound, rfl⟩ | ⟨rfl, hbarren⟩⟩
  · have hsome : ¬∀ x ∈ (ancestry id l.classes).1, ¬l.classes.Declares name descriptor x := by
      rw [← findSome?_eq_none_iff_declares, hfirst]
      exact Option.some_ne_none method
    refine ⟨fun before x after hsplit hbefore hx => ?_, fun hnone => absurd hnone hsome,
      fun e => ⟨fun he => (by cases he), fun he => absurd he.2.1 hsome⟩⟩
    obtain ⟨method', hmethod, hfirst'⟩ := findSome?_first after hbefore hx
    rw [← hsplit, hfirst] at hfirst'
    cases hfirst'
    exact ⟨method, hregular.lastDeclared hmethod, rfl⟩
  · rw [findSome?_eq_none_iff_declares] at hnone
    have hdeclares : l.classes.Declares name descriptor i := by
      by_contra hnot
      cases hfound.symm.trans (declaredMethod?_eq_none.2 hnot)
    refine ⟨fun before x after hsplit _ hx => absurd hx (hnone x (by simp [hsplit])),
      fun _ _ => ⟨i, method, hi, hregular.lastDeclared hfound, rfl⟩,
      fun e => ⟨fun he => (by cases he), fun he => absurd hdeclares (he.2.2 i hi)⟩⟩
  · rw [findSome?_eq_none_iff_declares] at hnone
    simp only [declaredMethod?_eq_none] at hbarren
    refine ⟨fun before x after hsplit _ hx => absurd hx (hnone x (by simp [hsplit])),
      fun _ ⟨i, hi, hdeclares⟩ => absurd hdeclares (hbarren i hi),
      fun e => ⟨fun he => ?_, fun he => (by rw [he.1])⟩⟩
    cases he
    exact ⟨rfl, hnone, hbarren⟩

/-- Two classes that name each other as superclass, and two interfaces that extend each other. The second class
declares one method twice, the second interface another. -/
def circleRequests : List Linker.Request :=
  [.register { name := "Left", superName := some "Right", interfaces := ["Near"] },
    .register { name := "Right", superName := some "Left", methods := List.replicate 2 ⟨"run", "()V", {}, none⟩ },
    .register { name := "Near", interfaces := ["Far"] },
    .register { name := "Far", interfaces := ["Near"], methods := [⟨"walk", "()V", {}, none⟩] }]

def circle : Linker := circleRequests.foldl (fun l r => r.run l) {}

theorem resolveMethod_complete_circle : circle.Reachable ∧ (ancestry 0 circle.classes).1 = [0, 1] ∧
    (∃ method, circle.classes.LastDeclared "run" "()V" 1 method ∧
      (resolveMethod 0 "run" "()V" circle.classes).1 = .ok method) ∧
    (∃ i method, circle.classes.Implements 0 i ∧ circle.classes.LastDeclared "walk" "()V" i method ∧
      (resolveMethod 0 "walk" "()V" circle.classes).1 = .ok method) ∧
    ∀ i, circle.classes.Implements 0 i → ¬circle.classes.Declares "fly" "()V" i := by
  have hreachable : circle.Reachable := ⟨_, Linker.leads_foldl circleRequests {}⟩
  have hchain : (ancestry 0 circle.classes).1 = [0, 1] := by decide +kernel
  have hright : circle.classes.Declares "run" "()V" 1 :=
    not_not.1 (mt declaredMethod?_eq_none.2 (by decide +kernel))
  have hfar : circle.classes.Declares "walk" "()V" 3 :=
    not_not.1 (mt declaredMethod?_eq_none.2 (by decide +kernel))
  have himplements : circle.classes.Implements 0 3 := by
    refine ⟨0, by simp [hchain], 2, ?_, .single ?_⟩
    · show 2 ∈ (interfaces 0 circle.classes).1
      decide +kernel
    · show 3 ∈ (interfaces 2 circle.classes).1
      decide +kernel
  refine ⟨hreachable, hchain, ?_, ?_, ?_⟩
  · refine (resolveMethod_complete hreachable 0 "run" "()V").2.1 [0] 1 [] hchain (fun y hy => ?_) hright
    obtain rfl := List.mem_singleton.1 hy
    exact declaredMethod?_eq_none.1 (by decide +kernel)
  · refine (resolveMethod_complete hreachable 0 "walk" "()V").2.2.1 (fun x hx => ?_) ⟨3, himplements, hfar⟩
    rw [hchain] at hx
    simp only [List.mem_cons, List.not_mem_nil, or_false] at hx
    rcases hx with rfl | rfl <;> exact declaredMethod?_eq_none.1 (by decide +kernel)
  · have hmissing : (resolveMethod 0 "fly" "()V" circle.classes).1 = .error (.noSuchMethod "Left" "fly" "()V") := by
      decide +kernel
    exact (((resolveMethod_complete hreachable 0 "fly" "()V").2.2.2 _).1 hmissing).2.2

end Linkers

end ClassTable

end ClassMachine
