import ClassMachine.Proofs.Link.Slots

/-!
Dispatch tables. A pair of name and descriptor has one number for good, and a table stands for a
function from pairs to methods. Preparing a class, whenever it happens, makes the table stand for the
nearest override along the superclass chain.
-/
namespace ClassMachine
open Stateful

namespace Signatures

/-- No pair has two numbers. -/
def Distinct (s : Signatures) : Prop := ∀ i j p, s.describe? i = some p → s.describe? j = some p → i = j

variable {s : Signatures} {name descriptor : String}

theorem describe?_get? {id : SignatureId} (h : s.get? name descriptor = some id) :
    s.describe? id = some (name, descriptor) := by
  obtain ⟨hid, hp, _⟩ := Array.findIdx?_eq_some_iff_getElem.1 h
  rw [Bool.and_eq_true, beq_iff_eq, beq_iff_eq] at hp
  rw [describe?, Array.getElem?_eq_getElem hid]
  exact congrArg some (Prod.ext hp.1 hp.2)

theorem describe?_ne_of_get? (h : s.get? name descriptor = none) (id : SignatureId) :
    s.describe? id ≠ some (name, descriptor) := by
  intro hid
  have hnone := Array.findIdx?_eq_none_iff.1 h _ (Array.mem_of_getElem? hid)
  simp at hnone

/-- A pair that is numbered is described by its number. -/
theorem describe?_intern (s : Signatures) (name descriptor : String) :
    (s.intern name descriptor).2.describe? (s.intern name descriptor).1 = some (name, descriptor) := by
  unfold intern
  cases h : s.get? name descriptor with
  | some id => exact describe?_get? h
  | none => simp [describe?]

/-- Numbers that are in use stay as they are. -/
theorem describe?_of_intern (name descriptor : String) {id : SignatureId} {p : String × String}
    (h : s.describe? id = some p) : (s.intern name descriptor).2.describe? id = some p := by
  unfold intern
  cases s.get? name descriptor with
  | some _ => exact h
  | none =>
    have hid : id ≠ s.pairs.size := by
      rintro rfl
      simp [describe?] at h
    simp only [describe?, Array.getElem?_push, hid, if_false]
    exact h

theorem Distinct.intern (h : s.Distinct) (name descriptor : String) : (s.intern name descriptor).2.Distinct := by
  unfold Signatures.intern
  cases hget : s.get? name descriptor with
  | some _ => exact h
  | none =>
    have hfresh := describe?_ne_of_get? hget
    intro i j p hi hj
    simp only [describe?, Array.getElem?_push] at hi hj
    split at hi <;> split at hj
    · next hi' hj' => rw [hi', hj']
    · cases hi
      exact absurd hj (hfresh j)
    · cases hj
      exact absurd hi (hfresh i)
    · exact h i j p hi hj

/-- A number that is in use is found again by its pair. -/
theorem Distinct.intern_of_describe? (h : s.Distinct) {id : SignatureId}
    (hid : s.describe? id = some (name, descriptor)) : (s.intern name descriptor).1 = id := by
  unfold Signatures.intern
  cases hget : s.get? name descriptor with
  | some found => exact h found id _ (describe?_get? hget) hid
  | none => exact absurd hid (describe?_ne_of_get? hget id)

/-- A table that stands for a function of signatures. -/
structure Represents (s : Signatures) (table : DispatchTable) (look : String × String → Option MethodId) :
    Prop where
  sound : ∀ id m, table[id]? = some m → ∃ p, s.describe? id = some p ∧ look p = some m
  complete : ∀ p m, look p = some m → ∃ id, s.describe? id = some p ∧ table[id]? = some m

variable {table : DispatchTable} {look : String × String → Option MethodId}

theorem represents_empty (s : Signatures) : s.Represents ∅ fun _ => none := by
  constructor
  · intro id m h
    simp at h
  · intro p m h
    cases h

theorem Represents.mono {s' : Signatures} (h : s.Represents table look)
    (hs : ∀ id p, s.describe? id = some p → s'.describe? id = some p) : s'.Represents table look := by
  constructor
  · intro id m hm
    obtain ⟨p, hp, hlook⟩ := h.sound id m hm
    exact ⟨p, hs id p hp, hlook⟩
  · intro p m hm
    obtain ⟨id, hid, htable⟩ := h.complete p m hm
    exact ⟨id, hs id p hid, htable⟩

/-- An entry takes the place of what the table held under that signature. -/
theorem Represents.insert (h : s.Represents table look) (hs : s.Distinct) {id : SignatureId}
    {q : String × String} (hid : s.describe? id = some q) (m : MethodId) :
    s.Represents (table.insert id m) fun p => if p = q then some m else look p := by
  constructor
  · intro i m' hm
    rw [Maps.getElem?_insert_eq] at hm
    split at hm
    · next heq => exact ⟨q, heq ▸ hid, by simpa using hm⟩
    · next hne =>
      obtain ⟨p, hp, hlook⟩ := h.sound i m' hm
      have hpq : p ≠ q := by
        rintro rfl
        exact hne (hs id i p hid hp)
      exact ⟨p, hp, by simp [hpq, hlook]⟩
  · intro p m' hm
    by_cases hpq : p = q
    · subst hpq
      refine ⟨id, hid, ?_⟩
      rw [Maps.getElem?_insert_eq, if_pos rfl]
      simpa using hm
    · simp only [hpq, if_false] at hm
      obtain ⟨i, hi, htable⟩ := h.complete p m' hm
      refine ⟨i, hi, ?_⟩
      rw [Maps.getElem?_insert_eq, if_neg, htable]
      rintro rfl
      exact hpq (Option.some.inj (hi.symm.trans hid))

/-- What the table holds under the number of a pair. -/
theorem Represents.getElem?_intern (h : s.Represents table look) (hs : s.Distinct) (name descriptor : String) :
    table[(s.intern name descriptor).1]? = look (name, descriptor) := by
  cases hlook : look (name, descriptor) with
  | some m =>
    obtain ⟨id, hid, htable⟩ := h.complete _ m hlook
    rw [hs.intern_of_describe? hid, htable]
  | none =>
    cases htable : table[(s.intern name descriptor).1]? with
    | none => rfl
    | some m =>
      obtain ⟨p, hp, hm⟩ := h.sound _ m htable
      have hpair := (describe?_of_intern name descriptor hp).symm.trans (describe?_intern s name descriptor)
      rw [Option.some.inj hpair, hlook] at hm
      cases hm

end Signatures

/-- The last of the methods with that signature. -/
def lastEntry (entries : List ((String × String) × MethodId)) (p : String × String) : Option MethodId :=
  ((entries.filter (·.1 = p)).getLast?).map (·.2)

theorem lastEntry_cons (e : (String × String) × MethodId) (entries : List ((String × String) × MethodId))
    (p : String × String) :
    lastEntry (e :: entries) p = (lastEntry entries p).or (if p = e.1 then some e.2 else none) := by
  unfold lastEntry
  by_cases hp : e.1 = p
  · subst hp
    cases hlast : (entries.filter (·.1 = e.1)).getLast? with
    | none => simp [List.getLast?_cons, hlast]
    | some found => simp [List.getLast?_cons, hlast]
  · simp [hp, Ne.symm hp]

namespace ClassTable

/-- The method that dispatch is to find: the last one the first class of the chain declares that
declares any. -/
def nearest? (t : ClassTable) (chain : List ClassId) (p : String × String) : Option MethodId :=
  chain.findSome? fun x => (t.get? x).bind fun c => lastEntry c.virtuals p

variable {t t' : ClassTable} {id : ClassId} {ids : List ClassId} {c : ClassInfo}

theorem nearest?_cons (hc : t.get? id = some c) (ids : List ClassId) (p : String × String) :
    t.nearest? (id :: ids) p = (lastEntry c.virtuals p).or (t.nearest? ids p) := by
  rw [nearest?, List.findSome?_cons, hc, Option.bind_some]
  cases lastEntry c.virtuals p with
  | some m => rfl
  | none => rfl

theorem nearest?_congr (h : ∀ x ∈ ids, (t'.get? x).map ClassInfo.virtuals = (t.get? x).map ClassInfo.virtuals) :
    t'.nearest? ids = t.nearest? ids := by
  funext p
  induction ids with
  | nil => rfl
  | cons x ids ih =>
    have hx : ((t'.get? x).bind fun c => lastEntry c.virtuals p) =
        (t.get? x).bind fun c => lastEntry c.virtuals p := by
      have hvirtuals := congrArg (Option.bind · fun v => lastEntry v p) (h x (by simp))
      simpa [Option.bind_map, Function.comp_def] using hvirtuals
    have hrest := ih fun y hy => h y (by simp [hy])
    unfold nearest? at hrest ⊢
    rw [List.findSome?_cons, List.findSome?_cons, hx, hrest]

end ClassTable

namespace Linker
open ClassTable

/-- Numbers are distinct, and every dispatch table of a class whose chain ends stands for the nearest
overrides along it. -/
structure Dispatching (l : Linker) : Prop where
  distinct : l.signatures.Distinct
  nearest : ∀ id c ids kinds table, l.classes.get? id = some c → c.dispatch = some table →
    l.classes.Line id ids kinds → l.signatures.Represents table (l.classes.nearest? (id :: ids))

variable {l l' : Linker} {id : ClassId} {ids : List ClassId} {kinds : List Kind}

theorem Grows.describe? (h : l.Grows l') (i : SignatureId) (p : String × String)
    (hp : l.signatures.describe? i = some p) : l'.signatures.describe? i = some p := by
  unfold Signatures.describe? at hp ⊢
  rw [← Array.getElem?_toList] at hp ⊢
  obtain ⟨more, hmore⟩ := h.signatures
  rw [← hmore, List.getElem?_append_left (List.getElem?_eq_some_iff.1 hp).1, hp]

theorem extendDispatch_distinct (hs : l.signatures.Distinct) (table : DispatchTable) (methods : List Method) :
    (extendDispatch table methods l).2.signatures.Distinct := by
  induction methods generalizing table l with
  | nil => exact hs
  | cons m methods ih =>
    unfold extendDispatch
    split
    · exact ih (l := (intern m.name m.descriptor l).2) (hs.intern m.name m.descriptor) _
    · exact ih hs table

theorem dispatchOf_distinct (hs : l.signatures.Distinct) (inherited : DispatchTable) (c : ClassInfo) :
    (dispatchOf inherited c l).2.signatures.Distinct := by
  unfold dispatchOf
  cases c.dispatch with
  | some table => exact hs
  | none => exact extendDispatch_distinct hs inherited c.methods.toList

theorem prepareOne_distinct (hs : l.signatures.Distinct) (inherited : Inheritance) (id : ClassId) :
    (prepareOne inherited id l).2.signatures.Distinct := by
  cases hc : (interfaces id l.classes).2.get? id with
  | none =>
    rw [prepareOne_unknown hc]
    exact hs
  | some c =>
    rw [prepareOne_run hc rfl]
    exact dispatchOf_distinct (l := { l with classes := (interfaces id l.classes).2 }) hs _ _

/-- Methods of a class are put into the table one after the other. -/
theorem extendDispatch_represents {table : DispatchTable} {look : String × String → Option MethodId}
    (methods : List Method) (hs : l.signatures.Distinct) (h : l.signatures.Represents table look) :
    (extendDispatch table methods l).2.signatures.Represents (extendDispatch table methods l).1
      fun p => (lastEntry ((methods.filter Method.isVirtual).map Method.entry) p).or (look p) := by
  induction methods generalizing table look l with
  | nil => exact h
  | cons m methods ih =>
    unfold extendDispatch
    by_cases hvirtual : m.isVirtual = true
    · have hnumbered := l.signatures.describe?_intern m.name m.descriptor
      have hmore := h.mono fun _ _ => Signatures.describe?_of_intern m.name m.descriptor
      have hdistinct := hs.intern m.name m.descriptor
      have hlook : (fun p => (lastEntry (((m :: methods).filter Method.isVirtual).map Method.entry) p).or
          (look p)) = fun p => (lastEntry ((methods.filter Method.isVirtual).map Method.entry) p).or
            (if p = (m.name, m.descriptor) then some m.id else look p) := by
        funext p
        rw [List.filter_cons_of_pos hvirtual, List.map_cons, lastEntry_cons, Option.or_assoc]
        by_cases hp : p = (m.name, m.descriptor)
        · simp [Method.entry, hp]
        · simp [Method.entry, hp]
      rw [if_pos hvirtual, state_bind, hlook]
      exact ih (l := (intern m.name m.descriptor l).2) hdistinct (hmore.insert hdistinct hnumbered m.id)
    · rw [if_neg hvirtual, List.filter_cons_of_neg hvirtual]
      exact ih hs h

theorem dispatchOf_represents (inherited : DispatchTable) (c : ClassInfo)
    (look : String × String → Option MethodId) (hs : l.signatures.Distinct)
    (hkept : ∀ table, c.dispatch = some table → l.signatures.Represents table
      fun p => (lastEntry c.virtuals p).or (look p))
    (h : l.signatures.Represents inherited look) :
    (dispatchOf inherited c l).2.signatures.Represents (dispatchOf inherited c l).1
      fun p => (lastEntry c.virtuals p).or (look p) := by
  unfold dispatchOf
  cases htable : c.dispatch with
  | some table => exact hkept table htable
  | none => exact extendDispatch_represents c.methods.toList hs h

theorem layOut_dispatch (inherited : List Kind) (c : ClassInfo) :
    (layOut inherited c).dispatch = c.dispatch := by
  unfold layOut
  split <;> rfl

theorem prepareOne_virtuals (inherited : Inheritance) (id x : ClassId) (l : Linker) :
    ((prepareOne inherited id l).2.classes.get? x).map ClassInfo.virtuals =
      (l.classes.get? x).map ClassInfo.virtuals := by
  have hplan := congrArg (Option.map (·.2.2)) (prepareOne_plan inherited id x l)
  simp only [Option.map_map] at hplan
  refine Eq.trans hplan ?_
  congr 1
  funext c
  simp only [Function.comp_def]
  split <;> rfl

/-- A class that inherits the table of its superclass gets the table for its own chain. -/
theorem prepareOne_represents {inherited : Inheritance} (h : l.Dispatching)
    (hline : l.classes.Line id ids kinds)
    (hinherited : l.signatures.Represents inherited.dispatch (l.classes.nearest? ids)) :
    (prepareOne inherited id l).2.signatures.Represents (prepareOne inherited id l).1.dispatch
      (l.classes.nearest? (id :: ids)) := by
  obtain ⟨c, hc⟩ := Rooted.known ⟨ids, kinds, hline⟩
  have hget := get?_interfaces id id l.classes
  rw [if_pos rfl, hc, Option.map_some] at hget
  have hnearest : l.classes.nearest? (id :: ids) = fun p =>
      (lastEntry c.virtuals p).or (l.classes.nearest? ids p) := funext (nearest?_cons hc ids)
  have hkept : ∀ table, c.dispatch = some table → l.signatures.Represents table fun p =>
      (lastEntry c.virtuals p).or (l.classes.nearest? ids p) := by
    intro table htable
    exact hnearest ▸ h.nearest id c ids kinds table hc htable hline
  rw [prepareOne_run hget rfl, hnearest]
  have hmade := dispatchOf_represents (l := { l with classes := (interfaces id l.classes).2 }) inherited.dispatch
    (layOut inherited.kinds { c with interfaceLinks := some (interfaces id l.classes).1 })
    (l.classes.nearest? ids) h.distinct
  rw [layOut_dispatch, layOut_virtuals] at hmade
  exact hmade hkept hinherited

theorem prepareOne_dispatching {inherited : Inheritance} (h : l.Dispatching)
    (hinherited : ∀ ids kinds, l.classes.Line id ids kinds →
      l.signatures.Represents inherited.dispatch (l.classes.nearest? ids)) :
    (prepareOne inherited id l).2.Dispatching := by
  have hgrows := prepareOne_grows inherited id l
  constructor
  · exact prepareOne_distinct h.distinct inherited id
  · intro x c' ids kinds table hc' htable hline'
    have hline := (prepareOne_lays inherited id l).line hline'
    have hx := prepareOne_plan inherited id x l
    rw [hc', Option.map_some] at hx
    obtain ⟨c, hc, hplan⟩ := Option.map_eq_some_iff.1 hx.symm
    rw [nearest?_congr fun y _ => prepareOne_virtuals inherited id y l]
    split at hplan
    · next heq =>
      subst heq
      have hpassed : some (prepareOne inherited id l).1.dispatch = c'.dispatch := congrArg (·.2.1) hplan
      rw [htable] at hpassed
      cases hpassed
      exact prepareOne_represents h hline (hinherited ids kinds hline)
    · have hkept : c.dispatch = c'.dispatch := congrArg (·.2.1) hplan
      exact (h.nearest x c ids kinds table hc (hkept.trans htable) hline).mono hgrows.describe?

/-- Going down a chain from its end, every class is given the table of the classes above it. -/
theorem foldlM_prepareOne_represents (h : l.Dispatching) (hline : l.classes.Line id ids kinds) :
    ((id :: ids).reverse.foldlM prepareOne {} l).2.Dispatching ∧
      ((id :: ids).reverse.foldlM prepareOne {} l).2.signatures.Represents
        ((id :: ids).reverse.foldlM prepareOne {} l).1.dispatch
        (((id :: ids).reverse.foldlM prepareOne {} l).2.classes.nearest? (id :: ids)) := by
  induction hline with
  | @last id c hc hlink =>
    have hnone : l.signatures.Represents ({} : Inheritance).dispatch (l.classes.nearest? []) :=
      l.signatures.represents_empty
    show (prepareOne {} id l).2.Dispatching ∧ (prepareOne {} id l).2.signatures.Represents
      (prepareOne {} id l).1.dispatch ((prepareOne {} id l).2.classes.nearest? [id])
    rw [nearest?_congr fun y _ => prepareOne_virtuals {} id y l]
    refine ⟨prepareOne_dispatching h fun ids kinds hline => ?_, prepareOne_represents h (.last hc hlink) hnone⟩
    rw [(Line.unique (.last hc hlink) hline).1]
    exact hnone
  | @next id parent c p ids kinds hc hlink hp hrest ih =>
    rw [List.reverse_cons, List.foldlM_append, state_bind]
    have hlays := foldlM_prepareOne_lays (parent :: ids).reverse {} l
    generalize (parent :: ids).reverse.foldlM prepareOne {} l = r at ih hlays
    have hline := Line.settles (.next hc hlink hp hrest) hlays.settles
    show (prepareOne r.1 id r.2).2.Dispatching ∧ (prepareOne r.1 id r.2).2.signatures.Represents
      (prepareOne r.1 id r.2).1.dispatch ((prepareOne r.1 id r.2).2.classes.nearest? (id :: parent :: ids))
    rw [nearest?_congr fun y _ => prepareOne_virtuals r.1 id y r.2]
    refine ⟨prepareOne_dispatching ih.1 fun ids' kinds' hline' => ?_, prepareOne_represents ih.1 hline ih.2⟩
    rw [(hline.unique hline').1]
    exact ih.2

theorem foldlM_prepareOne_unrooted_dispatching (h : l.Dispatching)
    (hids : ∀ x ∈ ids, ¬ l.classes.Rooted x) (inherited : Inheritance) :
    (ids.foldlM prepareOne inherited l).2.Dispatching := by
  induction ids generalizing inherited l with
  | nil => exact h
  | cons id ids ih =>
    rw [List.foldlM_cons, state_bind]
    apply ih
    · apply prepareOne_dispatching h
      intro line kinds hline
      exact absurd ⟨line, kinds, hline⟩ (hids id (by simp))
    · intro x hx hrooted
      exact hids x (by simp [hx]) ((prepareOne_lays inherited id l).rooted hrooted)

/-- A linker in order. -/
structure Sound (l : Linker) : Prop extends l.Dispatching where
  orderly : l.classes.Orderly
  even : l.classes.Even

/-- Tables stay right while no class is prepared. -/
theorem Sound.idle (h : l.Sound) (hidle : l.classes.Idle l'.classes) (hb : l.classes.Becomes l'.classes)
    (hs : l'.signatures.Distinct)
    (hdescribe : ∀ i p, l.signatures.describe? i = some p → l'.signatures.describe? i = some p) : l'.Sound := by
  refine ⟨⟨hs, ?_⟩, hb.orderly h.orderly, h.even.idle hidle⟩
  intro id c' ids kinds table hc' htable hline'
  cases hc : l.classes.get? id with
  | none => cases htable.symm.trans (hidle.fresh id c' hc hc').2
  | some c =>
    obtain ⟨c'', hc'', hplan⟩ := hidle.kept id c hc
    cases hc'.symm.trans hc''
    have hdispatch : c.dispatch = some table :=
      (show c.dispatch = c'.dispatch from congrArg (·.2.1) hplan.symm).trans htable
    have hlaid : c.layout.isSome := by rw [h.even id c hc, hdispatch]; rfl
    obtain ⟨hline, hall⟩ := hline'.before hb.settles h.orderly.upward ⟨c, hc, hlaid⟩
    have hsame : l'.classes.nearest? (id :: ids) = l.classes.nearest? (id :: ids) := by
      apply nearest?_congr
      intro x hx
      obtain ⟨cx, hcx, _⟩ := hall x hx
      obtain ⟨cx', hcx', hplanx⟩ := hidle.kept x cx hcx
      rw [hcx, hcx', Option.map_some, Option.map_some]
      exact congrArg some (congrArg (·.2.2) hplanx)
    rw [hsame]
    exact (h.nearest id c ids kinds table hc hdispatch hline).mono hdescribe

theorem Sound.asks (h : l.Sound) {t : ClassTable} (ha : l.classes.Asks t) :
    ({ l with classes := t } : Linker).Sound := by
  induction ha with
  | refl => exact h
  | tail _ hask ih => exact ih.idle hask.idle hask.becomes ih.distinct fun _ _ hp => hp

theorem Sound.prepare (h : l.Sound) (id : ClassId) : (prepare id l).2.Sound := by
  refine ⟨?_, prepare_orderly h.orderly id, prepare_even h.even id⟩
  cases hc : l.classes.get? id with
  | none =>
    rw [Linker.prepare, state_get, hc]
    exact h.toDispatching
  | some c =>
    rw [prepare_eq hc]
    split
    · exact h.toDispatching
    · have hasked := h.asks (ancestry_asks id l.classes)
      obtain ⟨more, hclimbed⟩ := ancestry_climbed id l.classes
      generalize ancestry id l.classes = r at hasked hclimbed
      obtain ⟨chain, t⟩ := r
      have hchain : chain = id :: more := by simpa using hclimbed.found_eq
      subst hchain
      rcases hclimbed.line with ⟨kinds, hline⟩ | hnone
      · exact (foldlM_prepareOne_represents (l := { l with classes := t }) hasked.toDispatching hline).1
      · exact foldlM_prepareOne_unrooted_dispatching (l := { l with classes := t }) hasked.toDispatching
          (fun x hx => hnone x (List.mem_reverse.1 hx)) {}

/-- What one change preserves. -/
theorem Sound.change (h : l.Sound) (hc : l.Change l') : l'.Sound := by
  rcases hc.prepares_or_idle with ⟨id, rfl⟩ | ⟨hidle, heq | ⟨name, descriptor, heq⟩⟩
  · exact h.prepare id
  · exact h.idle hidle hc.becomes (heq ▸ h.distinct) fun _ _ hp => heq ▸ hp
  · exact h.idle hidle hc.becomes (heq ▸ h.distinct.intern name descriptor)
      fun _ _ hp => heq ▸ Signatures.describe?_of_intern name descriptor hp

theorem Sound.changes (h : l.Sound) (hc : l.Changes l') : l'.Sound := by
  induction hc with
  | refl => exact h
  | tail _ hchange ih => exact ih.change hchange

theorem Reachable.sound (h : l.Reachable) : l.Sound := by
  obtain ⟨access, hleads⟩ := h
  have hnone : ∀ i, (({ access := access } : Linker).signatures.describe? i) = none := by
    simp [Signatures.describe?]
  refine Sound.changes ⟨⟨?_, ?_⟩, orderly_empty, ?_⟩ (Leads.changes hleads)
  · intro i j p hi
    cases (hnone i).symm.trans hi
  · intro id c ids kinds table hc
    simp [get?] at hc
  · intro id c hc
    simp [get?] at hc

theorem Change.describe? (h : l.Change l') (i : SignatureId) (p : String × String)
    (hp : l.signatures.describe? i = some p) : l'.signatures.describe? i = some p := by
  rcases h.prepares_or_idle with ⟨id, rfl⟩ | ⟨_, heq | ⟨name, descriptor, heq⟩⟩
  · exact (prepare_grows id l).describe? i p hp
  · exact heq ▸ hp
  · exact heq ▸ Signatures.describe?_of_intern name descriptor hp

theorem Changes.describe? (h : l.Changes l') (i : SignatureId) (p : String × String)
    (hp : l.signatures.describe? i = some p) : l'.signatures.describe? i = some p := by
  induction h with
  | refl => exact hp
  | tail _ hchange ih => exact hchange.describe? i p ih

end Linker

/-- The last of the entries that pass the test. -/
theorem lastIndex?_bind {α : Type} (p : α → Bool) (xs : Array α) :
    (lastIndex? p xs).bind (xs[·]?) = (xs.toList.filter p).getLast? := by
  have hlist : ∀ ys : List α, (List.range ys.length).filterMap (ys[·]?) = ys := by
    intro ys
    induction ys with
    | nil => rfl
    | cons y ys ih => simp [List.range_succ_eq_map, List.filterMap_map, ih]
  have hindex : lastIndex? p xs = (List.range xs.size).reverse.find? fun i => xs[i]?.any p := rfl
  have hfound : (lastIndex? p xs).bind (xs[·]?) = xs.toList.reverse.find? p := by
    have hreverse := congrArg List.reverse (hlist xs.toList)
    simp only [Array.length_toList, Array.getElem?_toList, ← List.filterMap_reverse] at hreverse
    rw [hindex, ← hreverse, List.find?_filterMap]
  rw [hfound, List.getLast?_eq_head?_reverse, ← List.filter_reverse, List.head?_filter]

/-- The method of that signature that dispatch on a class finds, of those declared in it. -/
def ClassInfo.override? (c : ClassInfo) (name descriptor : String) : Option Method :=
  (c.methods.toList.filter fun m => m.isVirtual && m.name == name && m.descriptor == descriptor).getLast?

theorem ClassInfo.lastEntry_virtuals (c : ClassInfo) (name descriptor : String) :
    lastEntry c.virtuals (name, descriptor) = (c.override? name descriptor).map (·.id) := by
  have htest : ((fun e : (String × String) × MethodId => decide (e.1 = (name, descriptor))) ∘ Method.entry) =
      fun m => m.name == name && m.descriptor == descriptor := by
    funext m
    simp [Method.entry, beq_eq_decide]
  have hfilter : (c.methods.toList.filter Method.isVirtual).filter
      (fun m => m.name == name && m.descriptor == descriptor) =
        c.methods.toList.filter fun m => m.isVirtual && m.name == name && m.descriptor == descriptor := by
    rw [List.filter_filter]
    congr 1
    funext m
    rw [Bool.and_comm, Bool.and_assoc]
  rw [lastEntry, virtuals, List.filter_map, htest, hfilter, List.getLast?_map, Option.map_map]
  rfl

namespace ClassTable

def override? (t : ClassTable) (name descriptor : String) (id : ClassId) : Option Method :=
  (t.get? id).bind (·.override? name descriptor)

variable {t : ClassTable} {name descriptor : String}

theorem nearest?_eq (t : ClassTable) (chain : List ClassId) (name descriptor : String) :
    t.nearest? chain (name, descriptor) = (chain.findSome? (t.override? name descriptor)).map (·.id) := by
  unfold nearest?
  induction chain with
  | nil => rfl
  | cons x chain ih =>
    have hx : ((t.get? x).bind fun c => lastEntry c.virtuals (name, descriptor)) =
        (t.override? name descriptor x).map (·.id) := by
      cases hc : t.get? x with
      | none => simp [override?, hc]
      | some c => simp [override?, hc, ClassInfo.lastEntry_virtuals]
    rw [List.findSome?_cons, List.findSome?_cons, hx, ih]
    cases t.override? name descriptor x <;> rfl

/-- Where only methods that take part in dispatch have the signature, the declared one is the override. -/
theorem declaredMethod?_eq {id : ClassId} (h : ∀ c m, t.get? id = some c → m ∈ c.methods → m.name = name →
    m.descriptor = descriptor → m.isVirtual = true) :
    t.declaredMethod? name descriptor id = (t.override? name descriptor id).map (·.id) := by
  unfold declaredMethod? override?
  cases hc : t.get? id with
  | none => rfl
  | some c =>
    have hsame : c.methods.toList.filter (fun m => m.isVirtual && m.name == name && m.descriptor == descriptor) =
        c.methods.toList.filter fun m => m.name == name && m.descriptor == descriptor := by
      apply List.filter_congr
      intro m hm
      by_cases hname : m.name = name
      · by_cases hdescriptor : m.descriptor = descriptor
        · simp [hname, hdescriptor, h c m hc (Array.mem_toList_iff.1 hm) hname hdescriptor]
        · simp [beq_false_of_ne hdescriptor]
      · simp [beq_false_of_ne hname]
    rw [Option.bind_some, Option.bind_some, ClassInfo.override?, hsame, ← lastIndex?_bind]
    rfl

theorem findSome?_declaredMethod? {chain : List ClassId} (h : ∀ x ∈ chain, ∀ c m, t.get? x = some c →
    m ∈ c.methods → m.name = name → m.descriptor = descriptor → m.isVirtual = true) :
    chain.findSome? (t.declaredMethod? name descriptor) =
      (chain.findSome? (t.override? name descriptor)).map (·.id) := by
  induction chain with
  | nil => rfl
  | cons x chain ih =>
    rw [List.findSome?_cons, List.findSome?_cons, declaredMethod?_eq (h x (by simp)),
      ih fun y hy => h y (by simp [hy])]
    cases t.override? name descriptor x <;> rfl

/-- Questions leave the methods of the classes alone. -/
theorem Asks.methods {t' : ClassTable} (h : t.Asks t') {id : ClassId} {c : ClassInfo} (hc : t.get? id = some c) :
    ∃ c', t'.get? id = some c' ∧ c'.methods = c.methods := by
  induction h with
  | refl => exact ⟨c, hc, rfl⟩
  | tail _ hask ih =>
    obtain ⟨c₁, hc₁, hmethods⟩ := ih
    cases hask with
    | record severity subject message => exact ⟨c₁, hc₁, hmethods⟩
    | superclass x =>
      rw [get?_superclass]
      split
      · rw [hc₁]
        exact ⟨_, rfl, hmethods⟩
      · exact ⟨c₁, hc₁, hmethods⟩
    | interfaces x =>
      rw [get?_interfaces]
      split
      · rw [hc₁]
        exact ⟨_, rfl, hmethods⟩
      · exact ⟨c₁, hc₁, hmethods⟩
    | array hinsert =>
      obtain ⟨_, _, _, hclasses, _⟩ := insert_eq hinsert
      refine ⟨c₁, ?_, hmethods⟩
      rw [get?_push hclasses, if_neg, hc₁]
      rintro rfl
      rw [get?_eq_none_of_size_le (Nat.le_refl _)] at hc₁
      cases hc₁

theorem findSome?_declaredMethod?_asks {t' : ClassTable} (h : t.Asks t') {chain : List ClassId}
    (hchain : ∀ x ∈ chain, ∃ c, t.get? x = some c) :
    chain.findSome? (t'.declaredMethod? name descriptor) = chain.findSome? (t.declaredMethod? name descriptor) := by
  induction chain with
  | nil => rfl
  | cons x chain ih =>
    obtain ⟨c, hc⟩ := hchain x (by simp)
    obtain ⟨c', hc', hmethods⟩ := h.methods hc
    have hx : t'.declaredMethod? name descriptor x = t.declaredMethod? name descriptor x := by
      simp only [declaredMethod?, hc, hc', Option.bind_some, ClassInfo.method?, ClassInfo.methodPosition?, hmethods]
    rw [List.findSome?_cons, List.findSome?_cons, hx, ih fun y hy => hchain y (by simp [hy])]

/-- Methods that are found stand under their own numbers. -/
theorem Regular.method?_override? (ht : t.Regular) {id : ClassId} {m : Method}
    (h : t.override? name descriptor id = some m) : t.method? m.id = some m := by
  obtain ⟨c, hc, hlast⟩ := Option.bind_eq_some_iff.1 h
  have hmem := (List.mem_filter.1 (List.mem_of_getLast? hlast)).1
  obtain ⟨i, hi⟩ := List.mem_iff_getElem?.1 hmem
  rw [Array.getElem?_toList] at hi
  rw [(ht.listed id c hc).2.numbered i m hi, method?, hc]
  exact hi

theorem resolveMethod_of_chain {id : ClassId} {method : MethodId}
    (h : (ancestry id t).1.findSome? ((ancestry id t).2.declaredMethod? name descriptor) = some method) :
    (resolveMethod id name descriptor t).1 = .ok method := by
  rw [resolveMethod, state_bind, state_get, h]
  rfl

end ClassTable

namespace Linker
open ClassTable

/-- Numbers of signatures are handed out once and for all, and dispatch on a prepared class finds the
nearest override, whatever was asked for before. What is found fits the sixteen bits of its index where no
class has more methods than that. -/
theorem Reachable.dispatches {l : Linker} (h : l.Reachable) :
    (∀ name descriptor l', ((Request.intern name descriptor).run l).Leads l' →
      l'.signatures.describe? (l.signatures.intern name descriptor).1 = some (name, descriptor) ∧
      ∀ name' descriptor', (l'.signatures.intern name' descriptor').1 = (l.signatures.intern name descriptor).1 ↔
        (name', descriptor') = (name, descriptor)) ∧
    ∀ id c, l.classes.get? id = some c → isPrepared c = true → l.classes.Acyclic id → ∀ name descriptor,
      c.dispatch? (l.signatures.intern name descriptor).1 =
        ((ancestry id l.classes).1.findSome? (l.classes.override? name descriptor)).map (·.id) ∧
      (∀ x m, l.classes.override? name descriptor x = some m → l.classes.method? m.id = some m ∧
        (l.classes.Narrow → m.id.index < 65536)) ∧
      ((∀ x ∈ (ancestry id l.classes).1, ∀ cx m, l.classes.get? x = some cx → m ∈ cx.methods → m.name = name →
          m.descriptor = descriptor → m.isVirtual = true) →
        c.dispatch? (l.signatures.intern name descriptor).1 =
          (ancestry id l.classes).1.findSome? ((ancestry id l.classes).2.declaredMethod? name descriptor) ∧
        ∀ method, c.dispatch? (l.signatures.intern name descriptor).1 = some method →
          (resolveMethod id name descriptor l.classes).1 = .ok method) := by
  constructor
  · intro name descriptor l' hl
    have hs := (h.leads (.head ⟨.intern name descriptor, rfl⟩ hl)).sound
    have hdescribed := Changes.describe? (Leads.changes hl) _ _ (l.signatures.describe?_intern name descriptor)
    refine ⟨hdescribed, fun name' descriptor' => ⟨fun heq => ?_, fun heq => ?_⟩⟩
    · have hagain := l'.signatures.describe?_intern name' descriptor'
      rw [heq, Signatures.describe?_of_intern name' descriptor' hdescribed] at hagain
      exact (Option.some.inj hagain).symm
    · cases heq
      exact hs.distinct.intern_of_describe? hdescribed
  · intro id c hc hprepared hacyclic name descriptor
    obtain ⟨hlaid, htable⟩ := Bool.and_eq_true_iff.1 hprepared
    obtain ⟨table, htable⟩ := Option.isSome_iff_exists.1 htable
    obtain ⟨ids, kinds, hline⟩ := hacyclic.rooted h.orderly.upward ⟨c, hc, hlaid⟩
    have hchain := ancestry_of_line (hline.settles (ancestry_grows id l.classes).settles)
    have hs := h.sound
    have hfound := (hs.nearest id c ids kinds table hc htable hline).getElem?_intern hs.distinct name descriptor
    rw [nearest?_eq, ← hchain] at hfound
    have hdispatch : ∀ i, c.dispatch? i = table[i]? := by simp [ClassInfo.dispatch?, htable]
    rw [hdispatch, hfound]
    refine ⟨rfl, fun x m hm => ?_, fun honly => ?_⟩
    · have hmethod := h.regular.method?_override? hm
      exact ⟨hmethod, fun hnarrow => hnarrow.method_lt hmethod⟩
    have hdeclared : (ancestry id l.classes).1.findSome? ((ancestry id l.classes).2.declaredMethod? name descriptor) =
        ((ancestry id l.classes).1.findSome? (l.classes.override? name descriptor)).map (·.id) := by
      rw [← findSome?_declaredMethod? honly]
      apply findSome?_declaredMethod?_asks (ancestry_asks id l.classes)
      intro x hx
      exact hline.mem_known (hchain ▸ hx)
    rw [hdeclared]
    refine ⟨rfl, fun method hmethod => resolveMethod_of_chain ?_⟩
    rw [hdeclared, hmethod]

/-- A class of abstract methods without arguments. -/
def abstractClass (name : String) (superName : Option String) (methods : List (String × AccessFlags)) :
    ClassDefinition :=
  { name := name, superName := superName,
    methods := methods.map fun m => ⟨m.1, "()V", m.2.union .abstractFlag, none⟩ }

/-- The class in the middle declares `run` twice; the one below it has a `run` of its own that takes no
part in dispatch, and is the one that is asked for. -/
def threeLevels : Linker :=
  [Request.register (abstractClass "Top" none [("run", .publicFlag)]),
    .register (abstractClass "Middle" (some "Top") [("run", .publicFlag), ("run", .publicFlag)]),
    .register (abstractClass "Bottom" (some "Middle") [("run", .privateFlag), ("go", .publicFlag)]),
    .prepare 2].foldl (fun l r => r.run l) {}

theorem threeLevels_dispatches :
    (threeLevels.signatures.intern "run" "()V").1 = 0 ∧ (threeLevels.signatures.intern "go" "()V").1 = 1 ∧
    ∃ c, threeLevels.classes.get? 2 = some c ∧ isPrepared c = true ∧ c.dispatch? 0 = some ⟨1, 1⟩ ∧
      (resolveMethod 2 "go" "()V" threeLevels.classes).1 = .ok ⟨2, 1⟩ ∧
      ∀ l', ((Request.intern "run" "()V").run threeLevels).Leads l' →
        l'.signatures.describe? 0 = some ("run", "()V") := by
  have hreachable : threeLevels.Reachable := ⟨.generic, leads_foldl _ _⟩
  have hacyclic : threeLevels.classes.Acyclic 2 := acyclic_of_descending (by decide +kernel) 2
  have hrun : (threeLevels.signatures.intern "run" "()V").1 = 0 := by decide +kernel
  have hgo : (threeLevels.signatures.intern "go" "()V").1 = 1 := by decide +kernel
  have hfound : (threeLevels.classes.get? 2).map (fun c => (isPrepared c, c.dispatch? 0, c.dispatch? 1)) =
      some (true, some ⟨1, 1⟩, some ⟨2, 1⟩) := by decide +kernel
  obtain ⟨c, hc, heq⟩ := Option.map_eq_some_iff.1 hfound
  simp only [Prod.mk.injEq] at heq
  obtain ⟨hprepared, hzero, hone⟩ := heq
  obtain ⟨hsignatures, hdispatches⟩ := hreachable.dispatches
  have honly : ∀ x ∈ (ancestry 2 threeLevels.classes).1, ∀ cx m, threeLevels.classes.get? x = some cx →
      m ∈ cx.methods → m.name = "go" → m.descriptor = "()V" → m.isVirtual = true := by
    have hall : ∀ cx ∈ threeLevels.classes.classes.toList, ∀ m ∈ cx.methods.toList, m.name = "go" →
        m.descriptor = "()V" → m.isVirtual = true := by decide +kernel
    intro x _ cx m hcx hm
    exact hall cx (mem_toList.2 ⟨x, hcx⟩) m (Array.mem_toList_iff.2 hm)
  obtain ⟨_, _, hresolves⟩ := hdispatches 2 c hc hprepared hacyclic "go" "()V"
  refine ⟨hrun, hgo, c, hc, hprepared, hzero, (hresolves honly).2 _ (hgo ▸ hone), fun l' hl => ?_⟩
  exact hrun ▸ (hsignatures "run" "()V" l' hl).1

end Linker

end ClassMachine
