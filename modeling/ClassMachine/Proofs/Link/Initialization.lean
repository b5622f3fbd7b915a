import ClassMachine.Proofs.Link.Pairing
import ClassMachine.Proofs.Link.Turns

/-!
The order in which initializers are taken up. A class is cleared once its initializer has been taken up,
and stays so. In an ordered table the superclass chain of a cleared class was followed before, and if it
ends all classes on it are cleared. Following the chain of a class and taking up the initializers on it,
the last one first, keeps a table ordered.
-/
namespace ClassMachine.ClassTable
open Stateful

variable {t t' t₁ t₂ t₃ : ClassTable} {id x : ClassId} {ids : List ClassId} {kinds : List Kind}

/-- The initializer of a class that is there was taken up, or there never was one to take up. -/
def Cleared (t : ClassTable) (id : ClassId) : Prop := ∃ c, t.get? id = some c ∧ c.pendingInit = false

/-- The initializer of a class has yet to be taken up. -/
def Pending (t : ClassTable) (id : ClassId) : Prop := ∃ c, t.get? id = some c ∧ c.pendingInit = true

theorem Cleared.not_pending (h : t.Cleared id) : ¬ t.Pending id := by
  rintro ⟨c, hc, hpending⟩
  obtain ⟨c', hc', hcleared⟩ := h
  cases hc.symm.trans hc'
  rw [hcleared] at hpending
  cases hpending

/-- Of one table more is known later: what was settled stays, and cleared classes stay cleared. -/
def Precedes (t t' : ClassTable) : Prop :=
  ∀ id c, t.get? id = some c → ∃ c', t'.get? id = some c' ∧ c.Settles c' ∧ c'.element = c.element ∧
    (c.pendingInit = false → c'.pendingInit = false)

theorem Precedes.refl (t : ClassTable) : t.Precedes t := fun _ c hc =>
  ⟨c, hc, .of_skeleton rfl, rfl, fun h => h⟩

theorem Precedes.trans (h : t₁.Precedes t₂) (h' : t₂.Precedes t₃) : t₁.Precedes t₃ := by
  intro id c hc
  obtain ⟨c₂, hc₂, hs, he, hp⟩ := h id c hc
  obtain ⟨c₃, hc₃, hs', he', hp'⟩ := h' id c₂ hc₂
  exact ⟨c₃, hc₃, hs.trans hs', he'.trans he, fun h => hp' (hp h)⟩

theorem Precedes.settles (h : t.Precedes t') : t.Settles t' := by
  intro id c hc
  obtain ⟨c', hc', hs, _⟩ := h id c hc
  exact ⟨c', hc', hs⟩

theorem Precedes.cleared (h : t.Precedes t') (hid : t.Cleared id) : t'.Cleared id := by
  obtain ⟨c, hc, hp⟩ := hid
  obtain ⟨c', hc', _, _, hp'⟩ := h id c hc
  exact ⟨c', hc', hp' hp⟩

theorem Unfolds.precedes (h : t.Unfolds t') : t.Precedes t' := by
  intro id c hc
  obtain ⟨c', hc', hu⟩ := h.known id c hc
  exact ⟨c', hc', hu.settles, hu.element, fun hp => hu.pendingInit.trans hp⟩

theorem takePendingInit_precedes (id : ClassId) (t : ClassTable) :
    t.Precedes (takePendingInit id t).2 := by
  intro x c hc
  rw [get?_takePendingInit, hc]
  split
  · exact ⟨_, rfl, .of_skeleton rfl, rfl, fun _ => rfl⟩
  · exact ⟨c, rfl, .of_skeleton rfl, rfl, fun h => h⟩

theorem Followed.settles {S : ClassId → Prop} (h : t.Followed S) (hs : t.Settles t') : t'.Followed S := by
  intro x hx
  obtain ⟨c, link, hc, hlink, hparent⟩ := h x hx
  obtain ⟨c', hc', hsettles⟩ := hs x c hc
  exact ⟨c', link, hc', hsettles.superLink link hlink, hparent⟩

/-- All superclasses of a class are cleared if there is an end to them. -/
def ClearedAbove (t : ClassTable) (id : ClassId) : Prop :=
  ∀ ids kinds, t.Line id ids kinds → ∀ x ∈ ids, t.Cleared x

/-- Where links were followed, chains stay, and cleared superclasses with them. -/
theorem ClearedAbove.precedes {S : ClassId → Prop} (h : t.ClearedAbove id) (hp : t.Precedes t')
    (hS : t.Followed S) (hid : S id) : t'.ClearedAbove id := fun ids kinds hline x hx =>
  hp.cleared (h ids kinds (hline.before hp.settles hS hid).1 x hx)

/-- Initializers were taken up superclasses first. -/
structure Ordered (t : ClassTable) : Prop where
  orderly : t.Orderly
  above : ∀ id c, t.get? id = some c → c.element = none → c.pendingInit = false →
    (∃ S : ClassId → Prop, t.Followed S ∧ S id) ∧ t.ClearedAbove id
  arrays : ∀ id c, t.get? id = some c → c.pendingInit = true → c.element = none
  numbered : ∀ id c, t.get? id = some c → ∀ (i : Nat) (m : Method), c.methods[i]? = some m → m.id = ⟨id, i⟩

/-- Classes whose initializers were taken up come after their superclasses. Classes of arrays never had
one. -/
def InOrder (t : ClassTable) : Prop :=
  ∀ id c, t.get? id = some c → c.element = none → c.pendingInit = false → t.ClearedAbove id

theorem Ordered.inOrder (h : t.Ordered) : t.InOrder := fun id c hc he hcleared =>
  (h.above id c hc he hcleared).2

theorem ordered_empty : ({} : ClassTable).Ordered := by
  refine ⟨orderly_empty, fun id c hc => ?_, fun id c hc => ?_, fun id c hc => ?_⟩
  all_goals
    rw [show ({} : ClassTable).get? id = none from rfl] at hc
    cases hc

theorem Ordered.unfolds (h : t.Ordered) (hu : t.Unfolds t') (horderly : t'.Orderly) : t'.Ordered := by
  have hp := hu.precedes
  refine ⟨horderly, fun id c' hc' he hcleared => ?_, fun id c' hc' hpending => ?_,
    fun id c' hc' i m hm => ?_⟩
  · cases hc : t.get? id with
    | none =>
      rw [(hu.added id c' hc hc').1.2 he] at hcleared
      cases hcleared
    | some c =>
      obtain ⟨c'', hc'', hcu⟩ := hu.known id c hc
      cases hc'.symm.trans hc''
      obtain ⟨⟨S, hS, hid⟩, habove⟩ := h.above id c hc (hcu.element.symm.trans he)
        (hcu.pendingInit.symm.trans hcleared)
      exact ⟨⟨S, hS.settles hp.settles, hid⟩, habove.precedes hp hS hid⟩
  · cases hc : t.get? id with
    | none => exact (hu.added id c' hc hc').1.1 hpending
    | some c =>
      obtain ⟨c'', hc'', hcu⟩ := hu.known id c hc
      cases hc'.symm.trans hc''
      exact hcu.element.trans (h.arrays id c hc (hcu.pendingInit.symm.trans hpending))
  · cases hc : t.get? id with
    | none => exact (hu.added id c' hc hc').2 i m hm
    | some c =>
      obtain ⟨c'', hc'', hcu⟩ := hu.known id c hc
      cases hc'.symm.trans hc''
      obtain ⟨m₀, hm₀, hid⟩ := hcu.methods i m hm
      rw [← hid]
      exact h.numbered id c hc i m₀ hm₀

theorem spares_takePendingInit (id : ClassId) (t : ClassTable) : t.Spares (takePendingInit id t).2 := by
  refine ⟨rfl, fun x => ?_⟩
  rw [get?_takePendingInit]
  split
  · rw [Option.map_map]
    rfl
  · rfl

/-- An initializer is taken up in order when those of the superclasses were. -/
theorem Ordered.takePendingInit (h : t.Ordered) {S : ClassId → Prop} (hS : t.Followed S) (hid : S id)
    (habove : t.ClearedAbove id) : (takePendingInit id t).2.Ordered := by
  have hp := takePendingInit_precedes id t
  refine ⟨(Becomes.aside .same (spares_takePendingInit id t)).orderly h.orderly,
    fun x c' hc' he hcleared => ?_, fun x c' hc' hpending => ?_, fun x c' hc' i m hm => ?_⟩
  · by_cases hx : id = x
    · subst hx
      exact ⟨⟨S, hS.settles hp.settles, hid⟩, habove.precedes hp hS hid⟩
    · rw [get?_takePendingInit, if_neg hx] at hc'
      obtain ⟨⟨R, hR, hxR⟩, hcx⟩ := h.above x c' hc' he hcleared
      exact ⟨⟨R, hR.settles hp.settles, hxR⟩, hcx.precedes hp hR hxR⟩
  · rw [get?_takePendingInit] at hc'
    split at hc'
    · obtain ⟨c, _, rfl⟩ := Option.map_eq_some_iff.1 hc'
      cases hpending
    · exact h.arrays x c' hc' hpending
  · rw [get?_takePendingInit] at hc'
    split at hc'
    · obtain ⟨c, hc, rfl⟩ := Option.map_eq_some_iff.1 hc'
      exact h.numbered x c hc i m hm
    · exact h.numbered x c' hc' i m hm

section Chains

theorem self_mem_ancestry (id : ClassId) (t : ClassTable) : id ∈ (ancestry id t).1 := by
  obtain ⟨more, hclimbed⟩ := ancestry_climbed id t
  rw [hclimbed.found_eq]
  simp

theorem Line.suffix {pre post : List ClassId} (h : t.Line id ids kinds) (hids : id :: ids = pre ++ x :: post) :
    ∃ kinds, t.Line x post kinds := by
  induction h generalizing pre with
  | last hc hlink =>
    cases pre with
    | nil =>
      obtain ⟨rfl, rfl⟩ := List.cons.inj hids
      exact ⟨_, .last hc hlink⟩
    | cons y pre => simp at hids
  | next hc hlink hp hrest ih =>
    cases pre with
    | nil =>
      obtain ⟨rfl, rfl⟩ := List.cons.inj hids
      exact ⟨_, .next hc hlink hp hrest⟩
    | cons y pre => exact ih (List.cons.inj hids).2

/-- Superclasses are found behind a class on the chain that holds it. -/
theorem line_of_ancestry {pre post : List ClassId} (hfound : (ancestry id t).1 = pre ++ x :: post)
    (hline : (ancestry id t).2.Line x ids kinds) : ids = post := by
  have hx : x ∈ (ancestry id t).1 := by rw [hfound]; simp
  obtain ⟨ids', kinds', hline', hids'⟩ := ancestry_line hx ⟨ids, kinds, hline⟩
  obtain ⟨kinds'', hsuffix⟩ := hline'.suffix (hids'.symm.trans hfound)
  exact (hsuffix.unique hline).1

end Chains

end ClassMachine.ClassTable
