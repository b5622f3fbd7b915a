import ClassMachine.Proofs.Bytecode.StackMap
import Mathlib.Order.Bounds.Basic
import Mathlib.Order.WellFounded

/-!
Which bodies stack verification accepts. Stacks assigned to instructions are consistent when every
edge of control brings the stack assigned to its end. A body is accepted exactly when there is a
consistent assignment, what was recorded is the smallest one, and the depth answered is that of the
deepest stack an instruction leaves under it. A search may take reached instructions,
handlers and branch targets in any order and comes to the same.
-/
namespace ClassMachine
open Stateful

namespace LinkedCode

/-- Ranges and targets of handlers lie inside the body. -/
def HandlersInside (c : LinkedCode) : Prop :=
  ∀ h ∈ c.handlers, h.start ≤ h.stop ∧ h.stop ≤ c.length ∧ h.target < c.length

theorem checkHandlers_ok {c : LinkedCode} {handlers : List Handler} :
    c.checkHandlers handlers = .ok () ↔
      ∀ h ∈ handlers, h.start ≤ h.stop ∧ h.stop ≤ c.length ∧ h.target < c.length := by
  induction handlers with
  | nil => simp [checkHandlers]
  | cons first rest ih =>
    rw [checkHandlers, List.forall_mem_cons, ← ih]
    split
    · simp only [reduceCtorEq, false_iff, not_and]
      omega
    · next hok =>
      refine ⟨fun h => ⟨by omega, h⟩, fun h => h.2⟩

/-- Stacks assigned to some instructions, nothing to the first, so that every edge out of an
instruction with a stack brings the stack assigned where it leads. -/
structure Consistent (c : LinkedCode) (assigned : Nat → Option CategoryStack) : Prop where
  start : assigned 0 = some []
  leads : ∀ index before, assigned index = some before → ∃ i after, c.get? index = some i ∧
    i.simulate c.maxLocals index before = .ok after ∧ after.depth ≤ c.maxStack ∧
    (∀ target ∈ i.branchTargets, target < c.length ∧ assigned target = some after) ∧
    (i.isTerminator = false → index + 1 < c.length ∧ assigned (index + 1) = some after) ∧
    ∀ h ∈ c.handlers, h.covers index = true → assigned h.target = some [.one]

/-- An instruction with a stack leaves `after`. -/
def Leaves (c : LinkedCode) (assigned : Nat → Option CategoryStack) (index : Nat)
    (after : CategoryStack) : Prop :=
  ∃ i before, c.get? index = some i ∧ assigned index = some before ∧
    i.simulate c.maxLocals index before = .ok after

/-- Every stack of the one assignment is one of the other. -/
def Within (assigned assigned' : Nat → Option CategoryStack) : Prop :=
  ∀ index stack, assigned index = some stack → assigned' index = some stack

theorem Within.antisymm {assigned assigned' : Nat → Option CategoryStack} (h : Within assigned assigned')
    (h' : Within assigned' assigned) : assigned = assigned' := by
  funext index
  refine Option.ext fun stack => ⟨h index stack, h' index stack⟩

/-- Consistent assigned that every consistent assignment has. -/
structure Smallest (c : LinkedCode) (assigned : Nat → Option CategoryStack) : Prop where
  consistent : c.Consistent assigned
  least : ∀ assigned', c.Consistent assigned' → Within assigned assigned'

theorem Smallest.unique {c : LinkedCode} {assigned assigned' : Nat → Option CategoryStack}
    (h : c.Smallest assigned) (h' : c.Smallest assigned') : assigned = assigned' :=
  (h.least _ h'.consistent).antisymm (h'.least _ h.consistent)

/-- `depth` is that of the deepest stack an instruction leaves. -/
def Deepest (c : LinkedCode) (assigned : Nat → Option CategoryStack) (depth : Nat) : Prop :=
  IsGreatest {n | ∃ index after, c.Leaves assigned index after ∧ after.depth = n} depth

/-- A body that has all parts of another one, handlers and branch targets listed in any order. -/
structure Relisted (c c' : LinkedCode) : Prop where
  length : c'.length = c.length
  maxStack : c'.maxStack = c.maxStack
  maxLocals : c'.maxLocals = c.maxLocals
  handlers : c'.handlers.Perm c.handlers
  instructions : ∀ index i i', c.get? index = some i → c'.get? index = some i' →
    (∀ maxLocals stack, i'.simulate maxLocals index stack = i.simulate maxLocals index stack) ∧
      i'.isTerminator = i.isTerminator ∧ i'.branchTargets.Perm i.branchTargets

end LinkedCode

namespace StackMap
open LinkedCode

/-- One turn of a search that takes any reached instruction, and its handlers and branch targets
in any order. -/
inductive Turn (code : LinkedCode) (m : StackMap) : Except LinkError StackMap → Prop where
  | follow {index : Nat} {before : CategoryStack} {i : Instruction} {handlers : List Handler}
      {targets : List Nat} (listed : index ∈ m.work) (reached : m.stackAt index = some before)
      (there : code.get? index = some i) (hhandlers : handlers.Perm code.handlers)
      (htargets : targets.Perm i.branchTargets) :
      Turn code m (followIn code handlers targets { m with work := m.work.erase index } index i before)
  | idle {index : Nat} (listed : index ∈ m.work) (unknown : m.stackAt index = none) :
      Turn code m (.ok { m with work := m.work.erase index })

/-- A search that goes on until nothing is left to follow or something is wrong. -/
inductive Search (code : LinkedCode) : StackMap → Except LinkError StackMap → Prop where
  | done {m : StackMap} (h : m.work = []) : Search code m (.ok m)
  | failed {m : StackMap} {e : LinkError} (h : Turn code m (.error e)) : Search code m (.error e)
  | next {m m' : StackMap} {answer : Except LinkError StackMap} (h : Turn code m (.ok m'))
      (rest : Search code m' answer) : Search code m answer

section Chains

variable {α : Type} {step : StackMap → α → Except LinkError StackMap} {P : StackMap → Prop}
  {as : List α}

/-- What every step keeps, a chain of steps keeps. -/
theorem foldlM_keeps (hstep : ∀ m m' a, P m → step m a = .ok m' → P m') {m m' : StackMap} (hm : P m)
    (h : as.foldlM step m = .ok m') : P m' := by
  induction as generalizing m with
  | nil =>
    cases h
    exact hm
  | cons a as ih =>
    rw [List.foldlM_cons] at h
    obtain ⟨m₁, ha, h⟩ := except_bind_ok.1 h
    exact ih (hstep _ _ a hm ha) h

/-- A chain of steps none of which can fail. -/
theorem foldlM_succeeds (hstep : ∀ m, P m → ∀ a ∈ as, ∃ m', step m a = .ok m' ∧ P m') {m : StackMap}
    (hm : P m) : ∃ m', as.foldlM step m = .ok m' ∧ P m' := by
  induction as generalizing m with
  | nil => exact ⟨m, rfl, hm⟩
  | cons a as ih =>
    obtain ⟨m₁, ha, hm₁⟩ := hstep m hm a (by simp)
    obtain ⟨m', has, hm'⟩ := ih (fun m hm b hb => hstep m hm b (by simp [hb])) hm₁
    exact ⟨m', by rw [List.foldlM_cons, except_bind_of_ok ha, has], hm'⟩

end Chains

/-! ### Every search ends -/

/-- Instructions not reached and those reached but not followed. -/
def pending (m : StackMap) : Nat := m.recorded.countP Option.isNone + m.work.length

/-- Recording a stack where none was. -/
theorem countP_record {recorded : Array (Option CategoryStack)} {index : Nat} (stack : CategoryStack)
    (h : recorded[index]? = some none) :
    (recorded.setIfInBounds index (some stack)).countP Option.isNone + 1 =
      recorded.countP Option.isNone := by
  obtain ⟨hlt, hget⟩ := Array.getElem?_eq_some_iff.1 h
  have hpos : 0 < recorded.countP Option.isNone :=
    Array.countP_pos_iff.2 ⟨none, hget ▸ Array.getElem_mem hlt, rfl⟩
  rw [Array.setIfInBounds_def, dif_pos hlt, Array.countP_set hlt, hget]
  simp
  omega

theorem pending_entry {length : Nat} (h : 0 < length) : (entry length).pending = length := by
  have hnone : (Array.replicate length (none : Option CategoryStack))[0]? = some none := by simp [h]
  have hrecord := countP_record [] hnone
  simp only [Array.countP_replicate, Option.isNone_none, if_true] at hrecord
  simp only [pending, entry, List.length_singleton]
  exact hrecord

theorem merge_pending {m m' : StackMap} {target : Nat} {incoming : CategoryStack}
    (h : m.merge target incoming = .ok m') : m'.pending = m.pending := by
  unfold merge at h
  split at h
  · next hr =>
    cases h
    have hrecord := countP_record incoming hr
    simp only [pending, List.length_append, List.length_singleton]
    omega
  · split at h
    · cases h; rfl
    · cases h
  · cases h; rfl

theorem followIn_pending {code : LinkedCode} {handlers : List Handler} {targets : List Nat}
    {m m' : StackMap} {index : Nat} {i : Instruction} {before : CategoryStack}
    (h : followIn code handlers targets m index i before = .ok m') : m'.pending = m.pending := by
  obtain ⟨m₁, after, m₂, hh, -, -, hb, hlast⟩ := followIn_ok.1 h
  have h₁ : m₁.pending = m.pending := by
    refine foldlM_keeps (P := fun k => k.pending = m.pending) (fun k k' g hk hg => ?_) rfl hh
    split at hg
    · exact (merge_pending hg).trans hk
    · cases hg
      exact hk
  have h₂ : m₂.pending = m₁.pending := by
    refine foldlM_keeps (m := { m₁ with deepest := max m₁.deepest after.depth })
      (P := fun k => k.pending = m₁.pending) (fun k k' t hk ht => ?_) rfl hb
    unfold mergeBranch at ht
    split at ht
    · cases ht
    · exact (merge_pending ht).trans hk
  have h₃ : m'.pending = m₂.pending := by
    split at hlast
    · rw [hlast]
    · exact merge_pending hlast.2
  rw [h₃, h₂, h₁]

theorem pending_erase {m : StackMap} {index : Nat} (h : index ∈ m.work) :
    ({ m with work := m.work.erase index } : StackMap).pending < m.pending := by
  have hpos := List.length_pos_of_mem h
  simp only [pending, List.length_erase_of_mem h]
  omega

theorem Turn.pending_lt {code : LinkedCode} {m m' : StackMap} (h : Turn code m (.ok m')) :
    m'.pending < m.pending := by
  generalize hr : (Except.ok m' : Except LinkError StackMap) = answer at h
  cases h with
  | follow listed _ _ _ _ => exact (followIn_pending hr.symm).trans_lt (pending_erase listed)
  | idle listed _ =>
    cases hr
    exact pending_erase listed

/-- An instruction is listed once, so turns cannot go on for ever. -/
theorem wellFounded_turn (code : LinkedCode) : WellFounded fun m' m => Turn code m (.ok m') :=
  Subrelation.wf (fun h => h.pending_lt) (measure pending).wf

/-- Verification is a search that takes the instruction listed first. -/
theorem search_saturate {code : LinkedCode} (hinside : ∀ h ∈ code.handlers, h.target < code.length)
    {fuel : Nat} {m : StackMap} (hm : Saturating code m) (hfuel : m.pending ≤ fuel) :
    Search code m (saturate code fuel m) := by
  induction fuel generalizing m with
  | zero =>
    have hw : m.work = [] := List.length_eq_zero_iff.1 (by simp only [pending] at hfuel; omega)
    unfold saturate
    rw [hw]
    exact .done hw
  | succ fuel ih =>
    unfold saturate
    cases hw : m.work with
    | nil => exact .done hw
    | cons index work =>
      have hlisted : index ∈ m.work := by simp [hw]
      have herase : m.work.erase index = work := by simp [hw]
      dsimp only
      split
      · next before i hb hi =>
        have hreached : m.stackAt index = some before := by simp [stackAt, hb]
        have hturn := Turn.follow hlisted hreached hi (.refl _) (.refl _)
        rw [herase, ← follow_eq_followIn] at hturn
        split
        · next m' hf =>
          rw [hf] at hturn
          have hrest : ∀ j ∈ m.work, j = index ∨ j ∈ work := by simp [hw]
          have hstep := hm.step hinside hrest hreached hi (fun _ h => h) (fun _ h => h) hf
          exact .next hturn (ih hstep (by have := hturn.pending_lt; omega))
        · next e hf =>
          rw [hf] at hturn
          exact .failed hturn
      · -- an instruction with a stack is there, so this one has none
        next hnone =>
        have hunknown : m.stackAt index = none := by
          rw [Option.eq_none_iff_forall_ne_some]
          intro stack hs
          have hrec : m.recorded[index]? = some (some stack) := Option.join_eq_some_iff.1 hs
          have hlt : index < code.length := hm.size ▸ (Array.getElem?_eq_some_iff.1 hrec).1
          obtain ⟨i, hi⟩ := Option.isSome_iff_exists.1 ((code.get?_isSome_iff index).2 hlt)
          exact hnone stack i hrec hi
        have hturn : Turn code m _ := .idle hlisted hunknown
        rw [herase] at hturn
        refine .next hturn (ih ⟨hm.size, hm.start, fun j stack hj => ?_⟩ (by
          have := hturn.pending_lt; omega))
        rcases hm.followed j stack hj with hj' | ⟨i, after, hi, hf⟩
        · rcases List.mem_cons.1 (hw ▸ hj') with rfl | hrest
          · exact absurd (hunknown.symm.trans hj) (by simp)
          · exact .inl hrest
        · exact .inr ⟨i, after, hi, hf.congr rfl⟩

/-! ### Where there are consistent assigned, no search fails -/

section Within

variable {code : LinkedCode} {assigned : Nat → Option CategoryStack}

theorem merge_within {m : StackMap} (hm : Within m.stackAt assigned) {target : Nat}
    {incoming : CategoryStack} (h : assigned target = some incoming) :
    ∃ m', m.merge target incoming = .ok m' ∧ Within m'.stackAt assigned := by
  unfold merge
  split
  · refine ⟨_, rfl, fun index stack hs => ?_⟩
    simp only [stackAt, Array.getElem?_setIfInBounds] at hs
    split at hs
    · next heq =>
      subst heq
      split at hs
      · cases hs
        exact h
      · cases hs
    · exact hm index stack hs
  · next existing hr =>
    have hknown := hm target existing (by simp [stackAt, hr])
    rw [if_pos (Option.some.inj (hknown.symm.trans h))]
    exact ⟨m, rfl, hm⟩
  · exact ⟨m, rfl, hm⟩

/-- Following an instruction with its own stack finds nothing wrong. -/
theorem followIn_within (hc : code.Consistent assigned) {handlers : List Handler} {targets : List Nat}
    {m : StackMap} (hm : Within m.stackAt assigned) {index : Nat} {before : CategoryStack}
    {i : Instruction} (hb : assigned index = some before) (hi : code.get? index = some i)
    (hhandlers : ∀ h ∈ handlers, h ∈ code.handlers) (htargets : ∀ t ∈ targets, t ∈ i.branchTargets) :
    ∃ m', followIn code handlers targets m index i before = .ok m' ∧ Within m'.stackAt assigned := by
  obtain ⟨i', after, hi', hsim, hfit, hbranches, hfalls, hcovers⟩ := hc.leads index before hb
  obtain rfl := Option.some.inj (hi.symm.trans hi')
  obtain ⟨m₁, h₁, hm₁⟩ : ∃ m₁, m.mergeHandlers index handlers = .ok m₁ ∧ Within m₁.stackAt assigned := by
    refine foldlM_succeeds (P := fun k => Within k.stackAt assigned) (fun k hk g hg => ?_) hm
    split
    · next hcov => exact merge_within hk (hcovers g (hhandlers g hg) hcov)
    · exact ⟨k, rfl, hk⟩
  obtain ⟨m₂, h₂, hm₂⟩ : ∃ m₂, targets.foldlM (fun m t => m.mergeBranch code.length index after t)
      { m₁ with deepest := max m₁.deepest after.depth } = .ok m₂ ∧ Within m₂.stackAt assigned := by
    refine foldlM_succeeds (P := fun k => Within k.stackAt assigned) (fun k hk t ht => ?_) hm₁
    obtain ⟨hlt, hstack⟩ := hbranches t (htargets t ht)
    rw [mergeBranch, if_neg (by omega)]
    exact merge_within hk hstack
  cases hterm : i.isTerminator with
  | true => exact ⟨m₂, followIn_ok.2 ⟨m₁, after, m₂, h₁, hsim, hfit, h₂, by simp [hterm]⟩, hm₂⟩
  | false =>
    obtain ⟨hlt, hstack⟩ := hfalls hterm
    obtain ⟨m₃, h₃, hm₃⟩ := merge_within hm₂ hstack
    exact ⟨m₃, followIn_ok.2 ⟨m₁, after, m₂, h₁, hsim, hfit, h₂, by simp [hterm, hlt, h₃]⟩, hm₃⟩

theorem Turn.within (hc : code.Consistent assigned) {m : StackMap} (hm : Within m.stackAt assigned)
    {answer : Except LinkError StackMap} (h : Turn code m answer) :
    ∃ m', answer = .ok m' ∧ Within m'.stackAt assigned := by
  cases h with
  | @follow index before i _ _ _ reached there hhandlers htargets =>
    exact followIn_within hc (m := { m with work := m.work.erase index }) hm (hm _ _ reached) there
      (fun _ => hhandlers.mem_iff.1) (fun _ => htargets.mem_iff.1)
  | idle _ _ => exact ⟨_, rfl, hm⟩

theorem Search.within (hc : code.Consistent assigned) {m : StackMap} {answer : Except LinkError StackMap}
    (h : Search code m answer) (hm : Within m.stackAt assigned) :
    ∃ m', answer = .ok m' ∧ Within m'.stackAt assigned := by
  induction h with
  | done _ => exact ⟨_, rfl, hm⟩
  | failed h =>
    obtain ⟨_, heq, _⟩ := h.within hc hm
    cases heq
  | next h _ ih =>
    obtain ⟨m', heq, hm'⟩ := h.within hc hm
    cases heq
    exact ih hm'

theorem entry_within (hc : code.Consistent assigned) (length : Nat) :
    Within (entry length).stackAt assigned := by
  intro index stack hs
  simp only [entry, stackAt, Array.getElem?_setIfInBounds, Array.getElem?_replicate,
    Array.size_replicate] at hs
  split at hs
  · next h0 =>
    subst h0
    split at hs
    · cases hs
      exact hc.start
    · cases hs
  · split at hs <;> cases hs

end Within

/-! ### A search that finds nothing wrong has recorded consistent assigned -/

/-- What holds while a search goes on: reached instructions are followed or still listed, and the
depth kept is that of the deepest stack left by one that was followed. -/
structure Searching (code : LinkedCode) (m : StackMap) : Prop extends Saturating code m where
  bounded : ∀ index after, code.Leaves m.stackAt index after → index ∈ m.work ∨ after.depth ≤ m.deepest
  attained : m.deepest = 0 ∨ ∃ index after, code.Leaves m.stackAt index after ∧ after.depth = m.deepest

theorem searching_entry {code : LinkedCode} (h : 0 < code.length) :
    Searching code (entry code.length) := by
  refine ⟨saturating_entry h, fun index after hl => .inl ?_, .inl rfl⟩
  obtain ⟨i, before, hi, hb, -⟩ := hl
  rcases (saturating_entry h).followed index before hb with hw | ⟨_, _, _, hf⟩
  · exact hw
  · have hrec := hb
    simp only [entry, stackAt, Array.getElem?_setIfInBounds, Array.getElem?_replicate] at hrec
    split at hrec
    · next h0 => simp [entry, h0]
    · split at hrec <;> cases hrec

theorem merge_deepest {m m' : StackMap} {target : Nat} {incoming : CategoryStack}
    (h : m.merge target incoming = .ok m') : m'.deepest = m.deepest := by
  unfold merge at h
  split at h
  · cases h; rfl
  · split at h
    · cases h; rfl
    · cases h
  · cases h; rfl

theorem followIn_deepest {code : LinkedCode} {handlers : List Handler} {targets : List Nat}
    {m m' : StackMap} {index : Nat} {i : Instruction} {before after : CategoryStack}
    (h : followIn code handlers targets m index i before = .ok m')
    (hsim : i.simulate code.maxLocals index before = .ok after) :
    m'.deepest = max m.deepest after.depth := by
  obtain ⟨m₁, after', m₂, hh, hsim', -, hb, hlast⟩ := followIn_ok.1 h
  obtain rfl : after = after' := by rw [hsim] at hsim'; cases hsim'; rfl
  have h₁ : m₁.deepest = m.deepest := by
    refine foldlM_keeps (P := fun k => k.deepest = m.deepest) (fun k k' g hk hg => ?_) rfl hh
    split at hg
    · exact (merge_deepest hg).trans hk
    · cases hg
      exact hk
  have h₂ : m₂.deepest = max m₁.deepest after.depth := by
    refine foldlM_keeps (m := { m₁ with deepest := max m₁.deepest after.depth })
      (P := fun k => k.deepest = max m₁.deepest after.depth) (fun k k' t hk ht => ?_) rfl hb
    unfold mergeBranch at ht
    split at ht
    · cases ht
    · exact (merge_deepest ht).trans hk
  have h₃ : m'.deepest = m₂.deepest := by
    split at hlast
    · rw [hlast]
    · exact merge_deepest hlast.2
  rw [h₃, h₂, h₁]

/-- Following one listed instruction. -/
theorem Searching.follow {code : LinkedCode} (hinside : ∀ h ∈ code.handlers, h.target < code.length)
    {handlers : List Handler} {targets : List Nat} {m m' : StackMap} (hm : Searching code m)
    {index : Nat} {before : CategoryStack} {i : Instruction} (reached : m.stackAt index = some before)
    (there : code.get? index = some i) (hhandlers : handlers.Perm code.handlers)
    (htargets : targets.Perm i.branchTargets)
    (h : followIn code handlers targets { m with work := m.work.erase index } index i before =
      .ok m') : Searching code m' := by
  have hcovers : ∀ g ∈ code.handlers, g ∈ handlers := fun _ => hhandlers.mem_iff.2
  have hbranches : ∀ t ∈ i.branchTargets, t ∈ targets := fun _ => htargets.mem_iff.2
  have hlisted : ∀ j ∈ m.work, j = index ∨ j ∈ m.work.erase index := fun j hj =>
    or_iff_not_imp_left.2 fun hne => (List.mem_erase_of_ne hne).2 hj
  obtain ⟨hext, after, hfollowed⟩ := followIn_extends
    (m := { m with work := m.work.erase index }) hm.size hinside hcovers hbranches h
  have hdeepest := followIn_deepest h hfollowed.simulated
  refine ⟨hm.toSaturating.step hinside hlisted reached there hcovers hbranches h,
    fun j left hl => ?_, ?_⟩
  · obtain ⟨i', before', hi', hb', hs'⟩ := hl
    rcases hext.fresh j before' hb' with hold | hnew
    · rcases hm.bounded j left ⟨i', before', hi', hold, hs'⟩ with hj | hle
      · rcases hlisted j hj with rfl | hrest
        · -- the instruction that was followed
          obtain rfl := Option.some.inj (there.symm.trans hi')
          obtain rfl := Option.some.inj (reached.symm.trans hold)
          obtain rfl : after = left := Except.ok.inj (hfollowed.simulated.symm.trans hs')
          exact .inr (by rw [hdeepest]; exact le_max_right _ _)
        · exact .inl (hext.work j hrest)
      · exact .inr (by rw [hdeepest]; exact hle.trans (le_max_left _ _))
    · exact .inl hnew
  · rcases le_total after.depth m.deepest with hle | hle
    · rw [hdeepest, max_eq_left hle]
      refine hm.attained.imp_right fun ⟨j, left, ⟨i', before', hi', hb', hs'⟩, heq⟩ => ?_
      exact ⟨j, left, ⟨i', before', hi', hext.kept _ _ hb', hs'⟩, heq⟩
    · rw [hdeepest, max_eq_right hle]
      exact .inr ⟨index, after, ⟨i, before, there, hext.kept _ _ reached, hfollowed.simulated⟩, rfl⟩

/-- A listed instruction without a stack is passed over. -/
theorem Searching.pass {code : LinkedCode} {m : StackMap} (hm : Searching code m) {index : Nat}
    (unknown : m.stackAt index = none) :
    Searching code { m with work := m.work.erase index } := by
  have hlisted : ∀ j stack, m.stackAt j = some stack → j ∈ m.work → j ∈ m.work.erase index := by
    intro j stack hs hj
    refine (List.mem_erase_of_ne fun he => ?_).2 hj
    rw [he, unknown] at hs
    cases hs
  refine ⟨⟨hm.size, hm.start, fun j stack hs => ?_⟩, fun j left hl => ?_, hm.attained⟩
  · exact (hm.followed j stack hs).imp (hlisted j stack hs) fun ⟨i, after, hi, hf⟩ =>
      ⟨i, after, hi, hf.congr rfl⟩
  · obtain ⟨_, before, _, hb, _⟩ := id hl
    exact (hm.bounded j left hl).imp_left (hlisted j before hb)

theorem Turn.searching {code : LinkedCode} (hinside : ∀ h ∈ code.handlers, h.target < code.length)
    {m m' : StackMap} (hm : Searching code m) (h : Turn code m (.ok m')) : Searching code m' := by
  generalize hr : (Except.ok m' : Except LinkError StackMap) = answer at h
  cases h with
  | follow _ reached there hhandlers htargets =>
    exact hm.follow hinside reached there hhandlers htargets hr.symm
  | idle _ unknown =>
    cases hr
    exact hm.pass unknown

theorem Search.searching {code : LinkedCode} (hinside : ∀ h ∈ code.handlers, h.target < code.length)
    {m m' : StackMap} {answer : Except LinkError StackMap} (h : Search code m answer)
    (hm : Searching code m) (hanswer : answer = .ok m') : Searching code m' ∧ m'.work = [] := by
  induction h with
  | done hw =>
    cases hanswer
    exact ⟨hm, hw⟩
  | failed _ => cases hanswer
  | next h _ ih => exact ih (h.searching hinside hm) hanswer

theorem lt_size_of_stackAt {m : StackMap} {index : Nat} {stack : CategoryStack}
    (h : m.stackAt index = some stack) : index < m.recorded.size :=
  (Array.getElem?_eq_some_iff.1 (Option.join_eq_some_iff.1 h)).1

/-- Once nothing is left to follow, what is recorded is consistent. -/
theorem Searching.consistent {code : LinkedCode} {m : StackMap} (hm : Searching code m)
    (hw : m.work = []) : code.Consistent m.stackAt := by
  refine ⟨hm.start, fun index before hb => ?_⟩
  rcases hm.followed index before hb with hj | ⟨i, after, hi, hf⟩
  · rw [hw] at hj
    cases hj
  · have hlt : ∀ {j stack}, m.stackAt j = some stack → j < code.length := fun h =>
      hm.size ▸ lt_size_of_stackAt h
    exact ⟨i, after, hi, hf.simulated, hf.fits, fun t ht => ⟨hlt (hf.branches t ht), hf.branches t ht⟩,
      fun hterm => ⟨hlt (hf.falls hterm), hf.falls hterm⟩, hf.handlers⟩

theorem Searching.deepest_left {code : LinkedCode} {m : StackMap} (hm : Searching code m)
    (hw : m.work = []) : code.Deepest m.stackAt m.deepest := by
  have hbound : ∀ index after, code.Leaves m.stackAt index after → after.depth ≤ m.deepest := by
    intro index after hl
    exact (hm.bounded index after hl).resolve_left (by simp [hw])
  refine ⟨?_, fun n ⟨index, after, hl, hn⟩ => hn ▸ hbound index after hl⟩
  rcases hm.attained with hzero | hleft
  · -- the first instruction leaves something, and nothing deeper than nothing
    obtain ⟨i, after, hi, hsim, -⟩ := (hm.consistent hw).leads 0 [] hm.start
    have hl : code.Leaves m.stackAt 0 after := ⟨i, [], hi, hm.start, hsim⟩
    exact ⟨0, after, hl, by have := hbound 0 after hl; omega⟩
  · exact hleft

/-- A search from the start that finds nothing wrong has recorded the smallest assignment and the
depth of the deepest stack left under it. -/
theorem Search.smallest {code : LinkedCode} (hlength : 0 < code.length) (hinside : code.HandlersInside)
    {m : StackMap} (h : Search code (entry code.length) (.ok m)) :
    code.Smallest m.stackAt ∧ code.Deepest m.stackAt m.deepest := by
  obtain ⟨hm, hw⟩ := h.searching (fun g hg => (hinside g hg).2.2) (searching_entry hlength) rfl
  refine ⟨⟨hm.consistent hw, fun assigned hc => ?_⟩, hm.deepest_left hw⟩
  obtain ⟨m', heq, hwithin⟩ := h.within hc (entry_within hc _)
  cases heq
  exact hwithin

end StackMap

namespace LinkedCode

theorem inside_of_stackMap {c : LinkedCode} {m : StackMap} (h : c.stackMap = .ok m) :
    0 < c.length ∧ c.HandlersInside := by
  unfold stackMap at h
  split at h
  · simp [except_bind_ok] at h
  · next hlength =>
    obtain ⟨_, hhandlers, -⟩ := except_bind_ok.1 h
    exact ⟨Nat.pos_of_ne_zero hlength, checkHandlers_ok.1 hhandlers⟩

theorem search_stackMap {c : LinkedCode} (hlength : 0 < c.length) (hinside : c.HandlersInside) :
    StackMap.Search c (.entry c.length) c.stackMap := by
  have hsearch := StackMap.search_saturate (fun g hg => (hinside g hg).2.2)
    (StackMap.saturating_entry hlength) (StackMap.pending_entry hlength).le
  have hmap : c.stackMap = StackMap.saturate c c.length (.entry c.length) := by
    unfold stackMap
    rw [if_neg (by omega)]
    exact except_bind_of_ok (checkHandlers_ok.2 hinside)
  rw [hmap]
  exact hsearch

/-- What it comes to that a body is accepted with a depth. -/
structure Accepts (c : LinkedCode) (depth : Nat) : Prop where
  nonempty : 0 < c.length
  inside : c.HandlersInside
  smallest : ∃ assigned, c.Smallest assigned ∧ c.Deepest assigned depth

theorem accepts_of_search {c : LinkedCode} (hlength : 0 < c.length) (hinside : c.HandlersInside)
    {answer : Except LinkError StackMap} (h : StackMap.Search c (.entry c.length) answer) {depth : Nat} :
    answer.map (·.deepest) = .ok depth ↔ c.Accepts depth := by
  constructor
  · intro hanswer
    cases answer with
    | error e => cases hanswer
    | ok m =>
      obtain rfl : m.deepest = depth := Except.ok.inj hanswer
      exact ⟨hlength, hinside, m.stackAt, h.smallest hlength hinside⟩
  · rintro ⟨-, -, assigned, hs, hd⟩
    obtain ⟨m, rfl, -⟩ := h.within hs.consistent (StackMap.entry_within hs.consistent _)
    obtain ⟨hs', hd'⟩ := h.smallest hlength hinside
    rw [hs'.unique hs] at hd'
    exact congrArg Except.ok (hd'.unique hd)

theorem verify_eq_ok {c : LinkedCode} {depth : Nat} : c.verify = .ok depth ↔ c.Accepts depth := by
  by_cases h : 0 < c.length ∧ c.HandlersInside
  · exact accepts_of_search h.1 h.2 (search_stackMap h.1 h.2)
  · refine ⟨fun hv => ?_, fun ha => absurd ⟨ha.nonempty, ha.inside⟩ h⟩
    unfold verify at hv
    cases hm : c.stackMap with
    | error e => rw [hm] at hv; cases hv
    | ok m => exact absurd (inside_of_stackMap hm) h

/-- Where there are consistent stacks, there are smallest ones. -/
theorem accepts_of_consistent {c : LinkedCode} (hlength : 0 < c.length) (hinside : c.HandlersInside)
    {assigned : Nat → Option CategoryStack} (h : c.Consistent assigned) : ∃ depth, c.Accepts depth := by
  have hsearch := search_stackMap hlength hinside
  obtain ⟨m, hm, -⟩ := hsearch.within h (StackMap.entry_within h _)
  exact ⟨m.deepest, (accepts_of_search hlength hinside hsearch).1 (by rw [hm]; rfl)⟩

namespace Relisted

variable {c c' : LinkedCode}

theorem symm (h : c.Relisted c') : c'.Relisted c :=
  ⟨h.length.symm, h.maxStack.symm, h.maxLocals.symm, h.handlers.symm, fun index i' i hi' hi =>
    let ⟨hsim, hterm, hbranches⟩ := h.instructions index i i' hi hi'
    ⟨fun maxLocals stack => (hsim maxLocals stack).symm, hterm.symm, hbranches.symm⟩⟩

/-- The counterpart of an instruction. -/
theorem exists_get? (h : c.Relisted c') {index : Nat} {i : Instruction} (hi : c.get? index = some i) :
    ∃ i', c'.get? index = some i' := by
  refine Option.isSome_iff_exists.1 ((c'.get?_isSome_iff index).2 ?_)
  rw [h.length]
  exact (c.get?_isSome_iff index).1 (by rw [hi]; rfl)

theorem consistent (h : c.Relisted c') {assigned : Nat → Option CategoryStack}
    (hc : c.Consistent assigned) : c'.Consistent assigned := by
  refine ⟨hc.start, fun index before hb => ?_⟩
  obtain ⟨i, after, hi, hsim, hfit, hbranches, hfalls, hcovers⟩ := hc.leads index before hb
  obtain ⟨i', hi'⟩ := h.exists_get? hi
  obtain ⟨hsim', hterm', hbranches'⟩ := h.instructions index i i' hi hi'
  refine ⟨i', after, hi', ?_, h.maxStack.symm ▸ hfit, fun t ht => ?_, fun hterm => ?_, fun g hg =>
    hcovers g (h.handlers.mem_iff.1 hg)⟩
  · rw [hsim', h.maxLocals]
    exact hsim
  · rw [h.length]
    exact hbranches t (hbranches'.mem_iff.1 ht)
  · rw [h.length]
    exact hfalls (hterm' ▸ hterm)

theorem leaves (h : c.Relisted c') {assigned : Nat → Option CategoryStack} {index : Nat}
    {after : CategoryStack} (hl : c.Leaves assigned index after) : c'.Leaves assigned index after := by
  obtain ⟨i, before, hi, hb, hsim⟩ := hl
  obtain ⟨i', hi'⟩ := h.exists_get? hi
  refine ⟨i', before, hi', hb, ?_⟩
  rw [(h.instructions index i i' hi hi').1, h.maxLocals]
  exact hsim

theorem accepts (h : c.Relisted c') {depth : Nat} (ha : c.Accepts depth) : c'.Accepts depth := by
  obtain ⟨hlength, hinside, assigned, hs, hd⟩ := ha
  refine ⟨h.length ▸ hlength, fun g hg => h.length ▸ hinside g (h.handlers.mem_iff.1 hg), assigned,
    ⟨h.consistent hs.consistent, fun assigned' hc => hs.least assigned' (h.symm.consistent hc)⟩, ?_⟩
  have hleaves : ∀ index after, c'.Leaves assigned index after ↔ c.Leaves assigned index after :=
    fun index after => ⟨h.symm.leaves, h.leaves⟩
  simpa only [Deepest, hleaves] using hd

end Relisted

/-- Verification always comes to an end, whatever is followed first. It accepts a body exactly when
the body is not empty, its handlers lie inside and consistent stacks can be assigned to its
instructions; the depth is then that of the deepest stack left under the smallest assignment.
Neither depends on the order of the search or on how handlers and branch targets are listed. -/
theorem verify_accepts (c : LinkedCode) :
    (WellFounded fun m' m => StackMap.Turn c m (.ok m')) ∧
    (0 < c.length → c.HandlersInside → StackMap.Search c (.entry c.length) c.stackMap) ∧
    ((∃ depth, c.verify = .ok depth) ↔
      0 < c.length ∧ c.HandlersInside ∧ ∃ assigned, c.Consistent assigned) ∧
    (∀ depth, c.verify = .ok depth → ∃ assigned, c.Smallest assigned ∧ c.Deepest assigned depth) ∧
    (∀ answer depth, 0 < c.length → c.HandlersInside → StackMap.Search c (.entry c.length) answer →
      (answer.map (·.deepest) = .ok depth ↔ c.verify = .ok depth)) ∧
    ∀ c' depth, c.Relisted c' → (c'.verify = .ok depth ↔ c.verify = .ok depth) := by
  refine ⟨StackMap.wellFounded_turn c, search_stackMap, ⟨?_, ?_⟩, ?_, ?_, ?_⟩
  · rintro ⟨depth, hv⟩
    obtain ⟨hlength, hinside, assigned, hs, -⟩ := verify_eq_ok.1 hv
    exact ⟨hlength, hinside, assigned, hs.consistent⟩
  · rintro ⟨hlength, hinside, assigned, hc⟩
    obtain ⟨depth, ha⟩ := accepts_of_consistent hlength hinside hc
    exact ⟨depth, verify_eq_ok.2 ha⟩
  · exact fun depth hv => (verify_eq_ok.1 hv).smallest
  · exact fun answer depth hlength hinside h =>
      (accepts_of_search hlength hinside h).trans verify_eq_ok.symm
  · exact fun c' depth h =>
      verify_eq_ok.trans (Iff.trans ⟨h.symm.accepts, h.accepts⟩ verify_eq_ok.symm)

end LinkedCode

end ClassMachine
