import ClassMachine.Bytecode.Verifier
import ClassMachine.Proofs.Stateful

/-!
What verification has established about a body: every instruction it reached leads, along every
edge out of it, to instructions recorded with the stack the edge brings.
-/
namespace ClassMachine
open Stateful

namespace StackMap

/-- Stack recorded before an instruction. -/
def stackAt (m : StackMap) (index : Nat) : Option CategoryStack := m.recorded[index]?.join

/-- Later knowledge: nothing recorded is lost, and what is new is still to be followed. -/
structure Extends (m m' : StackMap) : Prop where
  size : m'.recorded.size = m.recorded.size
  kept : ∀ index stack, m.stackAt index = some stack → m'.stackAt index = some stack
  fresh : ∀ index stack, m'.stackAt index = some stack →
    m.stackAt index = some stack ∨ index ∈ m'.work
  work : ∀ index ∈ m.work, index ∈ m'.work

theorem Extends.refl (m : StackMap) : m.Extends m :=
  ⟨rfl, fun _ _ h => h, fun _ _ h => .inl h, fun _ h => h⟩

theorem Extends.trans {m m' m'' : StackMap} (h : m.Extends m') (h' : m'.Extends m'') :
    m.Extends m'' := by
  refine ⟨h'.size.trans h.size, fun index stack hs => h'.kept _ _ (h.kept _ _ hs),
    fun index stack hs => ?_, fun index hi => h'.work _ (h.work _ hi)⟩
  rcases h'.fresh index stack hs with hs' | hw
  · rcases h.fresh index stack hs' with hs'' | hw
    · exact .inl hs''
    · exact .inr (h'.work index hw)
  · exact .inr hw

theorem Extends.of_deepest (m : StackMap) (n : Nat) : m.Extends { m with deepest := n } :=
  ⟨rfl, fun _ _ h => h, fun _ _ h => .inl h, fun _ h => h⟩

theorem merge_extends {m m' : StackMap} {target : Nat} {incoming : CategoryStack}
    (h : m.merge target incoming = .ok m') :
    m.Extends m' ∧ (target < m.recorded.size → m'.stackAt target = some incoming) := by
  unfold merge at h
  cases hr : m.recorded[target]? with
  | none =>
    rw [hr] at h
    cases h
    refine ⟨.refl m, fun hlt => ?_⟩
    rw [Array.getElem?_eq_none_iff] at hr
    omega
  | some known =>
    rw [hr] at h
    have hlt : target < m.recorded.size := by
      rw [Array.getElem?_eq_some_iff] at hr
      exact hr.1
    cases known with
    | none =>
      cases h
      have hset : ∀ index, ({ m with
          recorded := m.recorded.setIfInBounds target (some incoming),
          work := m.work ++ [target] } : StackMap).stackAt index =
            if target = index then some incoming else m.stackAt index := by
        intro index
        simp only [stackAt, Array.getElem?_setIfInBounds]
        split
        · next he => subst he; simp
        · rfl
      refine ⟨⟨by simp, fun index stack hs => ?_, fun index stack hs => ?_, fun index hi => ?_⟩,
        fun _ => ?_⟩
      · rw [hset, if_neg]
        · exact hs
        · intro he
          subst he
          simp [stackAt, hr] at hs
      · rw [hset] at hs
        split at hs
        · next he => exact .inr (by simp [he])
        · exact .inl hs
      · exact List.mem_append_left _ hi
      · rw [hset, if_pos rfl]
    | some existing =>
      dsimp only at h
      split at h
      · next he =>
        cases h
        exact ⟨.refl m, fun _ => by simp [stackAt, hr, he]⟩
      · cases h

/-- A chain of steps that each extend what is known extends it. -/
theorem foldlM_extends {α : Type} {step : StackMap → α → Except LinkError StackMap}
    (hstep : ∀ m m' a, step m a = .ok m' → m.Extends m') {as : List α} {m m' : StackMap}
    (h : as.foldlM step m = .ok m') :
    m.Extends m' ∧ ∀ a ∈ as, ∃ m₁ m₂, step m₁ a = .ok m₂ ∧ m.Extends m₁ ∧ m₂.Extends m' := by
  induction as generalizing m with
  | nil =>
    cases h
    exact ⟨.refl _, fun a ha => by cases ha⟩
  | cons b bs ih =>
    rw [List.foldlM_cons] at h
    cases hb : step m b with
    | error e => rw [hb] at h; cases h
    | ok m₁ =>
      rw [hb] at h
      obtain ⟨hrest, hall⟩ := ih h
      have hfirst := hstep m m₁ b hb
      refine ⟨hfirst.trans hrest, fun a ha => ?_⟩
      rcases List.mem_cons.1 ha with rfl | ha
      · exact ⟨m, m₁, hb, .refl m, hrest⟩
      · obtain ⟨m₂, m₃, hs, hbefore, hafter⟩ := hall a ha
        exact ⟨m₂, m₃, hs, hfirst.trans hbefore, hafter⟩

/-- Every edge out of the instruction at `index` has been followed. -/
structure Followed (code : LinkedCode) (m : StackMap) (index : Nat) (i : Instruction)
    (before after : CategoryStack) : Prop where
  simulated : i.simulate code.maxLocals index before = .ok after
  fits : after.depth ≤ code.maxStack
  branches : ∀ target ∈ i.branchTargets, m.stackAt target = some after
  falls : i.isTerminator = false → m.stackAt (index + 1) = some after
  handlers : ∀ h ∈ code.handlers, h.covers index = true → m.stackAt h.target = some [.one]

theorem Followed.mono {code : LinkedCode} {m m' : StackMap} {index : Nat} {i : Instruction}
    {before after : CategoryStack} (h : Followed code m index i before after) (he : m.Extends m') :
    Followed code m' index i before after :=
  ⟨h.simulated, h.fits, fun t ht => he.kept _ _ (h.branches t ht),
    fun ht => he.kept _ _ (h.falls ht), fun g hg hc => he.kept _ _ (h.handlers g hg hc)⟩

/-- Which instructions are still listed does not matter to the edges followed. -/
theorem Followed.congr {code : LinkedCode} {m m' : StackMap} {index : Nat} {i : Instruction}
    {before after : CategoryStack} (h : Followed code m index i before after)
    (hr : m'.recorded = m.recorded) : Followed code m' index i before after := by
  have hat : ∀ j, m'.stackAt j = m.stackAt j := fun j => by rw [stackAt, stackAt, hr]
  exact ⟨h.simulated, h.fits, fun t ht => (hat t).trans (h.branches t ht),
    fun ht => (hat _).trans (h.falls ht), fun g hg hc => (hat _).trans (h.handlers g hg hc)⟩

theorem mergeHandlers_extends {m m' : StackMap} {index : Nat} {handlers : List Handler}
    (h : m.mergeHandlers index handlers = .ok m') :
    m.Extends m' ∧ ∀ g ∈ handlers, g.covers index = true → g.target < m.recorded.size →
      m'.stackAt g.target = some [.one] := by
  have hstep : ∀ (m₁ m₂ : StackMap) (g : Handler),
      (if g.covers index then m₁.merge g.target [.one] else .ok m₁) = .ok m₂ → m₁.Extends m₂ := by
    intro m₁ m₂ g hg
    split at hg
    · exact (merge_extends hg).1
    · cases hg
      exact .refl _
  obtain ⟨hext, hall⟩ := foldlM_extends hstep h
  refine ⟨hext, fun g hg hcov hlt => ?_⟩
  obtain ⟨m₁, m₂, hs, hbefore, hafter⟩ := hall g hg
  rw [if_pos hcov] at hs
  exact hafter.kept _ _ ((merge_extends hs).2 (by rw [hbefore.size]; exact hlt))

theorem mergeBranches_extends {m m' : StackMap} {length index : Nat} {after : CategoryStack}
    {targets : List Nat} (hsize : m.recorded.size = length)
    (h : targets.foldlM (fun m t => m.mergeBranch length index after t) m = .ok m') :
    m.Extends m' ∧ ∀ t ∈ targets, m'.stackAt t = some after := by
  have hstep : ∀ (m₁ m₂ : StackMap) (t : Nat),
      m₁.mergeBranch length index after t = .ok m₂ → m₁.Extends m₂ := by
    intro m₁ m₂ t ht
    unfold mergeBranch at ht
    split at ht
    · cases ht
    · exact (merge_extends ht).1
  obtain ⟨hext, hall⟩ := foldlM_extends hstep h
  refine ⟨hext, fun t ht => ?_⟩
  obtain ⟨m₁, m₂, hs, hbefore, hafter⟩ := hall t ht
  unfold mergeBranch at hs
  split at hs
  · cases hs
  · next hlt =>
    refine hafter.kept _ _ ((merge_extends hs).2 ?_)
    rw [hbefore.size, hsize]
    omega

/-- `follow` with handlers and branch targets taken in the order given. -/
def followIn (code : LinkedCode) (handlers : List Handler) (targets : List Nat) (m : StackMap)
    (index : Nat) (i : Instruction) (before : CategoryStack) : Except LinkError StackMap := do
  let m ← m.mergeHandlers index handlers
  let after ← i.simulate code.maxLocals index before
  if code.maxStack < after.depth then throw (.stackOverflow index code.maxStack)
  let m := { m with deepest := max m.deepest after.depth }
  let m ← targets.foldlM (fun m t => m.mergeBranch code.length index after t) m
  if i.isTerminator then return m
  else if code.length ≤ index + 1 then throw .fallsOffEnd
  else m.merge (index + 1) after

theorem follow_eq_followIn (code : LinkedCode) (m : StackMap) (index : Nat) (i : Instruction)
    (before : CategoryStack) :
    m.follow code index i before =
      followIn code code.handlers i.branchTargets m index i before := rfl

/-- The stages an instruction goes through when its edges are followed without an error. -/
theorem followIn_ok {code : LinkedCode} {handlers : List Handler} {targets : List Nat}
    {m m' : StackMap} {index : Nat} {i : Instruction} {before : CategoryStack} :
    followIn code handlers targets m index i before = .ok m' ↔
      ∃ m₁ after m₂, m.mergeHandlers index handlers = .ok m₁ ∧
        i.simulate code.maxLocals index before = .ok after ∧ after.depth ≤ code.maxStack ∧
        targets.foldlM (fun m t => m.mergeBranch code.length index after t)
          { m₁ with deepest := max m₁.deepest after.depth } = .ok m₂ ∧
        if i.isTerminator then m₂ = m'
        else index + 1 < code.length ∧ m₂.merge (index + 1) after = .ok m' := by
  have hlast : ∀ m₂ after, (if i.isTerminator then (return m₂ : Except LinkError StackMap)
      else if code.length ≤ index + 1 then throw .fallsOffEnd
      else m₂.merge (index + 1) after) = .ok m' ↔
      if i.isTerminator then m₂ = m'
      else index + 1 < code.length ∧ m₂.merge (index + 1) after = .ok m' := by
    intro m₂ after
    split
    · simp [pure, Except.pure]
    · split
      · simp; omega
      · simp; omega
  unfold followIn
  simp only [except_bind_ok]
  constructor
  · rintro ⟨m₁, h₁, after, hs, h⟩
    split at h
    · simp [except_bind_ok] at h
    · next hfit =>
      simp only [except_bind_ok] at h
      obtain ⟨m₂, h₂, h⟩ := h
      exact ⟨m₁, after, m₂, h₁, hs, by omega, h₂, (hlast m₂ after).1 h⟩
  · rintro ⟨m₁, after, m₂, h₁, hs, hfit, h₂, h⟩
    refine ⟨m₁, h₁, after, hs, ?_⟩
    rw [if_neg (by omega)]
    simp only [except_bind_ok]
    exact ⟨m₂, h₂, (hlast m₂ after).2 h⟩

theorem followIn_extends {code : LinkedCode} {handlers : List Handler} {targets : List Nat}
    {m m' : StackMap} {index : Nat} {i : Instruction} {before : CategoryStack}
    (hsize : m.recorded.size = code.length)
    (hinside : ∀ h ∈ code.handlers, h.target < code.length)
    (hhandlers : ∀ h ∈ code.handlers, h ∈ handlers) (htargets : ∀ t ∈ i.branchTargets, t ∈ targets)
    (h : followIn code handlers targets m index i before = .ok m') :
    m.Extends m' ∧ ∃ after, Followed code m' index i before after := by
  obtain ⟨m₁, after, m₂, hh, hsim, hfit, hb, hlast⟩ := followIn_ok.1 h
  obtain ⟨he₁, hentered⟩ := mergeHandlers_extends hh
  have he₂ := Extends.of_deepest m₁ (max m₁.deepest after.depth)
  have hsize₂ := (he₂.size.trans he₁.size).trans hsize
  obtain ⟨he₃, hbranches⟩ := mergeBranches_extends hsize₂ hb
  have hfall : m₂.Extends m' ∧ (i.isTerminator = false → m'.stackAt (index + 1) = some after) := by
    split at hlast
    · next hterm =>
      subst hlast
      exact ⟨.refl _, fun hf => by rw [hterm] at hf; cases hf⟩
    · obtain ⟨he₄, hrec⟩ := merge_extends hlast.2
      refine ⟨he₄, fun _ => hrec ?_⟩
      rw [he₃.size, hsize₂]
      exact hlast.1
  refine ⟨he₁.trans (he₂.trans (he₃.trans hfall.1)), after, hsim, hfit,
    fun t ht => hfall.1.kept _ _ (hbranches t (htargets t ht)), hfall.2, fun g hg hcov => ?_⟩
  refine (he₂.trans (he₃.trans hfall.1)).kept _ _ (hentered g (hhandlers g hg) hcov ?_)
  rw [hsize]
  exact hinside g hg

/-- What holds while reached instructions are followed: all of them have been, but those still
listed. -/
structure Saturating (code : LinkedCode) (m : StackMap) : Prop where
  size : m.recorded.size = code.length
  start : m.stackAt 0 = some []
  followed : ∀ index before, m.stackAt index = some before → index ∈ m.work ∨
    ∃ i after, code.get? index = some i ∧ Followed code m index i before after

theorem saturating_entry {code : LinkedCode} (h : 0 < code.length) :
    Saturating code (entry code.length) := by
  have hset : ∀ index, (entry code.length).stackAt index = if index = 0 then some [] else none := by
    intro index
    simp only [entry, stackAt, Array.getElem?_setIfInBounds, Array.size_replicate]
    by_cases h0 : index = 0
    · subst h0
      simp [h]
    · rw [if_neg (fun he => h0 he.symm), if_neg h0, Array.getElem?_replicate]
      split <;> rfl
  refine ⟨by simp [entry], by simp [hset], fun index before hs => .inl ?_⟩
  rw [hset] at hs
  split at hs
  · next h0 => simp [entry, h0]
  · cases hs

/-- One reached instruction is followed. -/
theorem Saturating.step {code : LinkedCode} {handlers : List Handler} {targets : List Nat}
    {m m' : StackMap} (h : Saturating code m)
    (hinside : ∀ h ∈ code.handlers, h.target < code.length) {index : Nat} {work : List Nat}
    (hw : ∀ j ∈ m.work, j = index ∨ j ∈ work) {before : CategoryStack} {i : Instruction}
    (hb : m.stackAt index = some before) (hi : code.get? index = some i)
    (hhandlers : ∀ h ∈ code.handlers, h ∈ handlers) (htargets : ∀ t ∈ i.branchTargets, t ∈ targets)
    (hf : followIn code handlers targets { m with work := work } index i before = .ok m') :
    Saturating code m' := by
  obtain ⟨hext, after, hfollowed⟩ :=
    followIn_extends (m := { m with work := work }) h.size hinside hhandlers htargets hf
  refine ⟨hext.size.trans h.size, hext.kept _ _ h.start, fun j stack hj => ?_⟩
  rcases hext.fresh j stack hj with hold | hnew
  · rcases h.followed j stack hold with hwork | ⟨i', after', hi', hfol⟩
    · rcases hw j hwork with rfl | hrest
      · have : before = stack := Option.some.inj (hb.symm.trans hold)
        exact .inr ⟨i, after, hi, this ▸ hfollowed⟩
      · exact .inl (hext.work j hrest)
    · have hfol' : Followed code { m with work := work } j i' stack after' := hfol.congr rfl
      exact .inr ⟨i', after', hi', hfol'.mono hext⟩
  · exact .inl hnew

/-- What a whole run of following establishes. -/
theorem saturate_followed {code : LinkedCode} (htargets : ∀ h ∈ code.handlers, h.target < code.length)
    {fuel : Nat} {m m' : StackMap} (h : Saturating code m) (hs : saturate code fuel m = .ok m') :
    Saturating code m' ∧ m'.work = [] := by
  induction fuel generalizing m with
  | zero =>
    unfold saturate at hs
    cases hw : m.work with
    | nil =>
      rw [hw] at hs
      cases hs
      exact ⟨h, hw⟩
    | cons index work => rw [hw] at hs; cases hs
  | succ fuel ih =>
    unfold saturate at hs
    cases hw : m.work with
    | nil =>
      rw [hw] at hs
      cases hs
      exact ⟨h, hw⟩
    | cons index work =>
      simp only [hw] at hs
      split at hs
      · next before i hb hi =>
        split at hs
        · next m₁ hf =>
          exact ih (h.step htargets (by simp [hw]) (by simp [stackAt, hb]) hi (fun _ h => h)
            (fun _ h => h) hf) hs
        · cases hs
      · -- the instruction is not there, so it was not reached either
        next hnone =>
        refine ih (m := { m with work := work }) ⟨h.size, h.start, fun j stack hj => ?_⟩ hs
        rcases h.followed j stack hj with hwork | ⟨i, after, hi, hfol⟩
        · rw [hw] at hwork
          rcases List.mem_cons.1 hwork with rfl | hrest
          · have hrec : m.recorded[j]? = some (some stack) := by
              unfold stackAt at hj
              cases hr : m.recorded[j]? with
              | none => rw [hr] at hj; cases hj
              | some known => rw [hr] at hj; exact congrArg some hj
            have hlt : j < code.length := by
              rw [← h.size]
              exact (Array.getElem?_eq_some_iff.1 hrec).1
            obtain ⟨i, hi⟩ := Option.isSome_iff_exists.1 ((code.get?_isSome_iff j).2 hlt)
            exact absurd hi (hnone stack i hrec)
          · exact .inl hrest
        · exact .inr ⟨i, after, hi, hfol.congr rfl⟩

end StackMap

namespace LinkedCode

theorem checkHandlers_targets {c : LinkedCode} {handlers : List Handler}
    (h : c.checkHandlers handlers = .ok ()) : ∀ g ∈ handlers, g.target < c.length := by
  induction handlers with
  | nil => intro g hg; cases hg
  | cons first rest ih =>
    unfold checkHandlers at h
    split at h
    · cases h
    · next hok =>
      intro g hg
      rcases List.mem_cons.1 hg with rfl | hg
      · omega
      · exact ih h g hg

/-- Stack verification has recorded before an instruction of a body it accepted. -/
def recordedAt (c : LinkedCode) (index : Nat) : Option CategoryStack :=
  match c.stackMap with
  | .ok m => m.stackAt index
  | .error _ => none

/-- Where control can go from an instruction, with the stacks recorded there. -/
structure Edges (c : LinkedCode) (index : Nat) (i : Instruction) (before after : CategoryStack) :
    Prop where
  simulated : i.simulate c.maxLocals index before = .ok after
  fits : after.depth ≤ c.maxStack
  branches : ∀ target ∈ i.branchTargets, c.recordedAt target = some after
  falls : i.isTerminator = false → c.recordedAt (index + 1) = some after
  handlers : ∀ h ∈ c.handlers, h.covers index = true → c.recordedAt h.target = some [.one]

theorem stackMap_saturated {c : LinkedCode} {m : StackMap} (h : c.stackMap = .ok m) :
    StackMap.Saturating c m ∧ m.work = [] := by
  unfold stackMap at h
  simp only [bind, Except.bind] at h
  split at h
  · cases h
  · next hlen =>
    cases hc : c.checkHandlers c.handlers with
    | error e => rw [hc] at h; cases h
    | ok u =>
      rw [hc] at h
      exact StackMap.saturate_followed (checkHandlers_targets hc)
        (StackMap.saturating_entry (by omega)) h

/-- A recorded instruction is there, and every edge out of it leads to a recorded one. -/
theorem exists_edges_of_recordedAt {c : LinkedCode} {index : Nat} {before : CategoryStack}
    (h : c.recordedAt index = some before) :
    ∃ i after, c.get? index = some i ∧ c.Edges index i before after := by
  unfold recordedAt at h
  cases hm : c.stackMap with
  | error e => rw [hm] at h; cases h
  | ok m =>
    rw [hm] at h
    have hrec : ∀ j, c.recordedAt j = m.stackAt j := fun j => by rw [recordedAt, hm]
    obtain ⟨hsat, hwork⟩ := stackMap_saturated hm
    rcases hsat.followed index before h with hw | ⟨i, after, hi, hf⟩
    · rw [hwork] at hw
      cases hw
    · exact ⟨i, after, hi, hf.simulated, hf.fits, fun t ht => (hrec t).trans (hf.branches t ht),
        fun ht => (hrec _).trans (hf.falls ht), fun g hg hc => (hrec _).trans (hf.handlers g hg hc)⟩

/-- Recorded instructions lie inside the body. -/
theorem lt_length_of_recordedAt {c : LinkedCode} {index : Nat} {before : CategoryStack}
    (h : c.recordedAt index = some before) : index < c.length := by
  obtain ⟨i, after, hi, _⟩ := exists_edges_of_recordedAt h
  exact (c.get?_isSome_iff index).1 (by rw [hi]; rfl)

/-- The first instruction of a body that was accepted is recorded with nothing on the stack. -/
theorem recordedAt_zero {c : LinkedCode} {depth : Nat} (h : c.verify = .ok depth) :
    c.recordedAt 0 = some [] := by
  unfold verify at h
  cases hm : c.stackMap with
  | error e => rw [hm] at h; cases h
  | ok m =>
    rw [recordedAt, hm]
    exact (stackMap_saturated hm).1.start

end LinkedCode

end ClassMachine
