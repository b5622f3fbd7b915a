import ClassMachine.Machine.Run
import ClassMachine.Proofs.Machine.FrameSteps
import Mathlib.Data.List.Basic

/-!
Instructions that rearrange operands. What they do is told in slots, which they move about whatever is in
them; a long or double takes two. Verification and execution have whole values before them and tell the forms
of an instruction apart by category. An instruction that passes verification never parts the halves of a
value, so the two accounts agree.
-/
namespace ClassMachine
open Stateful

/-- What is in a slot: a value, or a half of a long or double. -/
inductive Slot where
  | whole (v : Value)
  | high (v : Value)
  | low (v : Value)
  deriving DecidableEq, Repr

/-- Slots of a value, top first. -/
def Value.inSlots (v : Value) : List Slot :=
  match v.category with
  | .one => [.whole v]
  | .two => [.low v, .high v]

/-- Slots of an operand stack, top first. -/
def slotted (stack : List Value) : List Slot := stack.flatMap Value.inSlots

/-- Slots that values take. -/
def slotCount (values : List Value) : Nat := CategoryStack.depth (values.map Value.category)

theorem length_slotted (values : List Value) : (slotted values).length = slotCount values := by
  induction values with
  | nil => rfl
  | cons v values ih =>
    have hv : v.inSlots.length = v.category.slots := by
      unfold Value.inSlots
      cases v.category <;> rfl
    show (v.inSlots ++ slotted values).length = v.category.slots + slotCount values
    rw [List.length_append, hv, ih]

theorem slotted_append (values rest : List Value) :
    slotted (values ++ rest) = slotted values ++ slotted rest := List.flatMap_append

section Counts

variable {values : List Value}

theorem slotCount_cons (v : Value) : slotCount (v :: values) = v.category.slots + slotCount values := rfl

theorem slotCount_eq_zero : slotCount values = 0 ↔ values = [] := by
  refine ⟨fun h => ?_, fun h => h ▸ rfl⟩
  cases values with
  | nil => rfl
  | cons v values =>
    rw [slotCount_cons] at h
    have := v.category.slots_pos
    omega

theorem slotCount_eq_one : slotCount values = 1 ↔ ∃ v, values = [v] ∧ v.category = .one := by
  constructor
  · intro h
    cases values with
    | nil => cases h
    | cons v values =>
      rw [slotCount_cons] at h
      cases hv : v.category with
      | one =>
        have hnone : slotCount values = 0 := by simpa [hv, Category.slots] using h
        exact ⟨v, by rw [slotCount_eq_zero.1 hnone], hv⟩
      | two =>
        rw [hv, Category.slots] at h
        omega
  · rintro ⟨v, rfl, hv⟩
    rw [slotCount_cons, hv]
    rfl

/-- Two slots are those of one long or double, or of two other values. -/
theorem slotCount_eq_two : slotCount values = 2 ↔ (∃ v, values = [v] ∧ v.category = .two) ∨
    ∃ v w, values = [v, w] ∧ v.category = .one ∧ w.category = .one := by
  constructor
  · intro h
    cases values with
    | nil => cases h
    | cons v values =>
      rw [slotCount_cons] at h
      cases hv : v.category with
      | one =>
        rw [hv, Category.slots] at h
        have hone : slotCount values = 1 := by omega
        obtain ⟨w, rfl, hw⟩ := slotCount_eq_one.1 hone
        exact .inr ⟨v, w, rfl, hv, hw⟩
      | two =>
        have hnone : slotCount values = 0 := by simpa [hv, Category.slots] using h
        exact .inl ⟨v, by rw [slotCount_eq_zero.1 hnone], hv⟩
  · rintro (⟨v, rfl, hv⟩ | ⟨v, w, rfl, hv, hw⟩)
    · rw [slotCount_cons, hv]
      rfl
    · rw [slotCount_cons, slotCount_cons, hv, hw]
      rfl

end Counts

namespace CategoryStack

variable {index : Nat} {stack : List Value} {rest after : CategoryStack}

/-- An operand of the category asked for is on top. -/
theorem exists_of_pop {c : Category} (h : pop index c (stack.map Value.category) = .ok rest) :
    ∃ v s, stack = v :: s ∧ v.category = c ∧ rest = s.map Value.category := by
  cases stack with
  | nil => cases h
  | cons v s =>
    simp only [pop, List.map_cons] at h
    split at h
    · next hc => cases h; exact ⟨v, s, rfl, hc, rfl⟩
    · cases h

theorem exists_of_popAny {c : Category} (h : popAny index (stack.map Value.category) = .ok (c, rest)) :
    ∃ v s, stack = v :: s ∧ v.category = c ∧ rest = s.map Value.category := by
  cases stack with
  | nil => cases h
  | cons v s => cases h; exact ⟨v, s, rfl, rfl, rfl⟩

theorem exists_of_popAll_ones (h : popAll index [.one, .one] (stack.map Value.category) = .ok rest) :
    ∃ v w s, stack = v :: w :: s ∧ v.category = .one ∧ w.category = .one ∧ rest = s.map Value.category := by
  have hs := eq_append_of_popAll h
  obtain ⟨v, s₁, rfl, hv, hs₁⟩ := List.map_eq_cons_iff.1 hs
  obtain ⟨w, s₂, rfl, hw, rfl⟩ := List.map_eq_cons_iff.1 hs₁
  exact ⟨v, w, s₂, rfl, hv, hw, rfl⟩

/-- Where verification goes one way for a long or double and another for two other operands, the operands
take two slots either way. -/
theorem exists_of_two {wide narrow : CategoryStack → Except LinkError CategoryStack}
    (h : (do
      match ← popAny index (stack.map Value.category) with
      | (.two, rest) => wide rest
      | (.one, rest) => do
        let rest ← pop index .one rest
        narrow rest) = .ok after) :
    ∃ values s, stack = values ++ s ∧ slotCount values = 2 ∧
      (values.map Value.category = [.two] ∧ wide (s.map Value.category) = .ok after ∨
        values.map Value.category = [.one, .one] ∧ narrow (s.map Value.category) = .ok after) := by
  obtain ⟨⟨c, rest⟩, h₁, h₂⟩ := except_bind_ok.1 h
  obtain ⟨v, s, rfl, hv, rfl⟩ := exists_of_popAny h₁
  cases c with
  | two => exact ⟨[v], s, rfl, slotCount_eq_two.2 (.inl ⟨v, rfl, hv⟩), .inl ⟨by simp [hv], h₂⟩⟩
  | one =>
    obtain ⟨rest, h₃, h₄⟩ := except_bind_ok.1 h₂
    obtain ⟨w, s, rfl, hw, rfl⟩ := exists_of_pop h₃
    exact ⟨[v, w], s, rfl, slotCount_eq_two.2 (.inr ⟨v, w, rfl, hv, hw⟩), .inr ⟨by simp [hv, hw], h₄⟩⟩

end CategoryStack

namespace StackOp

/-- What an instruction makes of slots, top first, whatever is in them. It takes as many as it names. -/
def onSlots {σ : Type} : StackOp → List σ → Option (List σ)
  | .pop, _ :: s => some s
  | .pop2, _ :: _ :: s => some s
  | .dup, a :: s => some (a :: a :: s)
  | .dupX1, a :: b :: s => some (a :: b :: a :: s)
  | .dupX2, a :: b :: c :: s => some (a :: b :: c :: a :: s)
  | .dup2, a :: b :: s => some (a :: b :: a :: b :: s)
  | .dup2X1, a :: b :: c :: s => some (a :: b :: c :: a :: b :: s)
  | .dup2X2, a :: b :: c :: d :: s => some (a :: b :: c :: d :: a :: b :: s)
  | .swap, a :: b :: s => some (b :: a :: s)
  | _, _ => none

/-- How many slots an instruction copies, and how many of those below them the copy goes under. -/
inductive Copies : StackOp → Nat → Nat → Prop
  | dup : Copies .dup 1 0
  | dupX1 : Copies .dupX1 1 1
  | dupX2 : Copies .dupX2 1 2
  | dup2 : Copies .dup2 2 0
  | dup2X1 : Copies .dup2X1 2 1
  | dup2X2 : Copies .dup2X2 2 2

/-- The values that an instruction takes off the stack and those that it leaves for them, top first. The
slots it goes by are those of whole values. -/
inductive Form : StackOp → List Value → List Value → Prop
  | pop {values : List Value} (h : slotCount values = 1) : Form .pop values []
  | pop2 {values : List Value} (h : slotCount values = 2) : Form .pop2 values []
  | copy {op : StackOp} {n k : Nat} {upper lower : List Value} (hop : Copies op n k) (hupper : slotCount upper = n)
      (hlower : slotCount lower = k) : Form op (upper ++ lower) (upper ++ lower ++ upper)
  | swap {upper lower : List Value} (hupper : slotCount upper = 1) (hlower : slotCount lower = 1) :
      Form .swap (upper ++ lower) (lower ++ upper)

theorem Copies.onSlots {σ : Type} {op : StackOp} {n k : Nat} (h : Copies op n k) {upper lower : List σ}
    (hupper : upper.length = n) (hlower : lower.length = k) (rest : List σ) :
    op.onSlots (upper ++ lower ++ rest) = some (upper ++ lower ++ upper ++ rest) := by
  cases h with
  | dup =>
    obtain ⟨a, rfl⟩ := List.length_eq_one_iff.1 hupper
    rw [List.length_eq_zero_iff.1 hlower]
    rfl
  | dupX1 =>
    obtain ⟨a, rfl⟩ := List.length_eq_one_iff.1 hupper
    obtain ⟨b, rfl⟩ := List.length_eq_one_iff.1 hlower
    rfl
  | dupX2 =>
    obtain ⟨a, rfl⟩ := List.length_eq_one_iff.1 hupper
    obtain ⟨b, c, rfl⟩ := List.length_eq_two.1 hlower
    rfl
  | dup2 =>
    obtain ⟨a, b, rfl⟩ := List.length_eq_two.1 hupper
    rw [List.length_eq_zero_iff.1 hlower]
    rfl
  | dup2X1 =>
    obtain ⟨a, b, rfl⟩ := List.length_eq_two.1 hupper
    obtain ⟨c, rfl⟩ := List.length_eq_one_iff.1 hlower
    rfl
  | dup2X2 =>
    obtain ⟨a, b, rfl⟩ := List.length_eq_two.1 hupper
    obtain ⟨c, d, rfl⟩ := List.length_eq_two.1 hlower
    rfl

variable {op : StackOp} {taken left : List Value}

theorem Form.onSlots (h : Form op taken left) (rest : List Value) :
    op.onSlots (slotted (taken ++ rest)) = some (slotted (left ++ rest)) := by
  cases h with
  | pop hcount =>
    rw [← length_slotted] at hcount
    obtain ⟨a, ha⟩ := List.length_eq_one_iff.1 hcount
    rw [slotted_append, ha]
    rfl
  | pop2 hcount =>
    rw [← length_slotted] at hcount
    obtain ⟨a, b, hab⟩ := List.length_eq_two.1 hcount
    rw [slotted_append, hab]
    rfl
  | copy hop hupper hlower =>
    rw [← length_slotted] at hupper hlower
    simp only [slotted_append]
    exact hop.onSlots hupper hlower _
  | swap hupper hlower =>
    rw [← length_slotted] at hupper hlower
    obtain ⟨a, ha⟩ := List.length_eq_one_iff.1 hupper
    obtain ⟨b, hb⟩ := List.length_eq_one_iff.1 hlower
    simp only [slotted_append, ha, hb]
    rfl

open CategoryStack in
/-- What passes verification has a form, and leaves the categories of what the form leaves. -/
theorem exists_form {index : Nat} {stack : List Value} {after : CategoryStack}
    (h : op.simulate index (stack.map Value.category) = .ok after) :
    ∃ taken left rest, Form op taken left ∧ stack = taken ++ rest ∧
      after = (left ++ rest).map Value.category := by
  have one : ∀ {v : Value}, v.category = .one → slotCount [v] = 1 := fun hv => slotCount_eq_one.2 ⟨_, rfl, hv⟩
  have wide : ∀ {v : Value}, v.category = .two → slotCount [v] = 2 := fun hv =>
    slotCount_eq_two.2 (.inl ⟨_, rfl, hv⟩)
  have pair : ∀ {v w : Value}, v.category = .one → w.category = .one → slotCount [v, w] = 2 := fun hv hw =>
    slotCount_eq_two.2 (.inr ⟨_, _, rfl, hv, hw⟩)
  cases op with
  | pop =>
    obtain ⟨v, s, rfl, hv, rfl⟩ := exists_of_pop h
    exact ⟨[v], [], s, .pop (one hv), rfl, rfl⟩
  | pop2 =>
    obtain ⟨⟨c, rest⟩, h₁, h₂⟩ := except_bind_ok.1 h
    obtain ⟨v, s, rfl, hv, rfl⟩ := exists_of_popAny h₁
    cases c with
    | two =>
      cases h₂
      exact ⟨[v], [], s, .pop2 (wide hv), rfl, rfl⟩
    | one =>
      obtain ⟨w, s, rfl, hw, rfl⟩ := exists_of_pop h₂
      exact ⟨[v, w], [], s, .pop2 (pair hv hw), rfl, rfl⟩
  | dup =>
    obtain ⟨rest, h₁, h₂⟩ := except_bind_ok.1 h
    obtain ⟨v, s, rfl, hv, rfl⟩ := exists_of_pop h₁
    cases h₂
    exact ⟨[v] ++ [], _, s, .copy .dup (one hv) rfl, rfl, by simp [hv]⟩
  | dupX1 =>
    obtain ⟨rest, h₁, h₂⟩ := except_bind_ok.1 h
    obtain ⟨v, w, s, rfl, hv, hw, rfl⟩ := exists_of_popAll_ones h₁
    cases h₂
    exact ⟨[v] ++ [w], _, s, .copy .dupX1 (one hv) (one hw), rfl, by simp [hv, hw]⟩
  | dupX2 =>
    obtain ⟨rest, h₁, h₂⟩ := except_bind_ok.1 h
    obtain ⟨v, s, rfl, hv, rfl⟩ := exists_of_pop h₁
    obtain ⟨lower, s, rfl, hlower, ⟨hcs, h₃⟩ | ⟨hcs, h₃⟩⟩ := exists_of_two h₂
    all_goals
      cases h₃
      exact ⟨[v] ++ lower, _, s, .copy .dupX2 (one hv) hlower, rfl, by simp [hv, hcs]⟩
  | dup2 =>
    obtain ⟨upper, s, rfl, hupper, ⟨hcs, h₁⟩ | ⟨hcs, h₁⟩⟩ := exists_of_two h
    all_goals
      cases h₁
      exact ⟨upper ++ [], _, s, .copy .dup2 hupper rfl, by simp, by simp [hcs]⟩
  | dup2X1 =>
    obtain ⟨⟨c, rest⟩, h₁, h₂⟩ := except_bind_ok.1 h
    obtain ⟨v, s, rfl, hv, rfl⟩ := exists_of_popAny h₁
    cases c with
    | two =>
      obtain ⟨rest, h₃, h₄⟩ := except_bind_ok.1 h₂
      obtain ⟨w, s, rfl, hw, rfl⟩ := exists_of_pop h₃
      cases h₄
      exact ⟨[v] ++ [w], _, s, .copy .dup2X1 (wide hv) (one hw), rfl, by simp [hv, hw]⟩
    | one =>
      obtain ⟨rest, h₃, h₄⟩ := except_bind_ok.1 h₂
      obtain ⟨w, x, s, rfl, hw, hx, rfl⟩ := exists_of_popAll_ones h₃
      cases h₄
      exact ⟨[v, w] ++ [x], _, s, .copy .dup2X1 (pair hv hw) (one hx), rfl, by simp [hv, hw, hx]⟩
  | dup2X2 =>
    obtain ⟨upper, s, rfl, hupper, ⟨hcs, h₁⟩ | ⟨hcs, h₁⟩⟩ := exists_of_two h
    all_goals
      obtain ⟨lower, s, rfl, hlower, ⟨hcs', h₂⟩ | ⟨hcs', h₂⟩⟩ := exists_of_two h₁
      all_goals
        cases h₂
        exact ⟨upper ++ lower, _, s, .copy .dup2X2 hupper hlower, by simp, by simp [hcs, hcs']⟩
  | swap =>
    obtain ⟨rest, h₁, h₂⟩ := except_bind_ok.1 h
    obtain ⟨v, w, s, rfl, hv, hw, rfl⟩ := exists_of_popAll_ones h₁
    cases h₂
    exact ⟨[v] ++ [w], [w] ++ [v], s, .swap (one hv) (one hw), rfl, by simp [hv, hw]⟩

end StackOp

namespace Frame

variable {f : Frame} {op : StackOp} {taken left rest : List Value}

theorem bind_pop_mk {β : Type} {method : MethodId} {code : LinkedCode} {pc : Nat} {locals : Array Value}
    {v : Value} {s : List Value} {monitor : Option Ref} {k : Value → FrameM β} :
    (pop >>= k) ⟨method, code, pc, locals, v :: s, monitor⟩ =
      k v ⟨method, code, pc, locals, s, monitor⟩ := rfl

theorem rearrange_form (h : StackOp.Form op taken left) (hstack : f.stack = taken ++ rest) :
    rearrange op f = .ok () { f with stack := left ++ rest } := by
  obtain ⟨method, code, pc, locals, stack, monitor⟩ := f
  obtain rfl : stack = taken ++ rest := hstack
  cases h with
  | pop hcount =>
    obtain ⟨v, rfl, -⟩ := slotCount_eq_one.1 hcount
    rfl
  | pop2 hcount =>
    rcases slotCount_eq_two.1 hcount with ⟨v, rfl, hv⟩ | ⟨v, w, rfl, hv, -⟩
    all_goals
      simp only [rearrange, List.cons_append, List.nil_append, bind_pop_mk, hv]
      rfl
  | swap hupper hlower =>
    obtain ⟨v, rfl, -⟩ := slotCount_eq_one.1 hupper
    obtain ⟨w, rfl, -⟩ := slotCount_eq_one.1 hlower
    rfl
  | copy hop hupper hlower =>
    cases hop with
    | dup =>
      obtain ⟨v, rfl, -⟩ := slotCount_eq_one.1 hupper
      rw [slotCount_eq_zero.1 hlower]
      rfl
    | dupX1 =>
      obtain ⟨v, rfl, -⟩ := slotCount_eq_one.1 hupper
      obtain ⟨w, rfl, -⟩ := slotCount_eq_one.1 hlower
      rfl
    | dupX2 =>
      obtain ⟨v, rfl, -⟩ := slotCount_eq_one.1 hupper
      rcases slotCount_eq_two.1 hlower with ⟨w, rfl, hw⟩ | ⟨w, x, rfl, hw, -⟩
      all_goals
        simp only [rearrange, List.cons_append, List.nil_append, bind_pop_mk, hw]
        rfl
    | dup2 =>
      rw [slotCount_eq_zero.1 hlower]
      rcases slotCount_eq_two.1 hupper with ⟨v, rfl, hv⟩ | ⟨v, w, rfl, hv, -⟩
      all_goals
        simp only [rearrange, List.cons_append, List.nil_append, bind_pop_mk, hv]
        rfl
    | dup2X1 =>
      obtain ⟨x, rfl, -⟩ := slotCount_eq_one.1 hlower
      rcases slotCount_eq_two.1 hupper with ⟨v, rfl, hv⟩ | ⟨v, w, rfl, hv, -⟩
      all_goals
        simp only [rearrange, List.cons_append, List.nil_append, bind_pop_mk, hv]
        rfl
    | dup2X2 =>
      rcases slotCount_eq_two.1 hupper with ⟨v, rfl, hv⟩ | ⟨v, w, rfl, hv, -⟩
      all_goals
        rcases slotCount_eq_two.1 hlower with ⟨x, rfl, hx⟩ | ⟨x, y, rfl, hx, -⟩
        all_goals
          simp only [rearrange, List.cons_append, List.nil_append, bind_pop_mk, hv, hx]
          rfl

/-- Rearranging operands goes as it went for their categories. -/
theorem rearrange_ends {index : Nat} {after : CategoryStack} (h : op.simulate index f.categories = .ok after) :
    ∃ s, rearrange op f = .ok () { f with stack := s } ∧ s.map Value.category = after := by
  obtain ⟨taken, left, rest, hform, hstack, rfl⟩ := StackOp.exists_form h
  exact ⟨left ++ rest, rearrange_form hform hstack, rfl⟩

end Frame

namespace Machine

variable {m : Machine} {f : Frame} {frames : FrameStack} {op : StackOp} {maxLocals index : Nat}
  {after : CategoryStack}

/-- Where an instruction that rearranges operands passes verification, executing it does to their slots what
the instruction does to any slots, and goes on with the next one. What it leaves has the categories that
verification came to. -/
theorem executeOne_onSlots (hactive : m.active = f :: frames) (hi : f.code.get? f.pc = some (.stack op))
    (hverified : (Instruction.stack op).simulate maxLocals index f.categories = .ok after)
    (k : Nested) (t : ThreadId) :
    ∃ s, executeOne k t m = .ok .next { m with active := { f with pc := f.pc + 1, stack := s } :: frames } ∧
      op.onSlots (slotted f.stack) = some (slotted s) ∧ s.map Value.category = after := by
  have hsimulated : op.simulate index (f.stack.map Value.category) = .ok after := hverified
  obtain ⟨taken, left, rest, hform, hstack, hafter⟩ := StackOp.exists_form hsimulated
  refine ⟨left ++ rest, ?_, by rw [hstack]; exact hform.onSlots rest, hafter.symm⟩
  have hmoved : Frame.rearrange op { f with pc := f.pc + 1 } =
      .ok () { f with pc := f.pc + 1, stack := left ++ rest } := Frame.rearrange_form hform hstack
  rw [executeOne_at hactive hi]
  show frameStep (Frame.rearrange op) _ = _
  unfold frameStep
  rw [bind_of_ok (onTop_ok rfl hmoved)]
  rfl

/-- Two ints above a long are about to be copied under it. -/
def copying : Frame :=
  { Frame.ofCall ⟨0, 0⟩ { instructions := #[.stack .dup2X2] } [] with stack := [.int 2, .int 1, .long 7] }

theorem executeOne_onSlots_copying :
    copying.code.get? copying.pc = some (.stack .dup2X2) ∧
    (Instruction.stack .dup2X2).simulate 0 0 copying.categories = .ok [.one, .one, .two, .one, .one] ∧
    ∃ s, executeOne (nested 5) 1 { (default : Machine) with active := [copying] } =
        .ok .next { (default : Machine) with active := [{ copying with pc := 1, stack := s }] } ∧
      slotted s = [.whole (.int 2), .whole (.int 1), .low (.long 7), .high (.long 7), .whole (.int 2),
        .whole (.int 1)] := by
  have hi : copying.code.get? copying.pc = some (.stack .dup2X2) := by decide
  have hverified : (Instruction.stack .dup2X2).simulate 0 0 copying.categories =
      .ok [.one, .one, .two, .one, .one] := by decide
  obtain ⟨s, hrun, hslots, -⟩ := executeOne_onSlots (m := { (default : Machine) with active := [copying] }) rfl hi
    hverified (nested 5) 1
  exact ⟨hi, hverified, s, hrun, (Option.some.inj hslots).symm⟩

end Machine

end ClassMachine
