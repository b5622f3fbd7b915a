import ClassMachine.Proofs.Stateful
import Mathlib.Data.List.Forall2

/-!
Lists that correspond to each other member by member, and what traversals make of them.
-/
namespace ClassMachine.Lists
open Stateful

variable {ε α β γ : Type}

/-- What a traversal returns, member by member. -/
theorem mapM_ok {f : α → Except ε β} {xs : List α} {ys : List β} :
    xs.mapM f = .ok ys ↔ List.Forall₂ (fun x y => f x = .ok y) xs ys := by
  induction xs generalizing ys with
  | nil => cases ys <;> simp [pure, Except.pure]
  | cons x xs ih =>
    rw [List.mapM_cons, except_bind_ok]
    constructor
    · rintro ⟨y, hy, hrest⟩
      obtain ⟨ys', hys', heq⟩ := except_bind_ok.1 hrest
      cases heq
      exact .cons hy (ih.1 hys')
    · intro h
      cases h with
      | cons hy hys => exact ⟨_, hy, except_bind_ok.2 ⟨_, ih.2 hys, rfl⟩⟩

theorem forall₂_imp_mem {R S : α → β → Prop} {xs : List α} {ys : List β} (h : List.Forall₂ R xs ys)
    (hS : ∀ x y, x ∈ xs → y ∈ ys → R x y → S x y) : List.Forall₂ S xs ys := by
  induction h with
  | nil => exact .nil
  | cons hxy _ ih =>
    exact .cons (hS _ _ (by simp) (by simp) hxy) (ih fun x y hx hy => hS x y (by simp [hx]) (by simp [hy]))

/-- A traversal whose steps succeed succeeds. -/
theorem exists_mapM {R : α → β → Prop} {P : α → γ → Prop} {f : β → Except ε γ} {xs : List α}
    {ys : List β} (h : List.Forall₂ R xs ys)
    (hf : ∀ x y, x ∈ xs → R x y → ∃ z, f y = .ok z ∧ P x z) :
    ∃ zs, ys.mapM f = .ok zs ∧ List.Forall₂ P xs zs := by
  induction h with
  | nil => exact ⟨[], rfl, .nil⟩
  | @cons x y xs ys hxy _ ih =>
    obtain ⟨z, hz, hP⟩ := hf x y (by simp) hxy
    obtain ⟨zs, hzs, hPs⟩ := ih fun x y hx => hf x y (by simp [hx])
    refine ⟨z :: zs, ?_, .cons hP hPs⟩
    rw [List.mapM_cons, except_bind_of_ok hz, except_bind_of_ok hzs]
    rfl

theorem getElem?_of_forall₂ {R : α → β → Prop} {xs : List α} {ys : List β} (h : List.Forall₂ R xs ys)
    {i : Nat} {x : α} (hx : xs[i]? = some x) : ∃ y, ys[i]? = some y ∧ R x y := by
  induction h generalizing i with
  | nil => simp at hx
  | @cons x' y' xs ys hxy _ ih =>
    cases i with
    | zero =>
      simp only [List.getElem?_cons_zero, Option.some.injEq] at hx
      exact ⟨y', by simp, hx ▸ hxy⟩
    | succ i => simpa using ih (by simpa using hx)

theorem exists_forall₂ {R : α → β → Prop} {xs : List α} (h : ∀ x ∈ xs, ∃ y, R x y) :
    ∃ ys, List.Forall₂ R xs ys := by
  induction xs with
  | nil => exact ⟨[], .nil⟩
  | cons x xs ih =>
    obtain ⟨y, hy⟩ := h x (by simp)
    obtain ⟨ys, hys⟩ := ih fun x' hx' => h x' (by simp [hx'])
    exact ⟨y :: ys, .cons hy hys⟩

/-- Two steps taken for every member are two lists taken one after the other. -/
theorem forall₂_through {R : α → β → Prop} {S : β → γ → Prop} {xs : List α} {zs : List γ}
    (h : List.Forall₂ (fun x z => ∃ y, R x y ∧ S y z) xs zs) :
    ∃ ys, List.Forall₂ R xs ys ∧ List.Forall₂ S ys zs := by
  induction h with
  | nil => exact ⟨[], .nil, .nil⟩
  | cons hxz _ ih =>
    obtain ⟨y, hxy, hyz⟩ := hxz
    obtain ⟨ys, hxs, hzs⟩ := ih
    exact ⟨y :: ys, .cons hxy hxs, .cons hyz hzs⟩

theorem exists_left {R : α → β → Prop} {xs : List α} {ys : List β} (h : List.Forall₂ R xs ys) {y : β}
    (hy : y ∈ ys) : ∃ x ∈ xs, R x y := by
  induction h with
  | nil => cases hy
  | @cons x y' xs ys hxy _ ih =>
    rcases List.mem_cons.1 hy with rfl | hy
    · exact ⟨x, by simp, hxy⟩
    · obtain ⟨x', hx', hxy'⟩ := ih hy
      exact ⟨x', by simp [hx'], hxy'⟩

theorem exists_right {R : α → β → Prop} {xs : List α} {ys : List β} (h : List.Forall₂ R xs ys) {x : α}
    (hx : x ∈ xs) : ∃ y ∈ ys, R x y := exists_left h.flip hx

/-- An order of the one list is an order of the other. -/
theorem pairwise_of_forall₂ {R : α → β → Prop} {S : α → α → Prop} {S' : β → β → Prop} {xs : List α}
    {ys : List β} (h : List.Forall₂ R xs ys) (hxs : xs.Pairwise S)
    (hS : ∀ {x x' y y'}, x ∈ xs → x' ∈ xs → R x y → R x' y' → S x x' → S' y y') : ys.Pairwise S' := by
  induction h with
  | nil => exact .nil
  | @cons x y xs ys hxy hrest ih =>
    obtain ⟨hfirst, hxs⟩ := List.pairwise_cons.1 hxs
    refine .cons (fun y' hy' => ?_) (ih hxs fun hx hx' => hS (by simp [hx]) (by simp [hx']))
    obtain ⟨x', hx', hxy'⟩ := exists_left hrest hy'
    exact hS (by simp) (by simp [hx']) hxy hxy' (hfirst x' hx')

/-- A traversal of members that come to the same comes to the same. -/
theorem mapM_congr {R : α → β → Prop} {f : α → Except ε γ} {g : β → Except ε γ} {xs : List α}
    {ys : List β} (h : List.Forall₂ R xs ys) (hfg : ∀ x y, R x y → f x = g y) :
    xs.mapM f = ys.mapM g := by
  induction h with
  | nil => rfl
  | cons hxy _ ih => rw [List.mapM_cons, List.mapM_cons, hfg _ _ hxy, ih]

theorem forM_ok {f : α → Except ε Unit} {xs : List α} (h : ∀ x ∈ xs, f x = .ok ()) :
    xs.forM f = .ok () := by
  induction xs with
  | nil => rfl
  | cons x xs ih =>
    have hrest := ih fun y hy => h y (by simp [hy])
    exact (except_bind_of_ok (h x (by simp))).trans hrest

theorem forM_cons {f : α → Except ε Unit} {x : α} {xs : List α} :
    (x :: xs).forM f = f x >>= fun _ => xs.forM f := rfl

theorem forM_append {f : α → Except ε Unit} {xs ys : List α} :
    (xs ++ ys).forM f = xs.forM f >>= fun _ => ys.forM f := by
  induction xs with
  | nil => rfl
  | cons x xs ih => rw [List.cons_append, forM_cons, forM_cons, ih, bind_assoc]

theorem forM_eq_ok {f : α → Except ε Unit} {xs : List α} : xs.forM f = .ok () ↔ ∀ x ∈ xs, f x = .ok () := by
  refine ⟨fun h => ?_, forM_ok⟩
  induction xs with
  | nil => exact fun x hx => by cases hx
  | cons x xs ih =>
    obtain ⟨_, hx, hrest⟩ := except_bind_ok.1 (forM_cons.symm.trans h)
    exact List.forall_mem_cons.2 ⟨hx, ih hrest⟩

/-- A traversal stops at the first failure. -/
theorem forM_error {f : α → Except ε Unit} {xs ys : List α} {y : α} {e : ε} (hxs : ∀ x ∈ xs, f x = .ok ())
    (hy : f y = .error e) : (xs ++ y :: ys).forM f = .error e := by
  rw [forM_append, except_bind_of_ok (forM_ok hxs), forM_cons, hy]
  rfl

theorem pair_sublist {xs : List α} {i j : Nat} {x y : α} (hx : xs[i]? = some x)
    (hy : xs[j]? = some y) (hij : i < j) : [x, y].Sublist xs := by
  have hfirst : [x].Sublist (xs.take j) := by
    refine List.singleton_sublist.2 (List.mem_iff_getElem?.2 ⟨i, ?_⟩)
    rw [List.getElem?_take_of_lt hij, hx]
  have hsecond : [y].Sublist (xs.drop j) := by
    refine List.singleton_sublist.2 (List.mem_iff_getElem?.2 ⟨0, ?_⟩)
    rw [List.getElem?_drop, Nat.add_zero, hy]
  rw [← List.take_append_drop j xs]
  exact hfirst.append hsecond

end ClassMachine.Lists
