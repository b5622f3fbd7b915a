import Std.Data.ExtTreeMap

/-!
Ordered maps by what they hold under a key. Maps here are compared and listed only through their
entries, so a listing is never looked at in any other way.
-/
namespace ClassMachine.Maps
open Std

variable {α β : Type} {cmp : α → α → Ordering} [TransCmp cmp] [LawfulEqCmp cmp]

omit [LawfulEqCmp cmp] in
theorem values_eq_map_toList (t : ExtTreeMap α β cmp) : t.values = t.toList.map (·.2) := by
  rcases t with ⟨⟨t⟩⟩
  induction t using Quotient.inductionOn with
  | h t =>
    rcases t with ⟨t, _⟩
    show DTreeMap.Internal.Impl.values t = (DTreeMap.Internal.Impl.Const.toList t).map (·.2)
    rw [DTreeMap.Internal.Impl.values_eq_map_snd,
      DTreeMap.Internal.Impl.Const.toList_eq_toListModel_map, List.map_map]
    rfl

/-- A value is listed when some key holds it. -/
theorem mem_values {t : ExtTreeMap α β cmp} {v : β} : v ∈ t.values ↔ ∃ k : α, t[k]? = some v := by
  rw [values_eq_map_toList, List.mem_map]
  constructor
  · rintro ⟨⟨k, w⟩, hk, rfl⟩
    exact ⟨k, ExtTreeMap.mem_toList_iff_getElem?_eq_some.1 hk⟩
  · rintro ⟨k, hk⟩
    exact ⟨(k, v), ExtTreeMap.mem_toList_iff_getElem?_eq_some.2 hk, rfl⟩

theorem getElem?_modify_eq [DecidableEq α] (t : ExtTreeMap α β cmp) (k j : α) (f : β → β) :
    (t.modify k f)[j]? = if k = j then t[j]?.map f else t[j]? := by
  rw [ExtTreeMap.getElem?_modify]
  simp only [LawfulEqCmp.compare_eq_iff_eq]
  split
  · next h => rw [h]
  · rfl

theorem getElem?_insert_eq [DecidableEq α] (t : ExtTreeMap α β cmp) (k j : α) (v : β) :
    (t.insert k v)[j]? = if k = j then some v else t[j]? := by
  simp only [ExtTreeMap.getElem?_insert, LawfulEqCmp.compare_eq_iff_eq]

theorem getElem?_erase_eq [DecidableEq α] (t : ExtTreeMap α β cmp) (k j : α) :
    (t.erase k)[j]? = if k = j then none else t[j]? := by
  simp only [ExtTreeMap.getElem?_erase, LawfulEqCmp.compare_eq_iff_eq]

/-- A listing in the order of the keys is the only one of its entries. -/
theorem toList_eq_of_ordered {t : ExtTreeMap α β cmp} {entries : List (α × β)}
    (hordered : entries.Pairwise fun a b => cmp a.1 b.1 = .lt)
    (h : ∀ k v, t[k]? = some v ↔ (k, v) ∈ entries) : t.toList = entries := by
  have hnodup : ∀ {l : List (α × β)}, (l.Pairwise fun a b => cmp a.1 b.1 = .lt) → l.Nodup := by
    refine fun hl => hl.imp fun {a b} hab heq => ?_
    have hself : cmp b.1 b.1 = .eq := ReflCmp.compare_self
    rw [heq, hself] at hab
    cases hab
  refine List.Perm.eq_of_pairwise ?_ ExtTreeMap.ordered_keys_toList hordered ?_
  · intro a b _ _ hab hba
    rw [OrientedCmp.gt_of_lt hab] at hba
    cases hba
  · refine (List.perm_ext_iff_of_nodup (hnodup ExtTreeMap.ordered_keys_toList) (hnodup hordered)).2 ?_
    rintro ⟨k, v⟩
    rw [ExtTreeMap.mem_toList_iff_getElem?_eq_some]
    exact h k v

theorem toList_map {γ : Type} (t : ExtTreeMap α β cmp) (f : β → γ) :
    (t.map fun _ => f).toList = t.toList.map fun p => (p.1, f p.2) := by
  refine toList_eq_of_ordered (ExtTreeMap.ordered_keys_toList.map _ fun _ _ h => h) fun k v => ?_
  rw [ExtTreeMap.getElem?_map, Option.map_eq_some_iff, List.mem_map]
  constructor
  · rintro ⟨w, hw, rfl⟩
    exact ⟨(k, w), ExtTreeMap.mem_toList_iff_getElem?_eq_some.2 hw, rfl⟩
  · rintro ⟨⟨k, w⟩, hw, heq⟩
    cases heq
    exact ⟨w, ExtTreeMap.mem_toList_iff_getElem?_eq_some.1 hw, rfl⟩

/-- Maps that agree under every key in the part of the value that is looked at. -/
theorem map_toList_congr {γ δ : Type} {t : ExtTreeMap α β cmp} {t' : ExtTreeMap α γ cmp} {f : β → δ}
    {g : γ → δ} (h : ∀ k : α, t'[k]?.map g = t[k]?.map f) :
    (t'.toList.map fun p => (p.1, g p.2)) = t.toList.map fun p => (p.1, f p.2) := by
  rw [← toList_map, ← toList_map]
  refine congrArg _ (ExtTreeMap.ext_getElem? fun k => ?_)
  rw [ExtTreeMap.getElem?_map, ExtTreeMap.getElem?_map]
  exact h k

/-- The map of the given entries. -/
def ofEntries (entries : List (α × β)) : ExtTreeMap α β cmp :=
  entries.foldl (fun t p => t.insert p.1 p.2) ∅

theorem getElem?_foldl_insert [DecidableEq α] {entries : List (α × β)}
    (hkeys : (entries.map (·.1)).Nodup) (t : ExtTreeMap α β cmp) (k : α) (v : β) :
    (entries.foldl (fun t p => t.insert p.1 p.2) t)[k]? = some v ↔
      (k, v) ∈ entries ∨ k ∉ entries.map (·.1) ∧ t[k]? = some v := by
  induction entries generalizing t with
  | nil => simp
  | cons p entries ih =>
    obtain ⟨j, w⟩ := p
    obtain ⟨hfresh, hkeys⟩ := List.nodup_cons.1 hkeys
    rw [List.foldl_cons, ih hkeys, getElem?_insert_eq]
    simp only [List.mem_cons, Prod.mk.injEq, List.map_cons, not_or]
    by_cases hjk : j = k
    · subst hjk
      have hnot : ∀ v, (j, v) ∉ entries := fun v hv => hfresh (List.mem_map.2 ⟨_, hv, rfl⟩)
      simp only [hnot, hfresh, not_false_eq_true, if_true, Option.some.injEq, true_and, false_or,
        not_true_eq_false, false_and, or_false]
      exact eq_comm
    · simp [hjk, Ne.symm hjk]

theorem getElem?_ofEntries [DecidableEq α] {entries : List (α × β)} (hkeys : (entries.map (·.1)).Nodup)
    {k : α} {v : β} : (ofEntries entries : ExtTreeMap α β cmp)[k]? = some v ↔ (k, v) ∈ entries := by
  simp [ofEntries, getElem?_foldl_insert hkeys]

/-- Entries in the order of their keys are listed as they were given. -/
theorem toList_ofEntries [DecidableEq α] {entries : List (α × β)}
    (h : entries.Pairwise fun a b => cmp a.1 b.1 = .lt) :
    (ofEntries entries : ExtTreeMap α β cmp).toList = entries := by
  refine toList_eq_of_ordered h fun k v => getElem?_ofEntries ?_
  rw [List.Nodup, List.pairwise_map]
  refine h.imp fun {a b} hab heq => ?_
  have hself : cmp b.1 b.1 = .eq := ReflCmp.compare_self
  rw [heq, hself] at hab
  cases hab

end ClassMachine.Maps
