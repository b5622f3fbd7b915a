import ClassMachine.Proofs.Machine.Upholding
import Mathlib.Data.List.Forall2

/-!
Arrays of arrays. While the arrays of one level are made the one that holds them is pinned, and they are
held by it, so no collection takes any of them; and each is made under a handle under which nothing was held.
-/
namespace ClassMachine.Machine
open Stateful

/-- What a class says its elements are. -/
def elementOf? (t : ClassTable) (id : ClassId) : Option ElementType := (t.get? id).bind (·.element)

/-- Arrays of the class go so many levels deep. -/
def Deep (t : ClassTable) : Nat → ClassId → Prop
  | 0, _ => True
  | 1, id => ∃ element, elementOf? t id = some element
  | depth + 2, id => ∃ inner, elementOf? t id = some (.reference inner) ∧ Deep t (depth + 1) inner

/-- An array of references to given objects, the rest of which are null. -/
def arrayOfRefs (id : ClassId) (length : Nat) (children : List Ref) : Object :=
  { Object.arrayOf id .reference length with
    payload := .array .reference
      (children.map Value.ref ++ List.replicate (length - children.length) Value.null).toArray }

/-- Under `r` is an array of the class and of the first length, with zero values where it is the last one, and
with an array of the others under each element where it is not. The arrays are listed, each before those under
its elements. -/
def Built (t : ClassTable) (get? : Ref → Option Object) : List Int32 → ClassId → Ref → List Ref → Prop
  | [], _, _, _ => False
  | [length], id, r, arrays => arrays = [r] ∧ r.isNull = false ∧
      ∃ element, elementOf? t id = some element ∧ get? r = some (.arrayOf id element.kind length.toInt.toNat)
  | length :: next :: rest, id, r, arrays => r.isNull = false ∧
      ∃ inner children parts, elementOf? t id = some (.reference inner) ∧
        children.length = length.toInt.toNat ∧ get? r = some (arrayOfRefs id length.toInt.toNat children) ∧
        List.Forall₂ (Built t get? (next :: rest) inner) children parts ∧ arrays = r :: parts.flatten

/-- The first null element of an array becomes a reference. -/
theorem setElement_arrayOfRefs (id : ClassId) {length : Nat} {children : List Ref}
    (hroom : children.length < length) (child : Ref) :
    (arrayOfRefs id length children).setElement children.length (.ref child) =
      arrayOfRefs id length (children ++ [child]) := by
  have hrest : List.replicate (length - children.length) Value.null =
      Value.null :: List.replicate (length - (children.length + 1)) Value.null := by
    rw [← List.replicate_succ]
    congr 1
    omega
  have helements : ((children.map Value.ref ++ List.replicate (length - children.length) Value.null).toArray
      ).setIfInBounds children.length (.ref child) =
      ((children ++ [child]).map Value.ref ++
        List.replicate (length - (children ++ [child]).length) Value.null).toArray := by
    rw [List.setIfInBounds_toArray, hrest, List.set_append_right _ _ (by simp), List.length_map, Nat.sub_self,
      List.set_cons_zero, List.length_append, List.length_singleton, List.map_append, List.append_assoc]
    rfl
  unfold arrayOfRefs Object.setElement
  dsimp only
  rw [helements]

section Parts

variable {α β : Type} {R S : α → List β → Prop} {P : β → Prop} {xs : List α} {parts : List (List β)}

theorem forall₂_of_flatten (h : List.Forall₂ R xs parts) (hP : ∀ y ∈ parts.flatten, P y)
    (hone : ∀ x part, R x part → (∀ y ∈ part, P y) → S x part) : List.Forall₂ S xs parts := by
  induction h with
  | nil => exact .nil
  | cons hx _ ih =>
    rw [List.flatten_cons, List.forall_mem_append] at hP
    exact .cons (hone _ _ hx hP.1) (ih hP.2)

theorem forall_flatten (h : List.Forall₂ R xs parts)
    (hone : ∀ x ∈ xs, ∀ part, R x part → ∀ y ∈ part, P y) : ∀ y ∈ parts.flatten, P y := by
  induction h with
  | nil => exact fun _ hy => by cases hy
  | cons hx _ ih =>
    rw [List.flatten_cons, List.forall_mem_append]
    exact ⟨hone _ List.mem_cons_self _ hx, ih fun x hmem => hone x (List.mem_cons_of_mem _ hmem)⟩

end Parts

/-- What holds an array of references holds what these name. -/
theorem held_of_arrayOfRefs {h : Heap} {roots : List Ref} {r child : Ref} {id : ClassId} {length : Nat}
    {children : List Ref} (hr : h.Held roots r) (hget : h.get? r = some (arrayOfRefs id length children))
    (hmem : child ∈ children) (hnull : child.isNull = false) (hlive : ∃ o, h.get? child = some o) :
    h.Held roots child := by
  obtain ⟨o, ho⟩ := hlive
  refine .follow hr hget ⟨hnull, .inr (.inl ⟨_, _, rfl, ?_⟩)⟩ ho
  exact List.mem_toArray.2 (List.mem_append_left _ (List.mem_map_of_mem hmem))

namespace Built

variable {t : ClassTable} {get? get?' : Ref → Option Object} {lengths : List Int32} {id : ClassId} {r : Ref}
  {arrays : List Ref}

theorem nonnull (h : Built t get? lengths id r arrays) : r.isNull = false := by
  match lengths, h with
  | [_], h => exact h.2.1
  | _ :: _ :: _, h => exact h.1

theorem root_live (h : Built t get? lengths id r arrays) : ∃ o, get? r = some o := by
  match lengths, h with
  | [_], ⟨_, _, _, _, hget⟩ => exact ⟨_, hget⟩
  | _ :: _ :: _, ⟨_, _, _, _, _, _, hget, _⟩ => exact ⟨_, hget⟩

/-- Where its arrays are as they were, all of it is. -/
theorem mono (h : Built t get? lengths id r arrays) (hget : ∀ x ∈ arrays, ∀ o, get? x = some o → get?' x = some o) :
    Built t get?' lengths id r arrays := by
  induction lengths generalizing id r arrays with
  | nil => exact h
  | cons length rest ih =>
    cases rest with
    | nil =>
      obtain ⟨rfl, hnull, element, helement, harray⟩ := h
      exact ⟨rfl, hnull, element, helement, hget r List.mem_cons_self _ harray⟩
    | cons next rest =>
      obtain ⟨hnull, inner, children, parts, helement, hlength, harray, hparts, rfl⟩ := h
      exact ⟨hnull, inner, children, parts, helement, hlength, hget r List.mem_cons_self _ harray,
        forall₂_of_flatten hparts (fun x hx => hget x (List.mem_cons_of_mem r hx)) fun _ _ => ih, rfl⟩

/-- What holds the first array holds them all. -/
theorem all_held {h : Heap} {roots : List Ref} (hb : Built t h.get? lengths id r arrays)
    (hr : h.Held roots r) : ∀ x ∈ arrays, h.Held roots x := by
  induction lengths generalizing id r arrays with
  | nil => exact hb.elim
  | cons length rest ih =>
    cases rest with
    | nil =>
      obtain ⟨rfl, _⟩ := hb
      exact fun x hx => List.mem_singleton.1 hx ▸ hr
    | cons next rest =>
      obtain ⟨_, inner, children, parts, _, _, harray, hparts, rfl⟩ := hb
      refine List.forall_mem_cons.2 ⟨hr, forall_flatten hparts fun child hmem part hchild => ?_⟩
      exact ih hchild (held_of_arrayOfRefs hr harray hmem hchild.nonnull hchild.root_live)

end Built

section Filling

variable {m₀ m m' : Machine} {array : Ref} {id inner : ClassId} {length : Nat} {lengths : List Int32}
  {children : List Ref} {parts : List (List Ref)}

/-- What a computation comes to that makes arrays of arrays: they are built, all under different handles, under
which nothing was held. -/
def Makes (m : Machine) (lengths : List Int32) (id : ClassId) (r : Ref) (m' : Machine) : Prop :=
  (Saves m m' ∧ m'.linker = m.linker) ∧ ∃ arrays, Built m.classes m'.heap.get? lengths id r arrays ∧ arrays.Nodup ∧
    ∀ x ∈ arrays, ¬ m.heap.Held m.roots x

/-- Between two elements: an array made after `m₀` is pinned, and under its first elements all is built. -/
structure Filling (m₀ : Machine) (array : Ref) (id : ClassId) (length : Nat) (lengths : List Int32)
    (inner : ClassId) (children : List Ref) (parts : List (List Ref)) (m : Machine) : Prop where
  rest : m = { m₀ with heap := m.heap }
  held : m₀.heap.Upholds m₀.roots m.heap
  pinned : m.heap.pinned = array :: m₀.heap.pinned
  next : m.heap.nextHandle ≠ 0
  here : m.heap.get? array = some (arrayOfRefs id length children)
  below : List.Forall₂ (Built m₀.classes m.heap.get? lengths inner) children parts
  nodup : (array :: parts.flatten).Nodup
  fresh : ∀ x ∈ array :: parts.flatten, ¬ m₀.heap.Held m₀.roots x

namespace Filling

theorem roots (h : Filling m₀ array id length lengths inner children parts m) : m.roots = m₀.roots := by
  rw [h.rest]
  rfl

theorem classes (h : Filling m₀ array id length lengths inner children parts m) : m.classes = m₀.classes := by
  rw [h.rest]
  rfl

/-- The array and all that is built under it is held by the pin. -/
theorem all_held (h : Filling m₀ array id length lengths inner children parts m) :
    ∀ x ∈ array :: parts.flatten, m.heap.Held m.roots x := by
  have harray : m.heap.Held m.roots array :=
    .start (.inr (.inl (h.pinned ▸ List.mem_cons_self))) h.here
  refine List.forall_mem_cons.2 ⟨harray, forall_flatten h.below fun child hmem part hbuilt => ?_⟩
  exact hbuilt.all_held (held_of_arrayOfRefs harray h.here hmem hbuilt.nonnull hbuilt.root_live)

/-- What was made for the next element is put there. -/
theorem put (h : Filling m₀ array id length lengths inner children parts m) (hroom : children.length < length)
    {child : Ref} (hmade : Makes m lengths inner child m') :
    ∃ part, Filling m₀ array id length lengths inner (children ++ [child]) (parts ++ [part])
      { m' with heap := m'.heap.update array (·.setElement children.length (.ref child)) } := by
  obtain ⟨⟨hsaves, hlinker⟩, part, hbuilt, hnodup, hfresh⟩ := hmade
  have hheld := h.all_held
  have hapart : ∀ x ∈ part, x ∉ array :: parts.flatten := fun x hx hmem => hfresh x hx (hheld x hmem)
  have hother : ∀ x, x ≠ array →
      (m'.heap.update array (·.setElement children.length (.ref child))).get? x = m'.heap.get? x :=
    fun x hx => by rw [Heap.get?_update, if_neg (Ne.symm hx)]
  have hnotin : array ∉ parts.flatten := (List.nodup_cons.1 h.nodup).1
  have hkept : ∀ x ∈ parts.flatten, ∀ o, m.heap.get? x = some o →
      (m'.heap.update array (·.setElement children.length (.ref child))).get? x = some o := by
    intro x hx o ho
    rw [hother x (fun heq => hnotin (heq ▸ hx))]
    exact hsaves.held.get? x o (hheld x (List.mem_cons_of_mem _ hx)) ho
  refine ⟨part, ?_, ?_, hsaves.pinned.trans h.pinned, hsaves.next, ?_, ?_, ?_, fun x hx => ?_⟩
  · rw [hsaves.rest, hlinker, h.rest]
  · exact (h.held.trans (h.roots ▸ hsaves.held)).update (h.fresh array List.mem_cons_self) _
  · show (m'.heap.update array _).get? array = _
    rw [Heap.get?_update, if_pos rfl, hsaves.held.get? array _ (hheld array List.mem_cons_self) h.here,
      Option.map_some, setElement_arrayOfRefs id hroom]
  · refine List.rel_append (forall₂_of_flatten h.below hkept fun _ _ hb hget => hb.mono hget) (.cons ?_ .nil)
    rw [h.classes] at hbuilt
    refine hbuilt.mono fun x hx o ho => ?_
    rw [hother x fun heq => hapart x hx (heq ▸ List.mem_cons_self), ho]
  · rw [List.flatten_append, List.flatten_singleton, ← List.cons_append, List.nodup_append]
    exact ⟨h.nodup, hnodup, fun x hx y hy heq => hapart y hy (heq ▸ hx)⟩
  · rw [List.flatten_append, List.flatten_singleton, ← List.cons_append, List.mem_append] at hx
    rcases hx with hx | hx
    · exact h.fresh x hx
    · exact fun hold => hfresh x hx (h.roots ▸ h.held.held hold)

/-- All elements are filled, one after the other. -/
theorem fill {make : MachineM Ref} (hmake : ∀ m, m.heap.nextHandle ≠ 0 → m.classes = m₀.classes →
      Ends (make m) (fun r m' => Makes m lengths inner r m') fun _ m' => Saves m m')
    (h : Filling m₀ array id length lengths inner children parts m) (count : Nat)
    (hcount : children.length + count = length) :
    Ends (fillArray array make count children.length m)
      (fun _ m' => ∃ children' parts', children'.length = length ∧
        Filling m₀ array id length lengths inner children' parts' m')
      fun _ m' => ∃ n children' parts', Filling m₀ array id length lengths inner children' parts' n ∧
        Saves n m' := by
  induction count generalizing m children parts with
  | zero => exact ⟨children, parts, hcount, h⟩
  | succ count ih =>
    unfold fillArray
    have hmade := hmake m h.next h.classes
    cases hr : make m with
    | error e m' =>
      rw [bind_of_error hr]
      exact ⟨m, children, parts, h, hmade.of_error hr⟩
    | ok child m' =>
      rw [bind_of_ok hr]
      obtain ⟨part, hput⟩ := h.put (by omega) (hmade.of_ok hr)
      have hlater := ih hput (by rw [List.length_append, List.length_singleton]; omega)
      rw [List.length_append, List.length_singleton] at hlater
      exact hlater

end Filling

theorem arrayOfRefs_nil (id : ClassId) (length : Nat) :
    arrayOfRefs id length [] = Object.arrayOf id .reference length := by
  unfold arrayOfRefs Object.arrayOf Object.ofPayload
  simp only [List.map_nil, List.nil_append, List.length_nil, Nat.sub_zero, List.toArray_replicate]
  rfl

/-- An array that was made is ready to be filled, once it is pinned. -/
theorem filling_start {n : Nat} {m₁ m₂ : Machine} (h₁ : Saves m m₁) (hlinker : m₁.linker = m.linker)
    (h₂ : Added (.arrayOf id .reference n) array m₁ m₂) :
    Filling m array id n lengths inner [] [] (pinnedAll [array] m₂) := by
  have h := h₁.trans h₂.saves
  have hheap := heap_pinnedAll h₂.nonnull m₂
  refine ⟨?_, h.held.trans (pin_upholds m.roots m₂.heap array), ?_, ?_, ?_, .nil, by simp, fun x hx => ?_⟩
  · show ({ m₂ with heap := m₂.heap.pinAll [array] } : Machine) = _
    rw [h.rest, h₂.linker, hlinker]
    rfl
  · rw [hheap, ← h.pinned]
  · rw [hheap]
    exact h.next
  · rw [hheap, arrayOfRefs_nil]
    exact (h₂.get? array).trans (if_pos rfl)
  · rw [List.flatten_nil, List.mem_singleton] at hx
    exact hx ▸ h₂.not_held h₁

end Filling

section Making

variable {m : Machine}

/-- An array is made under a handle under which nothing was held. -/
theorem newArray_adds (hm : m.heap.nextHandle ≠ 0) (id : ClassId) (kind : Kind) {length : Int32}
    (hlength : 0 ≤ length.toInt) :
    Ends (newArray id kind length m) (fun r m' => ∃ m₁, Saves m m₁ ∧ m₁.linker = m.linker ∧
        Added (.arrayOf id kind length.toInt.toNat) r m₁ m')
      fun _ m' => Saves m m' := by
  have hnot : ¬ length < 0 := by
    rw [Int32.lt_iff_toInt_lt]
    exact Int.not_lt.2 hlength
  unfold newArray
  rw [if_neg hnot]
  refine Ends.bind ((reserve_intact hm _).mono (fun _ _ h => h) fun _ _ h => h.1.toSaves)
    fun _ m₁ ⟨h₁, hlinker⟩ => ?_
  exact (insertObject_adds h₁.next _).mono (fun r m₂ h₂ => ⟨m₁, h₁.toSaves, hlinker, h₂⟩)
    fun _ m₂ h₂ => h₂ ▸ h₁.toSaves

theorem newMultiArray_makes (lengths : List Int32) (id : ClassId) (hm : m.heap.nextHandle ≠ 0)
    (hsome : lengths ≠ []) (hdeep : Deep m.classes lengths.length id)
    (hlengths : ∀ length ∈ lengths, 0 ≤ length.toInt) :
    Ends (newMultiArray lengths id m) (fun r m' => Makes m lengths id r m') fun _ m' => Saves m m' := by
  induction lengths generalizing id m with
  | nil => exact absurd rfl hsome
  | cons length rest ih =>
    have hlength := hlengths length List.mem_cons_self
    unfold newMultiArray
    rw [bind_get]
    cases rest with
    | nil =>
      obtain ⟨element, helement⟩ := hdeep
      rw [show (m.classes.get? id).bind (·.element) = some element from helement]
      refine (newArray_adds hm id element.kind hlength).bind fun array m₂ hadded => ?_
      obtain ⟨m₁, h₁, hlinker, h₂⟩ := hadded
      have hmade : Makes m [length] id array m₂ := by
        refine ⟨⟨h₁.trans h₂.saves, h₂.linker.trans hlinker⟩, [array], ⟨rfl, h₂.nonnull, element, helement, ?_⟩,
          List.nodup_singleton _, fun x hx => ?_⟩
        · exact (h₂.get? array).trans (if_pos rfl)
        · exact List.mem_singleton.1 hx ▸ h₂.not_held h₁
      cases element <;> exact hmade
    | cons next rest =>
      obtain ⟨inner, helement, hinner⟩ := hdeep
      rw [show (m.classes.get? id).bind (·.element) = some (.reference inner) from helement]
      refine (newArray_adds hm id .reference hlength).bind fun array m₂ hadded => ?_
      obtain ⟨m₁, h₁, hlinker, h₂⟩ := hadded
      show Ends ((pinning [array] (fillArray array (newMultiArray (next :: rest) inner) length.toInt.toNat 0) >>=
        fun _ => pure array) m₂) _ _
      have hback : ∀ {n children parts}, Filling m array id length.toInt.toNat (next :: rest) inner children parts n →
          ∀ n', Saves n n' → Saves m { n' with heap := n'.heap.unpin array } := fun h n' hn => by
        refine unpin_saves ?_ (h.held.trans (h.roots ▸ hn.held)) (hn.pinned.trans h.pinned) hn.next
        rw [hn.rest, h.rest]
      have hstart : Filling m array id length.toInt.toNat (next :: rest) inner [] [] (pinnedAll [array] m₂) :=
        filling_start h₁ hlinker h₂
      have hmake : ∀ n : Machine, n.heap.nextHandle ≠ 0 → n.classes = m.classes →
          Ends (newMultiArray (next :: rest) inner n) (fun r n' => Makes n (next :: rest) inner r n')
            fun _ n' => Saves n n' := fun n hn hclasses =>
        ih inner hn (by simp) (hclasses.symm ▸ hinner) fun k hk => hlengths k (List.mem_cons_of_mem _ hk)
      have hfill := hstart.fill hmake length.toInt.toNat (Nat.zero_add _)
      refine (pinning_ends (hfill.mono (fun _ n h => ?_) fun _ n h => ?_)).bind fun _ m₃ h₃ => h₃
      · obtain ⟨children, parts, hlen, hfilled⟩ := h
        refine ⟨⟨hback hfilled n (.refl hfilled.next), ?_⟩, array :: parts.flatten,
          ⟨h₂.nonnull, inner, children, parts, helement, hlen, hfilled.here, hfilled.below, rfl⟩, hfilled.nodup,
          hfilled.fresh⟩
        rw [hfilled.rest]
      · obtain ⟨n', children, parts, hfilled, hsaves⟩ := h
        exact hback hfilled n hsaves

end Making

/-- Arrays of arrays are made as asked, of arrays of their own under handles under which nothing was held,
whatever is collected meanwhile. Objects that were held are as they were, and so is what was pinned, also where
not all of the arrays could be made. -/
theorem newMultiArray_builds {m : Machine} (hm : m.heap.nextHandle ≠ 0) {lengths : List Int32} {id : ClassId}
    (hsome : lengths ≠ []) (hdeep : Deep m.classes lengths.length id)
    (hlengths : ∀ length ∈ lengths, 0 ≤ length.toInt) :
    Ends (newMultiArray lengths id m)
      (fun r m' => (∃ arrays, Built m'.classes m'.heap.get? lengths id r arrays ∧ arrays.Nodup ∧
          ∀ x ∈ arrays, ¬ m.heap.Held m.roots x) ∧
        (∀ x o, m.heap.Held m.roots x → m.heap.get? x = some o → m'.heap.get? x = some o) ∧
        m'.heap.pinned = m.heap.pinned)
      fun _ m' => (∀ x o, m.heap.Held m.roots x → m.heap.get? x = some o → m'.heap.get? x = some o) ∧
        m'.heap.pinned = m.heap.pinned := by
  refine (newMultiArray_makes lengths id hm hsome hdeep hlengths).mono (fun r m' h => ?_) fun _ m' h => ?_
  · obtain ⟨⟨hsaves, hlinker⟩, arrays, hbuilt, hnodup, hfresh⟩ := h
    refine ⟨⟨arrays, ?_, hnodup, hfresh⟩, hsaves.held.get?, hsaves.pinned⟩
    rwa [show m'.classes = m.classes from congrArg Linker.classes hlinker]
  · exact ⟨h.held.get?, h.pinned⟩

/-- A machine with room, that knows of bytes in arrays and in arrays of arrays. -/
def roomy : Machine :=
  { (default : Machine) with
    heap := { capacity := 1000 }
    linker := { (default : Linker) with
      classes := { classes :=
        #[{ (default : ClassInfo) with element := some (.primitive .byte) },
          { (default : ClassInfo) with element := some (.reference 0) }] } } }

theorem newMultiArray_builds_roomy : ∃ r m', newMultiArray [2, 3] 1 roomy = .ok r m' ∧
    ∃ arrays, Built m'.classes m'.heap.get? [2, 3] 1 r arrays ∧ arrays.Nodup := by
  have hmade : (match newMultiArray [2, 3] 1 roomy with | .ok _ _ => true | .error _ _ => false) = true := by
    decide +kernel
  have hnext : roomy.heap.nextHandle ≠ 0 := by decide
  have hdeep : Deep roomy.classes ([2, 3] : List Int32).length 1 := ⟨0, rfl, .primitive .byte, rfl⟩
  have hlengths : ∀ length ∈ ([2, 3] : List Int32), 0 ≤ length.toInt :=
    List.forall_mem_cons.2 ⟨by decide, List.forall_mem_singleton.2 (by decide)⟩
  generalize roomy = m at hmade hnext hdeep ⊢
  have hends := newMultiArray_builds hnext (List.cons_ne_nil _ _) hdeep hlengths
  cases hrun : newMultiArray [2, 3] 1 m with
  | error e m' =>
    rw [hrun] at hmade
    cases hmade
  | ok r m' =>
    obtain ⟨⟨arrays, hbuilt, hnodup, -⟩, -⟩ := hends.of_ok hrun
    exact ⟨r, m', rfl, arrays, hbuilt, hnodup⟩

end ClassMachine.Machine
