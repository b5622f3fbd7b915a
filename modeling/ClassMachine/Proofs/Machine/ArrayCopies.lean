import ClassMachine.Machine.Builtins
import ClassMachine.Proofs.Machine.Unwinding
import ClassMachine.Proofs.Machine.Upholding

/-!
Copies between arrays. What is copied is read before anything is written, so the ranges may overlap, and it
is copied up to the first object that is none of the class of the target's elements. Whatever is wrong with
the arrays or the ranges is found before anything is written.
-/
namespace ClassMachine

open Stateful

namespace Object

/-- Elements of an array are written one after the other. -/
def writtenAll : Nat → List Value → Object → Object
  | _, [], o => o
  | index, v :: rest, o => writtenAll (index + 1) rest (o.written index v)

theorem written_of_array {o : Object} {kind : Kind} {elements : Array Value}
    (ho : o.payload = .array kind elements) (index : Nat) (v : Value) :
    o.written index v = { o with payload := .array kind (elements.setIfInBounds index (v.narrowTo kind)) } := by
  unfold written setElement elements?
  simp only [ho]

/-- Each element of the range is the value of its place, and the others are as they were. -/
theorem writtenAll_of_array {o : Object} {kind : Kind} {elements : Array Value}
    (ho : o.payload = .array kind elements) (index : Nat) (values : List Value)
    (hfits : index + values.length ≤ elements.size) :
    ∃ elements', o.writtenAll index values = { o with payload := .array kind elements' } ∧
      elements'.size = elements.size ∧ ∀ j, elements'[j]? =
        if index ≤ j ∧ j < index + values.length then values[j - index]?.map (·.narrowTo kind) else elements[j]? := by
  induction values generalizing o elements index with
  | nil =>
    refine ⟨elements, by rw [← ho]; rfl, rfl, fun j => ?_⟩
    rw [if_neg (by simp only [List.length_nil]; omega)]
  | cons v rest ih =>
    simp only [List.length_cons] at hfits
    have hone : (o.written index v).payload = .array kind (elements.setIfInBounds index (v.narrowTo kind)) := by
      rw [written_of_array ho]
    obtain ⟨elements', hall, hsize, hget⟩ := ih hone (index + 1) (by rw [Array.size_setIfInBounds]; omega)
    refine ⟨elements', ?_, hsize.trans (Array.size_setIfInBounds ..), fun j => ?_⟩
    · rw [writtenAll, hall, written_of_array ho]
    · rw [hget]
      by_cases hj : j = index
      · subst hj
        rw [if_neg (by omega), if_pos (by simp only [List.length_cons]; omega), Nat.sub_self,
          Array.getElem?_setIfInBounds_self_of_lt (by omega)]
        rfl
      · rw [Array.getElem?_setIfInBounds_ne (Ne.symm hj)]
        by_cases hin : index + 1 ≤ j ∧ j < index + 1 + rest.length
        · rw [if_pos hin, if_pos (by simp only [List.length_cons]; omega),
            show j - index = j - (index + 1) + 1 by omega, List.getElem?_cons_succ]
        · rw [if_neg hin, if_neg (by simp only [List.length_cons]; omega)]

end Object

namespace Heap

/-- Arrays hold values of the kind that their classes tell. -/
def Kinded (t : ClassTable) (h : Heap) : Prop :=
  ∀ r o c element kind elements, h.get? r = some o → t.get? o.type = some c → c.element = some element →
    o.elements? = some (kind, elements) → kind = element.kind ∧ ∀ v ∈ elements, v.narrowTo kind = v

theorem update_id (h : Heap) (r : Ref) : h.update r (fun o => o) = h := by
  have hobjects : h.objects.modify r.handle (fun o => o) = h.objects := by
    refine Std.ExtTreeMap.ext_getElem? fun handle => ?_
    rw [Maps.getElem?_modify_eq]
    split
    · exact Option.map_id'
    · rfl
  unfold update
  rw [hobjects]

theorem update_update (h : Heap) (r : Ref) (f g : Object → Object) :
    (h.update r f).update r g = h.update r fun o => g (f o) := by
  have hobjects : (h.objects.modify r.handle f).modify r.handle g = h.objects.modify r.handle fun o => g (f o) := by
    refine Std.ExtTreeMap.ext_getElem? fun handle => ?_
    rw [Maps.getElem?_modify_eq, Maps.getElem?_modify_eq, Maps.getElem?_modify_eq]
    split
    · exact Option.map_map ..
    · rfl
  unfold update
  dsimp only
  rw [hobjects]

end Heap

namespace Machine

variable {m : Machine}

/-- An array with elements of a type does not take an object of no subclass. -/
def Refuses (m : Machine) (element : ElementType) (v : Value) : Prop :=
  ∃ inner r o, element = .reference inner ∧ v = .ref r ∧ r.isNull = false ∧ m.heap.get? r = some o ∧
    ¬ m.classes.Is o.type inner

theorem refuses_of_concurs {c : ClassTable} (hc : m.classes.Concurs c) (element : ElementType) (v : Value) :
    (m.withClasses c).Refuses element v ↔ m.Refuses element v := by
  unfold Refuses ClassTable.Is
  rw [show (m.withClasses c).classes = c from rfl]
  simp only [hc.isSubclass]
  rfl

theorem accepts_eq (element : ElementType) (v : Value) (m : Machine) :
    ∃ c taken, m.classes.Concurs c ∧ accepts (some element) v m = .ok taken (m.withClasses c) ∧
      (taken = true ↔ ¬ m.Refuses element v) := by
  -- only an object, and only by an array of references, can be refused
  have hother : ¬ m.Refuses element v → accepts (some element) v m = .ok true m →
      ∃ c taken, m.classes.Concurs c ∧ accepts (some element) v m = .ok taken (m.withClasses c) ∧
        (taken = true ↔ ¬ m.Refuses element v) := fun hnot hrun =>
    ⟨m.classes, true, .refl _, hrun, fun _ => hnot, fun _ => rfl⟩
  cases element with
  | primitive kind => exact hother (fun ⟨_, _, _, helement, _⟩ => by cases helement) (by cases v <;> rfl)
  | reference expected =>
    cases v with
    | ref r =>
      cases hclass : m.liveClass? r with
      | none =>
        refine hother ?_ ?_
        · rintro ⟨inner, r', o, -, hv, hnull, ho, -⟩
          cases hv
          have hlive := liveClass?_eq_some.2 ⟨hnull, o, ho, rfl⟩
          rw [hclass] at hlive
          cases hlive
        · unfold accepts
          dsimp only
          rw [bind_get, hclass]
          rfl
      | some actual =>
        obtain ⟨hnull, o, ho, rfl⟩ := liveClass?_eq_some.1 hclass
        refine ⟨_, (ClassTable.isSubclass o.type expected m.classes).1,
          ClassTable.concurs_isSubclass o.type expected m.classes, ?_, fun htaken => ?_, fun hnot => ?_⟩
        · unfold accepts
          dsimp only
          rw [bind_get, hclass]
          rfl
        · rintro ⟨inner, r', o', helement, hv, -, ho', hno⟩
          cases helement
          cases hv
          cases ho.symm.trans ho'
          exact hno htaken
        · by_contra htaken
          exact hnot ⟨expected, r, o, rfl, rfl, hnull, ho, htaken⟩
    | _ => exact hother (fun ⟨_, _, _, _, hv, _⟩ => by cases hv) rfl

/-- Values are taken up to the first one that is refused. -/
theorem acceptedPart_eq (element : ElementType) (values : List Value) (m : Machine) :
    ∃ c k, m.classes.Concurs c ∧ acceptedPart element values m = .ok (values.take k) (m.withClasses c) ∧
      k ≤ values.length ∧ (∀ v ∈ values.take k, ¬ m.Refuses element v) ∧
      (k < values.length → ∃ v, values[k]? = some v ∧ m.Refuses element v) := by
  induction values generalizing m with
  | nil => exact ⟨m.classes, 0, .refl _, rfl, Nat.le_refl 0, by simp, fun h => absurd h (Nat.lt_irrefl 0)⟩
  | cons v rest ih =>
    obtain ⟨c, taken, hc, hrun, htaken⟩ := accepts_eq element v m
    rw [acceptedPart, bind_of_ok hrun]
    cases taken with
    | false =>
      have hrefused : m.Refuses element v := by
        by_contra hnot
        exact absurd (htaken.2 hnot) Bool.false_ne_true
      exact ⟨c, 0, hc, rfl, Nat.zero_le _, by simp, fun _ => ⟨v, rfl, hrefused⟩⟩
    | true =>
      obtain ⟨c', k, hc', hrest, hle, htake, hstop⟩ := ih (m.withClasses c)
      simp only [refuses_of_concurs hc] at htake hstop
      refine ⟨c', k + 1, hc.trans hc', ?_, Nat.succ_le_succ hle, ?_, fun h => hstop (Nat.lt_of_succ_lt_succ h)⟩
      · rw [if_pos rfl, bind_of_ok hrest]
        rfl
      · rw [List.take_succ_cons, List.forall_mem_cons]
        exact ⟨htaken.1 rfl, htake⟩

theorem writeElements_eq (array : Ref) (index : Nat) (values : List Value) (m : Machine) :
    writeElements array index values m =
      .ok () { m with heap := m.heap.update array (·.writtenAll index values) } := by
  induction values generalizing index m with
  | nil =>
    show EStateM.Result.ok () m = _
    rw [show (fun o : Object => o.writtenAll index []) = fun o => o from rfl, Heap.update_id]
  | cons v rest ih =>
    have hone : writeElement array index v m =
        .ok () { m with heap := m.heap.update array (·.written index v) } := rfl
    rw [writeElements, bind_of_ok hone, ih, Heap.update_update]
    rfl

/-- So many elements from one place of an array on lie inside it. -/
def Inside (position length : Int32) (size : Nat) : Prop :=
  0 ≤ position.toInt ∧ 0 ≤ length.toInt ∧ position.toInt + length.toInt ≤ size

instance (position length : Int32) (size : Nat) : Decidable (Inside position length size) :=
  inferInstanceAs (Decidable (_ ∧ _))

/-- What a copy of `k` elements leaves: in the target they are what they were in the source, before anything
was written, and all else is as it was. Links may have been looked up. -/
structure Copied (m : Machine) (source : Array Value) (sourcePos : Nat) (target : Ref) (targetPos k : Nat)
    (m' : Machine) : Prop where
  rest : ∃ c, m.classes.Concurs c ∧ m' = { m.withClasses c with heap := m'.heap }
  heap : m'.heap = { m.heap with objects := m'.heap.objects }
  others : ∀ r, r ≠ target → m'.heap.get? r = m.heap.get? r
  target : ∃ o kind before after, m.heap.get? target = some o ∧ o.payload = .array kind before ∧
    m'.heap.get? target = some { o with payload := .array kind after } ∧ after.size = before.size ∧
    ∀ j, after[j]? = if targetPos ≤ j ∧ j < targetPos + k then source[sourcePos + (j - targetPos)]? else before[j]?

theorem inRange_iff {position length : Int32} {size : Nat} :
    inRange position length size = true ↔ Inside position length size := by
  unfold inRange Inside
  simp only [Bool.and_eq_true, decide_eq_true_eq, and_assoc]

/-- Elements of the target's type are values of the kind that the target has. -/
theorem narrowed_of_copyable {source target : Ref} {s t : ElementType} {ss ts : Array Value} {o : Object}
    {kind : Kind} (hk : m.heap.Kinded m.classes) (hs : m.arrayOf? source = some (s, ss))
    (ht : m.arrayOf? target = some (t, ts)) (ho : m.heap.get? target = some o) (hp : o.payload = .array kind ts)
    (hst : copyable s t = true) : ∀ v ∈ ss, v.narrowTo kind = v := by
  obtain ⟨x, c, from', hx, hc, hs, hes⟩ := of_arrayOf? hs
  obtain ⟨y, d, to', hy, hd, ht, het⟩ := of_arrayOf? ht
  cases ho.symm.trans hy
  obtain ⟨rfl, hnarrow⟩ := hk source x c s from' ss hx hc hs hes
  obtain ⟨rfl, -⟩ := hk target o d t to' ts hy hd ht het
  have hkind : kind = t.kind := by
    rw [Object.elements?_eq_some.2 hp] at het
    cases het
    rfl
  have hsame : s.kind = t.kind := by
    cases s with
    | primitive a =>
      cases t with
      | primitive b => exact of_decide_eq_true hst
      | reference b => cases hst
    | reference a =>
      cases t with
      | primitive b => cases hst
      | reference b => rfl
  rw [hkind, ← hsame]
  exact hnarrow

theorem getElem?_copied {ss : Array Value} {start length k j : Nat} (hk : k ≤ length) (hj : j < k) :
    (((ss.toList.drop start).take length).take k)[j]? = ss[start + j]? := by
  rw [List.take_take, Nat.min_eq_left hk, List.getElem?_take_of_lt hj, List.getElem?_drop, Array.getElem?_toList]

/-- To write the first so many elements of a range copies them. -/
theorem writeElements_copied {c : ClassTable} (hc : m.classes.Concurs c) {target : Ref} {o : Object} {kind : Kind}
    {ss ts : Array Value} {start length k : Nat} (targetPos : Nat) (ho : m.heap.get? target = some o)
    (hp : o.payload = .array kind ts) (hnarrow : ∀ v ∈ ss, v.narrowTo kind = v) (hk : k ≤ length)
    (hsource : start + length ≤ ss.size) (htarget : targetPos + length ≤ ts.size) :
    ∃ m', writeElements target targetPos (((ss.toList.drop start).take length).take k) (m.withClasses c) =
      .ok () m' ∧ Copied m ss start target targetPos k m' := by
  let values := ((ss.toList.drop start).take length).take k
  have hlength : values.length = k := by
    simp only [values, List.length_take, List.length_drop, Array.length_toList]
    omega
  obtain ⟨after, hall, hsize, hget⟩ := o.writtenAll_of_array hp targetPos values (by omega)
  refine ⟨_, writeElements_eq target targetPos values (m.withClasses c), ⟨c, hc, rfl⟩, rfl, fun r hr => ?_,
    o, kind, ts, after, ho, hp, ?_, hsize, fun j => ?_⟩
  · show (m.heap.update target _).get? r = _
    rw [Heap.get?_update, if_neg (Ne.symm hr)]
  · show (m.heap.update target _).get? target = _
    rw [Heap.get?_update, if_pos rfl, ho, Option.map_some, hall]
  · rw [hget, hlength]
    split
    · next hin =>
      rw [getElem?_copied hk (by omega)]
      cases hv : ss[start + (j - targetPos)]? with
      | none => rfl
      | some v => exact congrArg some (hnarrow v (Array.mem_of_getElem? hv))
    · rfl

/-- An array copy: what is wrong with the arrays and the ranges is told by an exception, in this order, before
anything is written. Otherwise elements are copied as they were before, up to the first one that the target
refuses; that one raises an exception. -/
theorem arrayCopy_moves (hn : m.heap.nextHandle ≠ 0) (hk : m.heap.Kinded m.classes) (source : Ref)
    (sourcePos : Int32) (target : Ref) (targetPos length : Int32) :
    let run := arrayCopy source sourcePos target targetPos length m
    (source.isNull = true ∨ target.isNull = true → m.Throws CoreName.nullPointer none run) ∧
    (source.isNull = false → target.isNull = false →
      (m.arrayOf? source = none ∨ m.arrayOf? target = none →
        m.Throws CoreName.arrayStore (some "arraycopy: argument type mismatch") run) ∧
      ∀ s ss t ts, m.arrayOf? source = some (s, ss) → m.arrayOf? target = some (t, ts) →
        (copyable s t = false → m.Throws CoreName.arrayStore (some "arraycopy: type mismatch") run) ∧
        (copyable s t = true →
          (¬ (Inside sourcePos length ss.size ∧ Inside targetPos length ts.size) →
            m.Throws CoreName.arrayIndexOutOfBounds (some (s!"arraycopy: last source index " ++
              s!"{sourcePos.toInt + length.toInt} out of bounds for length {ss.size}")) run) ∧
          (Inside sourcePos length ss.size → Inside targetPos length ts.size →
            ∃ k m', k ≤ length.toInt.toNat ∧
              (∀ j < k, ∀ v, ss[sourcePos.toInt.toNat + j]? = some v → ¬ m.Refuses t v) ∧
              (k < length.toInt.toNat → ∃ v, ss[sourcePos.toInt.toNat + k]? = some v ∧ m.Refuses t v) ∧
              Copied m ss sourcePos.toInt.toNat target targetPos.toInt.toNat k m' ∧
              (k = length.toInt.toNat → run = .ok () m') ∧
              (k < length.toInt.toNat →
                m'.Throws CoreName.arrayStore (some "arraycopy: element type mismatch") run)))) := by
  intro run
  refine ⟨fun hnull => ?_, fun hs ht => ⟨fun hnone => ?_, fun s ss t ts hss hts => ?_⟩⟩
  · have hrun : run = raiseNullPointer m := by
      show arrayCopy source sourcePos target targetPos length m = _
      unfold arrayCopy
      rw [if_pos (by simpa using hnull)]
    rw [hrun]
    exact raise_throws hn _ _
  · have hrun : run = raise CoreName.arrayStore (some "arraycopy: argument type mismatch") m := by
      show arrayCopy source sourcePos target targetPos length m = _
      unfold arrayCopy
      rw [if_neg (by simp [hs, ht]), bind_get]
      rcases hnone with h | h
      · rw [h]
      · rw [h]
        cases m.arrayOf? source <;> rfl
    rw [hrun]
    exact raise_throws hn _ _
  · have hstart : run = (if !copyable s t then
          raise CoreName.arrayStore (some "arraycopy: type mismatch")
        else if !(inRange sourcePos length ss.size && inRange targetPos length ts.size) then
          raise CoreName.arrayIndexOutOfBounds (some (s!"arraycopy: last source index " ++
            s!"{sourcePos.toInt + length.toInt} out of bounds for length {ss.size}"))
        else do
          let copied := (ss.toList.drop sourcePos.toInt.toNat).take length.toInt.toNat
          let accepted ← acceptedPart t copied
          writeElements target targetPos.toInt.toNat accepted
          if accepted.length < copied.length then
            raise CoreName.arrayStore (some "arraycopy: element type mismatch")) m := by
      show arrayCopy source sourcePos target targetPos length m = _
      unfold arrayCopy
      rw [if_neg (by simp [hs, ht]), bind_get, hss, hts]
    refine ⟨fun hcopyable => ?_, fun hcopyable => ⟨fun hout => ?_, fun hsource htarget => ?_⟩⟩
    · rw [hstart, if_pos (by simp [hcopyable])]
      exact raise_throws hn _ _
    · rw [hstart, if_neg (by simp [hcopyable]), if_pos]
      · exact raise_throws hn _ _
      · rw [← inRange_iff, ← inRange_iff] at hout
        rw [Bool.not_eq_true', Bool.eq_false_iff, ne_eq, Bool.and_eq_true]
        exact hout
    · let copied := (ss.toList.drop sourcePos.toInt.toNat).take length.toInt.toNat
      have hss' : sourcePos.toInt.toNat + length.toInt.toNat ≤ ss.size := by
        unfold Inside at hsource
        omega
      have hts' : targetPos.toInt.toNat + length.toInt.toNat ≤ ts.size := by
        unfold Inside at htarget
        omega
      have hlength : copied.length = length.toInt.toNat := by
        simp only [copied, List.length_take, List.length_drop, Array.length_toList]
        omega
      have hplace : ∀ j < length.toInt.toNat, copied[j]? = ss[sourcePos.toInt.toNat + j]? := by
        intro j hj
        rw [← getElem?_copied (Nat.le_refl length.toInt.toNat) hj, List.take_take, Nat.min_self]
      obtain ⟨c, k, hc, haccepted, hle, htaken, hstop⟩ := acceptedPart_eq t copied m
      rw [hlength] at hle hstop
      obtain ⟨o, d, kind, ho, hd, hdt, he⟩ := of_arrayOf? hts
      have hp : o.payload = .array kind ts := Object.elements?_eq_some.1 he
      obtain ⟨m', hwrite, hcopied⟩ := writeElements_copied hc targetPos.toInt.toNat ho hp
        (narrowed_of_copyable hk hss hts ho hp hcopyable) hle hss' hts'
      have hrun : run = (if k < length.toInt.toNat then
          raise CoreName.arrayStore (some "arraycopy: element type mismatch") else pure ()) m' := by
        have hpart : (copied.take k).length = k := by
          rw [List.length_take, hlength, Nat.min_eq_left hle]
        rw [hstart, if_neg (by simp [hcopyable]), if_neg]
        · rw [bind_of_ok haccepted, bind_of_ok hwrite, hpart, hlength]
        · rw [inRange_iff.2 hsource, inRange_iff.2 htarget]
          decide
      refine ⟨k, m', hle, fun j hj v hv => ?_, fun hlt => ?_, hcopied, fun heq => ?_, fun hlt => ?_⟩
      · refine htaken v (List.mem_of_getElem? (i := j) ?_)
        rw [List.getElem?_take_of_lt hj, hplace j (by omega), hv]
      · obtain ⟨v, hv, hrefused⟩ := hstop hlt
        exact ⟨v, by rw [← hplace k hlt, hv], hrefused⟩
      · rw [hrun, if_neg (by omega)]
        rfl
      · rw [hrun, if_pos hlt]
        have hnext : m'.heap.nextHandle ≠ 0 := by
          rw [hcopied.heap]
          exact hn
        exact raise_throws hnext _ _

/-- Three bytes, in a machine that knows of one class, that of arrays of bytes. -/
def bytesHeap : Heap :=
  { capacity := 0, nextHandle := 2
    objects := (∅ : ObjectMap).insert 1
      { type := 0, weight := 0, payload := .array .byte #[.int 1, .int 2, .int (-3)] } }

def shifting : Machine :=
  { (default : Machine) with
    heap := bytesHeap
    linker := { (default : Linker) with
      classes := { classes := #[{ (default : ClassInfo) with element := some (.primitive .byte) }] } } }

theorem shifting_kinded : shifting.heap.Kinded shifting.classes := by
  intro r o c element kind elements ho hc helement helements
  have hget : shifting.heap.get? r = if (1 : UInt32) = r.handle then
      some { type := 0, weight := 0, payload := .array .byte #[.int 1, .int 2, .int (-3)] } else none :=
    Maps.getElem?_insert_eq _ _ _ _
  rw [hget] at ho
  split at ho
  · cases ho
    cases hc
    cases helement
    cases helements
    exact ⟨rfl, by decide⟩
  · cases ho

/-- The first two of three elements replace the last two. -/
theorem arrayCopy_moves_overlapping : ∃ m', arrayCopy ⟨1⟩ 0 ⟨1⟩ 1 2 shifting = .ok () m' ∧
    Copied shifting #[.int 1, .int 2, .int (-3)] 0 ⟨1⟩ 1 2 m' := by
  have harray : shifting.arrayOf? ⟨1⟩ = some (.primitive .byte, #[.int 1, .int 2, .int (-3)]) := by decide
  obtain ⟨k, m', hle, -, hstop, hcopied, hdone, -⟩ :=
    (((arrayCopy_moves (m := shifting) (by decide) shifting_kinded ⟨1⟩ 0 ⟨1⟩ 1 2).2 (by decide) (by decide)).2
      _ _ _ _ harray harray).2 (by decide) |>.2 (by decide) (by decide)
  have hall : k = 2 := by
    by_contra hk
    obtain ⟨v, -, inner, r, o, helement, -⟩ := hstop (Nat.lt_of_le_of_ne hle hk)
    cases helement
  subst hall
  exact ⟨m', hdone rfl, hcopied⟩

end Machine

end ClassMachine
