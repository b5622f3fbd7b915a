import ClassMachine.Proofs.Link.Requests

/-!
Constant pools as they are built up, and as they come back when a class is loaded. Entries are only added,
so an index stays with its constant. Behind each wide constant there is a slot that holds nothing, and none
anywhere else; so the constants alone say how the pool they were taken from looks. A constant that is put in
is found under the index that is given for it, but for the zeros of floating point: they share an entry.
-/
namespace ClassMachine
open Stateful

namespace Constant

/-- A constant with the slots it takes. -/
def cells (c : Constant) : List Constant := if c.isWide then [c, .unusable] else [c]

/-- The zero of the other sign. -/
def otherZero? : Constant → Option Constant
  | float bits => if bits = 0 then some (float 0x80000000) else if bits = 0x80000000 then some (float 0) else none
  | double bits =>
    if bits = 0 then some (double 0x8000000000000000)
    else if bits = 0x8000000000000000 then some (double 0) else none
  | _ => none

end Constant

namespace ConstantPool
open Constant

/-- The two ways to put a constant into a pool. -/
inductive Addition where
  | push (c : Constant)
  | intern (c : Constant)

namespace Addition

def constant : Addition → Constant
  | push c | intern c => c

def run : Addition → ConstantPool → Nat × ConstantPool
  | push c, p => p.push c
  | intern c, p => p.intern c

end Addition

def addAll (additions : List Addition) (p : ConstantPool) : ConstantPool :=
  additions.foldl (fun p a => (a.run p).2) p

/-- Every index of the first pool has the same entry in the second. -/
def Extends (p p' : ConstantPool) : Prop := ∀ i e, p.get? i = some e → p'.get? i = some e

/-- A pool that a list of constants makes. -/
def Made (p : ConstantPool) : Prop := ∃ cs, .unusable ∉ cs ∧ p = ofConstants cs

section Additions

variable {p p' : ConstantPool} {c : Constant}

theorem entries_push (p : ConstantPool) (c : Constant) :
    (p.push c).2.entries.toList = p.entries.toList ++ c.cells := by
  unfold push cells
  split <;> simp

theorem get?_eq (p : ConstantPool) (i : Nat) : p.get? i = p.entries.toList[i]? := Array.getElem?_toList.symm

theorem ext_toList (h : p.entries.toList = p'.entries.toList) : p = p' := by
  cases p
  cases p'
  exact congrArg ConstantPool.mk (Array.toList_inj.1 h)

/-- An entry is shared or put at the end. -/
theorem intern_cases (p : ConstantPool) (c : Constant) :
    (∃ i e, p.get? (i + 1) = some e ∧ e.same c = true ∧ p.intern c = ((i + 1) % indexLimit, p)) ∨
      p.intern c = p.push c := by
  unfold intern position?
  cases hi : (p.entries.toList.drop 1).findIdx? fun e => e.same c with
  | none => exact .inr rfl
  | some i =>
    obtain ⟨hlt, hsame, -⟩ := List.findIdx?_eq_some_iff_getElem.1 hi
    refine .inl ⟨i, (p.entries.toList.drop 1)[i], ?_, hsame, rfl⟩
    rw [get?_eq, ← List.getElem?_eq_getElem hlt, List.getElem?_drop, Nat.add_comm]

theorem Extends.trans {p₁ p₂ p₃ : ConstantPool} (h : p₁.Extends p₂) (h' : p₂.Extends p₃) : p₁.Extends p₃ :=
  fun i e he => h' i e (h i e he)

theorem extends_push (p : ConstantPool) (c : Constant) : p.Extends (p.push c).2 := by
  intro i e he
  rw [get?_eq] at he ⊢
  rw [entries_push, List.getElem?_append_left (List.getElem?_eq_some_iff.1 he).1, he]

theorem extends_intern (p : ConstantPool) (c : Constant) : p.Extends (p.intern c).2 := by
  rcases p.intern_cases c with ⟨_, _, _, _, hshared⟩ | hpushed
  · rw [hshared]
    exact fun _ _ he => he
  · rw [hpushed]
    exact p.extends_push c

theorem extends_addAll (additions : List Addition) (p : ConstantPool) : p.Extends (addAll additions p) := by
  induction additions generalizing p with
  | nil => exact fun _ _ he => he
  | cons a additions ih =>
    have hone : p.Extends (a.run p).2 := by
      cases a with
      | push c => exact p.extends_push c
      | intern c => exact p.extends_intern c
    exact hone.trans (ih (a.run p).2)

/-- The first slot of a pushed constant is where the pool ended. -/
theorem get?_push (p : ConstantPool) (c : Constant) : (p.push c).2.get? p.size = some c := by
  rw [get?_eq, entries_push, size, ← Array.length_toList, List.getElem?_append_right (Nat.le_refl _),
    Nat.sub_self]
  unfold cells
  split <;> rfl

/-- Whatever index is given has an entry, even where the pool is larger than indices are. -/
theorem exists_get?_intern (p : ConstantPool) (c : Constant) :
    ∃ e, (p.intern c).2.get? (p.intern c).1 = some e := by
  have hwrapped : ∀ {p : ConstantPool} {i e}, p.get? i = some e → ∃ e', p.get? (i % indexLimit) = some e' := by
    intro p i e he
    have hlt : i < p.entries.size := (Array.getElem?_eq_some_iff.1 he).1
    exact ⟨_, Array.getElem?_eq_getElem (Nat.lt_of_le_of_lt (Nat.mod_le i indexLimit) hlt)⟩
  rcases p.intern_cases c with ⟨i, e, he, _, hshared⟩ | hpushed
  · rw [hshared]
    exact hwrapped he
  · rw [hpushed]
    exact hwrapped (p.get?_push c)

end Additions

section Reloading

variable {p : ConstantPool} {c : Constant}

theorem entries_ofConstants (cs : List Constant) :
    (ofConstants cs).entries.toList = .unusable :: cs.flatMap cells := by
  have hpushed : ∀ (cs : List Constant) (p : ConstantPool),
      (cs.foldl (fun p c => (p.push c).2) p).entries.toList = p.entries.toList ++ cs.flatMap cells := by
    intro cs
    induction cs with
    | nil => intro p; simp
    | cons c cs ih => intro p; rw [List.foldl_cons, ih, entries_push, List.flatMap_cons, List.append_assoc]
  exact hpushed cs .empty

/-- What is left of the entries is what they were made of. -/
theorem constants_ofConstants {cs : List Constant} (h : .unusable ∉ cs) : (ofConstants cs).constants = cs := by
  unfold constants
  rw [entries_ofConstants, List.drop_succ_cons, List.drop_zero]
  induction cs with
  | nil => rfl
  | cons c cs ih =>
    obtain ⟨hc, hcs⟩ := List.ne_and_not_mem_of_not_mem_cons h
    have hcells : c.cells.filter (· ≠ .unusable) = [c] := by
      unfold cells
      split <;> simp [Ne.symm hc]
    rw [List.flatMap_cons, List.filter_append, hcells, ih hcs]
    rfl

theorem made_empty : empty.Made := ⟨[], by simp, rfl⟩

theorem Made.push (hp : p.Made) (hc : c ≠ .unusable) : (p.push c).2.Made := by
  obtain ⟨cs, hcs, rfl⟩ := hp
  refine ⟨cs ++ [c], ?_, ?_⟩
  · rw [List.mem_append, List.mem_singleton, not_or]
    exact ⟨hcs, hc.symm⟩
  · unfold ofConstants
    rw [List.foldl_append]
    rfl

theorem Made.intern (hp : p.Made) (hc : c ≠ .unusable) : (p.intern c).2.Made := by
  rcases p.intern_cases c with ⟨_, _, _, _, hshared⟩ | hpushed
  · rw [hshared]
    exact hp
  · rw [hpushed]
    exact hp.push hc

theorem Made.addAll (hp : p.Made) {additions : List Addition} (h : ∀ a ∈ additions, a.constant ≠ .unusable) :
    (addAll additions p).Made := by
  induction additions generalizing p with
  | nil => exact hp
  | cons a additions ih =>
    have hone : (a.run p).2.Made := by
      cases a with
      | push c => exact hp.push (h (.push c) (by simp))
      | intern c => exact hp.intern (h (.intern c) (by simp))
    exact ih hone fun a ha => h a (by simp [ha])

theorem Made.reload (hp : p.Made) : ofConstants p.constants = p := by
  obtain ⟨cs, hcs, rfl⟩ := hp
  rw [constants_ofConstants hcs]

end Reloading

section Sharing

/-- Numbers are equal if they are the same or zeros. -/
theorem zeros_of_equal {f : Floating.Format} {a b : Nat} (ha : a < 2 * f.signBit) (hb : b < 2 * f.signBit)
    (h : f.equal a b = true) : a = b ∨ a = 0 ∧ b = f.signBit ∨ a = f.signBit ∧ b = 0 := by
  have hkeys : f.orderKey a = f.orderKey b := by
    unfold Floating.Format.equal Floating.Format.compare? at h
    split at h
    · cases h
    · simpa using h
  have hmagnitude : ∀ x, x < 2 * f.signBit →
      f.magnitude x = if f.isNegative x then x - f.signBit else x := by
    intro x hx
    unfold Floating.Format.magnitude Floating.Format.isNegative
    split
    · next hneg =>
      have hneg : f.signBit ≤ x := by simpa using hneg
      rw [Nat.mod_eq_sub_mod hneg, Nat.mod_eq_of_lt (by omega)]
    · next hpos =>
      have hpos : x < f.signBit := by simpa using hpos
      exact Nat.mod_eq_of_lt hpos
  unfold Floating.Format.orderKey at hkeys
  rw [hmagnitude a ha, hmagnitude b hb] at hkeys
  unfold Floating.Format.isNegative at hkeys
  simp only [decide_eq_true_eq] at hkeys
  split at hkeys <;> split at hkeys <;> omega

/-- Constants that share an entry are the same, zeros apart. -/
theorem eq_or_otherZero {c e : Constant} (h : e.same c = true) : e = c ∨ c.otherZero? = some e := by
  unfold same at h
  split at h
  · next a b =>
    rcases zeros_of_equal (f := Floating.single) a.toNat_lt b.toNat_lt h with heq | ⟨ha, hb⟩ | ⟨ha, hb⟩
    · exact .inl (congrArg float (UInt32.toNat_inj.1 heq))
    · obtain rfl : a = 0 := UInt32.toNat_inj.1 ha
      obtain rfl : b = 0x80000000 := UInt32.toNat_inj.1 hb
      exact .inr rfl
    · obtain rfl : a = 0x80000000 := UInt32.toNat_inj.1 ha
      obtain rfl : b = 0 := UInt32.toNat_inj.1 hb
      exact .inr rfl
  · next a b =>
    rcases zeros_of_equal (f := Floating.double) a.toNat_lt b.toNat_lt h with heq | ⟨ha, hb⟩ | ⟨ha, hb⟩
    · exact .inl (congrArg double (UInt64.toNat_inj.1 heq))
    · obtain rfl : a = 0 := UInt64.toNat_inj.1 ha
      obtain rfl : b = 0x8000000000000000 := UInt64.toNat_inj.1 hb
      exact .inr rfl
    · obtain rfl : a = 0x8000000000000000 := UInt64.toNat_inj.1 ha
      obtain rfl : b = 0 := UInt64.toNat_inj.1 hb
      exact .inr rfl
  · exact .inl (by simpa using h)

/-- A constant is found under the index that is given for it, or it is a zero and the other one is found,
which was there before. -/
theorem get?_intern {p : ConstantPool} (h : p.size < indexLimit) (c : Constant) :
    ∃ e, (p.intern c).2.get? (p.intern c).1 = some e ∧
      (e = c ∨ c.otherZero? = some e ∧ ∃ i, p.get? i = some e) := by
  rcases p.intern_cases c with ⟨i, e, he, hsame, hshared⟩ | hpushed
  · have hlt : i + 1 < p.size := (Array.getElem?_eq_some_iff.1 he).1
    rw [hshared]
    refine ⟨e, by rwa [Nat.mod_eq_of_lt (Nat.lt_trans hlt h)], ?_⟩
    exact (eq_or_otherZero hsame).imp_right fun hzero => ⟨hzero, i + 1, he⟩
  · rw [hpushed]
    refine ⟨c, ?_, .inl rfl⟩
    show (p.push c).2.get? (p.size % indexLimit) = some c
    rw [Nat.mod_eq_of_lt h, get?_push]

end Sharing

end ConstantPool

namespace ClassBuilder

/-- What a builder starts from. -/
inductive Begins : ClassBuilder → Prop
  | name (name : String) : Begins (ofName name)
  | interface (name : String) : Begins (ofInterface name)

/-- What may be asked of a builder. -/
inductive Call where
  | extending (superName : String)
  | implementing (interface : String)
  | withFlags (flags : AccessFlags)
  | field (name descriptor : String) (flags : AccessFlags)
  | method (name descriptor : String) (flags : AccessFlags) (code : RawCode)
  | nativeMethod (name descriptor : String) (flags : AccessFlags)
  | abstractMethod (name descriptor : String)
  | constant (c : Constant)

def Call.run : Call → ClassBuilder → ClassBuilder
  | extending superName, b => b.extending superName
  | implementing interface, b => b.implementing interface
  | withFlags flags, b => b.withFlags flags
  | field name descriptor flags, b => b.field name descriptor flags
  | method name descriptor flags code, b => b.method name descriptor flags code
  | nativeMethod name descriptor flags, b => b.nativeMethod name descriptor flags
  | abstractMethod name descriptor, b => b.abstractMethod name descriptor
  | constant c, b => (b.constant c).2

/-- A call that names something. -/
def Call.Names (c : Call) : Prop := c ≠ .constant .unusable

/-- What a call puts into the pool. -/
def Call.additions : Call → List ConstantPool.Addition
  | constant c => [.intern c]
  | _ => []

def runAll (calls : List Call) (b : ClassBuilder) : ClassBuilder := calls.foldl (fun b call => call.run b) b

section Calls

variable {b : ClassBuilder}

theorem pool_runAll (calls : List Call) (b : ClassBuilder) :
    (runAll calls b).pool = ConstantPool.addAll (calls.flatMap Call.additions) b.pool := by
  induction calls generalizing b with
  | nil => rfl
  | cons call calls ih =>
    show (runAll calls (call.run b)).pool = _
    rw [ih]
    cases call <;> rfl

theorem made_runAll (hb : b.pool.Made) {calls : List Call} (h : ∀ call ∈ calls, call.Names) :
    (runAll calls b).pool.Made := by
  rw [pool_runAll]
  refine hb.addAll fun a ha => ?_
  obtain ⟨call, hcall, ha⟩ := List.mem_flatMap.1 ha
  cases call with
  | constant c =>
    obtain rfl : a = .intern c := List.mem_singleton.1 ha
    exact fun hc => h _ hcall (congrArg Call.constant hc)
  | _ => cases ha

theorem Begins.made (h : b.Begins) : b.pool.Made := by
  cases h with
  | name name => exact ConstantPool.made_empty
  | interface name => exact ConstantPool.made_empty

end Calls

/-- A class has the pool of the builder it came from, for good. -/
theorem pool_registered {b : ClassBuilder} (hb : b.pool.Made) {l l' : Linker} {id : ClassId}
    (hregister : (ClassTable.register b.build l.classes).1 = .ok id)
    (hleads : ((Linker.Request.register b.build).run l).Leads l') :
    ∃ info, l'.classes.get? id = some info ∧ info.pool = b.pool := by
  obtain ⟨c, hc, hdeclared⟩ := ClassTable.get?_register hregister
  obtain ⟨info, hinfo, hkept⟩ := hleads.keeps id c hc
  refine ⟨info, hinfo, ConstantPool.ext_toList ?_⟩
  have hentries := congrArg ClassDefinition.constants (hkept.trans hdeclared)
  calc info.pool.entries.toList = (ConstantPool.ofConstants b.pool.constants).entries.toList := hentries
    _ = b.pool.entries.toList := by rw [hb.reload]

theorem runAll_constant {calls : List Call} {c : Constant} {b handing : ClassBuilder} {index : Nat}
    (more : List Call) (h : (runAll calls b).constant c = (index, handing)) :
    runAll (calls ++ .constant c :: more) b = runAll more handing := by
  obtain rfl : ((runAll calls b).constant c).2 = handing := congrArg Prod.snd h
  unfold runAll
  rw [List.foldl_append]
  rfl

/-- Pools are what they were when they are made anew from their constants. So whenever a builder gives an
index, the class that comes of the builder has the same constant there. -/
theorem indices_survive :
    (∀ additions : List ConstantPool.Addition, (∀ a ∈ additions, a.constant ≠ .unusable) →
      let p := ConstantPool.addAll additions .empty
      (ConstantPool.ofConstants p.constants).size = p.size ∧
        ∀ i, (ConstantPool.ofConstants p.constants).get? i = p.get? i) ∧
    ∀ (b handing : ClassBuilder) (calls more : List Call) (c : Constant) (index : Nat), b.Begins →
      (∀ call ∈ calls ++ .constant c :: more, call.Names) → (runAll calls b).constant c = (index, handing) →
      ∀ (l l' : Linker) (id : ClassId),
        (ClassTable.register (runAll more handing).build l.classes).1 = .ok id →
        ((Linker.Request.register (runAll more handing).build).run l).Leads l' →
        ∃ info e, l'.classes.get? id = some info ∧ (∀ i, info.pool.get? i = (runAll more handing).pool.get? i) ∧
          handing.pool.get? index = some e ∧ info.pool.get? index = some e := by
  refine ⟨fun additions h => ?_, fun b handing calls more c index hb h hgiven l l' id hregister hleads => ?_⟩
  · intro p
    rw [(ConstantPool.made_empty.addAll h : p.Made).reload]
    exact ⟨rfl, fun _ => rfl⟩
  · have hmade : (runAll more handing).pool.Made := runAll_constant more hgiven ▸ made_runAll hb.made h
    obtain ⟨info, hinfo, hpool⟩ := pool_registered hmade hregister hleads
    obtain ⟨e, he⟩ := (runAll calls b).pool.exists_get?_intern c
    cases hgiven
    refine ⟨info, e, hinfo, fun i => by rw [hpool], he, ?_⟩
    rw [hpool, pool_runAll]
    exact ConstantPool.extends_addAll _ _ _ e he

/-- A class with a text between two wide constants. -/
def textWithin : ClassBuilder := runAll [.constant (.string "x"), .constant (.double 0)]
  (runAll [.constant (.long 5)] (ofName "Text"))

theorem indices_survive_text :
    (∀ i, (ConstantPool.ofConstants (ConstantPool.addAll [.push (.long 5), .push (.long 5), .intern (.string "x")]
      .empty).constants).get? i =
      (ConstantPool.addAll [.push (.long 5), .push (.long 5), .intern (.string "x")] .empty).get? i) ∧
    ∃ info, (ClassTable.register textWithin.build {}).2.get? 0 = some info ∧
      info.pool.get? 3 = some (.string "x") ∧ ∀ i, info.pool.get? i = textWithin.pool.get? i := by
  have hnamed : ∀ call ∈ [Call.constant (.long 5)] ++ .constant (.string "x") :: [.constant (.double 0)],
      call.Names := by
    intro call hcall heq
    simp [heq] at hcall
  have hregister : (ClassTable.register textWithin.build ({} : Linker).classes).1 = .ok 0 :=
    except_of_toOption (by decide +kernel)
  refine ⟨(indices_survive.1 _ (by decide)).2, ?_⟩
  obtain ⟨info, e, hinfo, hsame, hgiven, he⟩ := indices_survive.2 _ _ _ [.constant (.double 0)] _ 3
    (.name "Text") hnamed rfl {} _ 0 hregister .refl
  have hgot : ((runAll [.constant (.long 5)] (ofName "Text")).constant (.string "x")).2.pool.get? 3 =
      some (.string "x") := rfl
  cases hgot.symm.trans hgiven
  exact ⟨info, hinfo, he, hsame⟩

end ClassBuilder
end ClassMachine
