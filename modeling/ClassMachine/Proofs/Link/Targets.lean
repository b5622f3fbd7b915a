import ClassMachine.Proofs.Link.Forms
import ClassMachine.Proofs.Link.Splitting

/-!
The second pass of decoding. What the first pass checked about an instruction's length covers every
operand read from it, and the indices that branches, switches and handlers carry are those of the
instructions at the byte offsets they name.
-/
namespace ClassMachine
open Stateful

/-- Instructions a decoded one may jump to. -/
def Operation.targets : Operation → List Nat
  | .plain i => i.branchTargets
  | _ => []

/-- Only complete instructions jump, and they are linked as they are. -/
theorem Operation.Form.branchTargets {pool : ConstantPool} {op : Operation} {i : Instruction}
    (h : op.Form pool i) : i.branchTargets = op.targets := by
  have hplaceholder : i.IsPlaceholder → i.branchTargets = [] := by
    rintro ⟨symbol, rfl⟩
    rfl
  cases op with
  | plain j => rw [show i = j from h]; rfl
  | loadConstant index wide =>
    obtain ⟨c, _, hloads⟩ := h
    unfold Constant.Loads at hloads
    split at hloads
    · rw [hloads]; rfl
    · rw [hloads]; rfl
    · rw [hloads]; rfl
    · rw [hloads]; rfl
    · rw [hloads]; rfl
    · obtain ⟨id, rfl⟩ | hi := hloads
      · rfl
      · exact hplaceholder hi
    · exact hloads.elim
  | staticField index put =>
    obtain ⟨member, type, _, ⟨owner, slot, rfl⟩ | hi⟩ := h
    · cases put <;> rfl
    · exact hplaceholder hi
  | instanceField index put =>
    obtain ⟨member, type, _, rfl | ⟨slot, rfl⟩ | hi⟩ := h
    · cases put <;> rfl
    · cases put <;> rfl
    · exact hplaceholder hi
  | invoke kind index =>
    obtain ⟨member, d, _, hcalls | hi⟩ := h
    · cases kind with
      | virtual =>
        obtain ⟨signature, rfl⟩ := hcalls
        split <;> rfl
      | special => obtain ⟨method, rfl⟩ := hcalls; rfl
      | static => obtain ⟨method, rfl⟩ := hcalls; rfl
      | interface => obtain ⟨signature, rfl⟩ := hcalls; rfl
    · exact hplaceholder hi
  | classUse use index =>
    obtain ⟨name, _, ⟨id, rfl⟩ | hi⟩ := h
    · cases use <;> rfl
    · exact hplaceholder hi

namespace Opcode

/-- Bytes read after an opcode other than a switch or a prefix. -/
def operands (n : Nat) : Nat :=
  if n = 0x10 ∨ n = 0x12 ∨ (0x15 ≤ n ∧ n ≤ 0x19) ∨ (0x36 ≤ n ∧ n ≤ 0x3a) ∨ n = 0xbc then 1
  else if n = 0x11 ∨ n = 0x13 ∨ n = 0x14 ∨ n = 0x84 ∨ (0x99 ≤ n ∧ n ≤ 0xa7) ∨ (0xb2 ≤ n ∧ n ≤ 0xb9) ∨
      n = 0xbb ∨ n = 0xbd ∨ n = 0xc0 ∨ n = 0xc1 ∨ n = 0xc6 ∨ n = 0xc7 then 2
  else if n = 0xc5 then 3
  else if n = 0xc8 then 4
  else 0

theorem operands_one {n : Nat}
    (h : n = 0x10 ∨ n = 0x12 ∨ (0x15 ≤ n ∧ n ≤ 0x19) ∨ (0x36 ≤ n ∧ n ≤ 0x3a) ∨ n = 0xbc) :
    operands n = 1 := by
  rw [operands, if_pos h]

theorem operands_two {n : Nat} (h : n = 0x11 ∨ n = 0x13 ∨ n = 0x14 ∨ n = 0x84 ∨ (0x99 ≤ n ∧ n ≤ 0xa7) ∨
    (0xb2 ≤ n ∧ n ≤ 0xb9) ∨ n = 0xbb ∨ n = 0xbd ∨ n = 0xc0 ∨ n = 0xc1 ∨ n = 0xc6 ∨ n = 0xc7) :
    operands n = 2 := by
  rw [operands, if_neg (by omega), if_pos h]

/-- The fixed lengths leave room for the operands. -/
theorem operands_lt {op : UInt8} {k : Nat} (h : fixedLength? op = some k) : operands op.toNat < k := by
  have all : ∀ n < 256, ∀ k ∈ fixedLength? (UInt8.ofNat n), operands n < k := by decide +kernel
  have := all op.toNat op.toNat_lt k
  simpa [h] using this

end Opcode

namespace Decoding
open Bytes

/-- An outcome that stays inside the body, with a result as `P` says. -/
def Within {α : Type} (P : α → Prop) (x : Except LinkError α) : Prop := Inside x ∧ ∀ a, x = .ok a → P a

namespace Within

variable {α β : Type} {P : α → Prop}

theorem pure {a : α} (h : P a) : Within P (pure a) := ⟨.pure a, fun _ heq => Except.ok.inj heq ▸ h⟩

theorem bind {x : Except LinkError β} {f : β → Except LinkError α} (hx : Inside x)
    (hf : ∀ b, x = .ok b → Within P (f b)) : Within P (x >>= f) := by
  constructor
  · exact hx.bind fun b hb => (hf b hb).1
  · intro a ha
    obtain ⟨b, hb, ha⟩ := except_bind_ok.1 ha
    exact (hf b hb).2 a ha

theorem error {e : LinkError} (h : ∀ i, e ≠ .outside i) : Within P (.error e : Except LinkError α) :=
  ⟨fun i heq => h i (Except.error.inj heq), fun _ heq => by cases heq⟩

theorem ite {c : Prop} [Decidable c] {x y : Except LinkError α} (hx : c → Within P x)
    (hy : ¬ c → Within P y) : Within P (if c then x else y) := by
  by_cases h : c
  · simpa [h] using hx h
  · simpa [h] using hy h

theorem mono {x : Except LinkError α} {Q : α → Prop} (h : Within P x) (hPQ : ∀ a, P a → Q a) : Within Q x :=
  ⟨h.1, fun a ha => hPQ a (h.2 a ha)⟩

end Within

theorem inside_mapM {α β : Type} {f : α → Except LinkError β} {xs : List α}
    (h : ∀ x ∈ xs, Inside (f x)) : Inside (xs.mapM f) := by
  induction xs with
  | nil => exact .pure _
  | cons x xs ih =>
    rw [List.mapM_cons]
    apply (h x (by simp)).bind
    intro y _
    exact (ih fun x' hx' => h x' (by simp [hx'])).bind fun _ _ => .pure _

section Lengths

variable {code : Array UInt8} {pc n : Nat}

/-- The operands of an instruction with a fixed length lie inside the body. -/
theorem operands_fit (hn : instructionLength code pc = .ok n) {op : UInt8} (hop : code[pc]? = some op) :
    pc + 1 + Opcode.operands op.toNat ≤ code.size := by
  obtain ⟨op', hop', hclaimed, hfits⟩ := instructionLength_ok.1 hn
  have heq : op = op' := by
    rw [hop, Option.some.injEq] at hop'
    exact hop'
  subst heq
  have hpos := instructionLength_pos hn
  unfold claimedLength at hclaimed
  split at hclaimed
  · next k hk =>
    cases hclaimed
    have := Opcode.operands_lt hk
    omega
  · next hnone =>
    have hzero : ∀ n < 256, Opcode.fixedLength? (UInt8.ofNat n) = none → Opcode.operands n = 0 := by
      decide +kernel
    have := hzero op.toNat op.toNat_lt (by simpa using hnone)
    omega

end Lengths

section Operands

variable {code : Array UInt8} {pc n : Nat} (hroom : pc + 1 + Opcode.operands n ≤ code.size)
include hroom

theorem simple_within : Within (fun op => op.targets = []) (simple code pc n) := by
  have hone := Opcode.operands_one (n := n)
  have htwo := Opcode.operands_two (n := n)
  unfold simple
  iterate 6 refine .ite (fun _ => .pure rfl) fun _ => ?_
  refine .ite (fun _ => .bind (signed8_inside (by omega)) fun _ _ => .pure rfl) fun _ => ?_
  refine .ite (fun _ => .bind (signed16_inside (by omega)) fun _ _ => .pure rfl) fun _ => ?_
  refine .ite (fun _ => .bind (natAt_inside (by omega)) fun _ _ => .pure rfl) fun _ => ?_
  refine .ite (fun _ => .bind (word16_inside (by omega)) fun _ _ => .pure rfl) fun _ => ?_
  refine .ite (fun _ => .bind (word16_inside (by omega)) fun _ _ => .pure rfl) fun _ => ?_
  refine .ite (fun _ => .bind (natAt_inside (by omega)) fun _ _ => .pure rfl) fun _ => ?_
  iterate 2 refine .ite (fun _ => .pure rfl) fun _ => ?_
  refine .ite (fun _ => .bind (natAt_inside (by omega)) fun _ _ => .pure rfl) fun _ => ?_
  iterate 2 refine .ite (fun _ => .pure rfl) fun _ => ?_
  exact .pure rfl

theorem numeric_within : Within (fun i => i.branchTargets = []) (numeric code pc n) := by
  have htwo := Opcode.operands_two (n := n)
  unfold numeric
  iterate 4 refine .ite (fun _ => .pure rfl) fun _ => ?_
  refine .ite (fun _ => ?_) fun _ => ?_
  · apply Within.bind (natAt_inside (by omega))
    intro index _
    exact .bind (signed8_inside (by omega)) fun _ _ => .pure rfl
  iterate 2 refine .ite (fun _ => .pure rfl) fun _ => ?_
  exact .pure rfl

theorem symbolic_within (hrange : 0xb2 ≤ n) : Within (fun op => op.targets = []) (symbolic code pc n) := by
  have hone := Opcode.operands_one (n := n)
  have htwo := Opcode.operands_two (n := n)
  unfold symbolic
  dsimp only
  iterate 5 refine .ite (fun _ => .bind (word16_inside (by omega)) fun _ _ => .pure rfl) fun _ => ?_
  refine .ite (fun _ => .bind (word16_inside (by omega)) fun _ _ => .pure rfl) fun _ => ?_
  refine .ite (fun _ => ?_) fun _ => ?_
  · apply Within.bind (byteAt_inside (by omega))
    intro type _
    split
    · exact .pure rfl
    · exact .error fun i => by simp
  refine .ite (fun _ => .bind (word16_inside (by omega)) fun _ _ => .pure rfl) fun _ => ?_
  iterate 2 refine .ite (fun _ => .pure rfl) fun _ => ?_
  iterate 2 refine .ite (fun _ => .bind (word16_inside (by omega)) fun _ _ => .pure rfl) fun _ => ?_
  refine .ite (fun _ => .pure rfl) fun _ => ?_
  exact .pure rfl

end Operands

theorem wide_within {b : Body} {pc n : Nat} (hn : wideLength b.code pc = .ok n)
    (hfits : pc + n ≤ b.code.size) : Within (fun i => i.branchTargets = []) (wide b pc) := by
  obtain ⟨inner, hinner, hlength⟩ := wideLength_ok.1 hn
  have hfour : 4 ≤ n := by
    unfold wideLength? at hlength
    split_ifs at hlength <;> simp at hlength <;> omega
  apply Within.bind (byteAt_inside (by omega))
  intro inner' hinner'
  have heq : inner' = inner := by
    rw [byteAt_eq_ok, hinner] at hinner'
    exact (Option.some.inj hinner').symm
  subst heq
  apply Within.bind (word16_inside (by omega))
  intro index _
  refine .ite (fun h84 => ?_) fun _ => ?_
  · have hsix : n = 6 := by
      rw [wideLength?, if_pos h84] at hlength
      exact (Option.some.inj hlength).symm
    exact .bind (signed16_inside (by omega)) fun _ _ => .pure rfl
  refine .ite (fun _ => .pure rfl) fun _ => ?_
  refine .ite (fun _ => .pure rfl) fun _ => ?_
  exact .error fun i => by simp

/-- Distances that the operands of the instruction at `pc` stand for, the default of a switch last. -/
def distances (code : Array UInt8) (pc : Nat) : Except LinkError (List Int) := do
  let n ← natAt code pc
  let base := switchBase pc
  if (0x99 ≤ n ∧ n ≤ 0xa8) ∨ n = 0xc6 ∨ n = 0xc7 then return [← signed16 code (pc + 1)]
  else if n = 0xc8 ∨ n = 0xc9 then return [← signed32 code (pc + 1)]
  else if n = 0xaa then
    let low ← signed32 code (base + 4)
    let high ← signed32 code (base + 8)
    let entries ← (List.range' 0 (high - low + 1).toNat).mapM fun i => signed32 code (base + 12 + 4 * i)
    return entries ++ [← signed32 code base]
  else if n = 0xab then
    let count ← signed32 code (base + 4)
    let entries ← (List.range' 0 count.toNat).mapM fun i => signed32 code (base + 12 + 8 * i)
    return entries ++ [← signed32 code base]
  else return []

/-- The targets are the instructions at the distances. -/
def Aims (b : Body) (pc : Nat) (targets : List Nat) : Prop :=
  ∃ ds, distances b.code pc = .ok ds ∧ List.Forall₂ (fun d t => b.target pc d = .ok t) ds targets

theorem tableTargets_eq (b : Body) (pc base count i : Nat) : tableTargets b pc base count i =
    (List.range' i count).mapM fun j => signed32 b.code (base + 12 + 4 * j) >>= b.target pc := by
  induction count generalizing i with
  | zero => rfl
  | succ count ih => simp [tableTargets, List.range'_succ, ih]

theorem lookupPairs_eq (b : Body) (pc base count i : Nat) : lookupPairs b pc base count i =
    (List.range' i count).mapM fun j => do
      let key ← signed32 b.code (base + 8 + 8 * j)
      let t ← b.target pc (← signed32 b.code (base + 8 + 8 * j + 4))
      return (Int32.ofInt key, t) := by
  induction count generalizing i with
  | zero => rfl
  | succ count ih => simp [lookupPairs, List.range'_succ, ih]

section Flow

variable {code : Array UInt8} {pcs : List Nat} {pc n : Nat}

theorem aims_short {b : Body} {d : Int} {t : Nat} (hn : natAt b.code pc = .ok n)
    (hshort : (0x99 ≤ n ∧ n ≤ 0xa8) ∨ n = 0xc6 ∨ n = 0xc7) (hd : signed16 b.code (pc + 1) = .ok d)
    (ht : b.target pc d = .ok t) : Aims b pc [t] := by
  refine ⟨[d], ?_, .cons ht .nil⟩
  unfold distances
  rw [except_bind_of_ok hn, if_pos hshort, except_bind_of_ok hd]
  rfl

theorem aims_none {b : Body} (hn : natAt b.code pc = .ok n)
    (hplain : n < 0x99 ∨ (0xac ≤ n ∧ n ≤ 0xc5)) : Aims b pc [] := by
  refine ⟨[], ?_, .nil⟩
  unfold distances
  rw [except_bind_of_ok hn, if_neg (by omega), if_neg (by omega), if_neg (by omega), if_neg (by omega)]
  rfl

/-- Every branch of sixteen bits reads its distance and looks it up. -/
theorem shortTarget_within {α : Type} {P : α → Prop} {f : Nat → α} (hsize : pc + 3 ≤ code.size)
    (hP : ∀ d t, signed16 code (pc + 1) = .ok d → (Body.ofStarts code pcs).target pc d = .ok t → P (f t)) :
    Within P (do return f (← shortTarget (Body.ofStarts code pcs) pc)) := by
  have hshort : Inside (shortTarget (Body.ofStarts code pcs) pc) :=
    (signed16_inside (by simp; omega)).bind fun d _ => target_inside pc d
  apply Within.bind hshort
  intro t ht
  obtain ⟨d, hd, ht⟩ := except_bind_ok.1 ht
  exact .pure (hP d t hd ht)

theorem tableSwitch_within (hop : natAt code pc = .ok 0xaa) (hn : tableLength code pc = .ok n)
    (hfits : pc + n ≤ code.size) :
    Within (fun i => Aims (Body.ofStarts code pcs) pc i.branchTargets)
      (tableSwitch (Body.ofStarts code pcs) pc) := by
  obtain ⟨hsize, low, high, hlow, hhigh, hrange, rfl⟩ := tableLength_ok.1 hn
  have hbase := lt_switchBase pc
  unfold tableSwitch
  simp only [Body.ofStarts_code]
  apply Within.bind (signed32_inside (by omega))
  intro d hd
  apply Within.bind (target_inside pc d)
  intro default hdefault
  rw [except_bind_of_ok hlow, except_bind_of_ok hhigh, tableTargets_eq]
  apply Within.bind
  · apply inside_mapM
    intro j hj
    have hj := List.mem_range'_1.1 hj
    exact (signed32_inside (by simp; omega)).bind fun d _ => target_inside pc d
  intro targets htargets
  simp only [Lists.mapM_ok, except_bind_ok, Body.ofStarts_code] at htargets
  obtain ⟨ds, hds, htargets⟩ := Lists.forall₂_through htargets
  refine .pure ⟨ds ++ [d], ?_, List.rel_append htargets (.cons hdefault .nil)⟩
  unfold distances
  rw [Body.ofStarts_code, except_bind_of_ok hop]
  simp only [Nat.reduceLeDiff, Nat.reduceEqDiff, and_false, or_self, if_false, if_true]
  rw [except_bind_of_ok hlow, except_bind_of_ok hhigh, except_bind_of_ok (Lists.mapM_ok.2 hds),
    except_bind_of_ok hd]
  rfl

theorem lookupSwitch_within (hop : natAt code pc = .ok 0xab) (hn : lookupLength code pc = .ok n)
    (hfits : pc + n ≤ code.size) :
    Within (fun i => Aims (Body.ofStarts code pcs) pc i.branchTargets)
      (lookupSwitch (Body.ofStarts code pcs) pc) := by
  obtain ⟨hsize, count, hcount, hrange, rfl⟩ := lookupLength_ok.1 hn
  have hbase := lt_switchBase pc
  unfold lookupSwitch
  simp only [Body.ofStarts_code]
  apply Within.bind (signed32_inside (by omega))
  intro d hd
  apply Within.bind (target_inside pc d)
  intro default hdefault
  rw [except_bind_of_ok hcount, lookupPairs_eq]
  apply Within.bind
  · apply inside_mapM
    intro j hj
    have hj := List.mem_range'_1.1 hj
    apply (signed32_inside (by simp; omega)).bind
    intro key _
    apply (signed32_inside (by simp; omega)).bind
    intro d _
    exact (target_inside pc d).bind fun _ _ => .pure _
  intro pairs hpairs
  have hentries : List.Forall₂ (fun j (p : Int32 × Nat) => ∃ d,
      signed32 code (switchBase pc + 12 + 8 * j) = .ok d ∧ (Body.ofStarts code pcs).target pc d = .ok p.2)
      (List.range' 0 count.toNat) pairs := by
    apply (Lists.mapM_ok.1 hpairs).imp
    intro j p hp
    obtain ⟨key, _, hp⟩ := except_bind_ok.1 hp
    obtain ⟨d, hd, hp⟩ := except_bind_ok.1 hp
    obtain ⟨t, ht, hp⟩ := except_bind_ok.1 hp
    cases hp
    rw [show switchBase pc + 8 + 8 * j + 4 = switchBase pc + 12 + 8 * j by omega] at hd
    exact ⟨d, hd, ht⟩
  obtain ⟨ds, hds, htargets⟩ := Lists.forall₂_through hentries
  have htargets : List.Forall₂ (fun d t => (Body.ofStarts code pcs).target pc d = .ok t) ds (pairs.map (·.2)) :=
    List.forall₂_map_right_iff.2 htargets
  refine .pure ⟨ds ++ [d], ?_, List.rel_append htargets (.cons hdefault .nil)⟩
  unfold distances
  rw [Body.ofStarts_code, except_bind_of_ok hop]
  simp only [Nat.reduceLeDiff, Nat.reduceEqDiff, and_false, or_self, if_false, if_true]
  rw [except_bind_of_ok hcount, except_bind_of_ok (Lists.mapM_ok.2 hds), except_bind_of_ok hd]
  rfl

theorem flow_within {op : UInt8} (hop : code[pc]? = some op) (hlow : 0x99 ≤ op.toNat) (hhigh : op.toNat ≤ 0xb1)
    (hclaimed : claimedLength code pc op = .ok n) (hfits : pc + n ≤ code.size)
    (hroom : pc + 1 + Opcode.operands op.toNat ≤ code.size) (hsupported : op.toNat ≠ 0xa8 ∧ op.toNat ≠ 0xa9) :
    Within (fun i => Aims (Body.ofStarts code pcs) pc i.branchTargets)
      (flow (Body.ofStarts code pcs) pc op.toNat) := by
  have hnat : natAt (Body.ofStarts code pcs).code pc = .ok op.toNat := natAt_of_get hop
  have htwo := Opcode.operands_two (n := op.toNat)
  unfold flow
  refine .ite (fun _ => shortTarget_within (by omega) fun d t => aims_short hnat (by omega)) fun _ => ?_
  refine .ite (fun _ => shortTarget_within (by omega) fun d t => aims_short hnat (by omega)) fun _ => ?_
  refine .ite (fun _ => shortTarget_within (by omega) fun d t => aims_short hnat (by omega)) fun _ => ?_
  refine .ite (fun _ => shortTarget_within (by omega) fun d t => aims_short hnat (by omega)) fun _ => ?_
  refine .ite (fun htable => ?_) fun _ => ?_
  · have heq : op = 0xaa := UInt8.toNat_inj.1 htable
    subst heq
    exact tableSwitch_within hnat hclaimed hfits
  refine .ite (fun hlookup => ?_) fun _ => ?_
  · have heq : op = 0xab := UInt8.toNat_inj.1 hlookup
    subst heq
    exact lookupSwitch_within hnat hclaimed hfits
  refine .ite (fun _ => .pure (aims_none hnat (by omega))) fun _ => ?_
  refine .ite (fun _ => .pure (aims_none hnat (by omega))) fun _ => ?_
  exact .pure (aims_none hnat (by omega))

end Flow

/-- What the first pass found covers all that the second reads, and a decoded instruction aims where
its operands say. -/
theorem operation_within {code : Array UInt8} {pcs : List Nat} {pc n : Nat}
    (hn : instructionLength code pc = .ok n) :
    Within (fun op => Aims (Body.ofStarts code pcs) pc op.targets)
      (operation (Body.ofStarts code pcs) pc) := by
  obtain ⟨op, hop, hclaimed, hfits⟩ := instructionLength_ok.1 hn
  have hroom := operands_fit hn hop
  have hnat : natAt (Body.ofStarts code pcs).code pc = .ok op.toNat := natAt_of_get hop
  have htwo := Opcode.operands_two (n := op.toNat)
  have hlt := op.toNat_lt
  have hpos := instructionLength_pos hn
  unfold operation
  simp only [Body.ofStarts_code]
  rw [except_bind_of_ok (byteAt_eq_ok.2 hop)]
  refine .ite (fun _ => .error fun i => by simp) fun _ => ?_
  refine .ite (fun _ => ?_) fun _ => ?_
  · apply (simple_within hroom).mono
    intro o ho
    rw [ho]
    exact aims_none hnat (by omega)
  refine .ite (fun _ => ?_) fun _ => ?_
  · apply Within.bind (numeric_within hroom).1
    intro i hi
    apply Within.pure
    rw [show (Operation.plain i).targets = [] from (numeric_within hroom).2 i hi]
    exact aims_none hnat (by omega)
  refine .ite (fun _ => ?_) fun _ => ?_
  · have hflow : Within (fun i => Aims (Body.ofStarts code pcs) pc i.branchTargets)
        (flow (Body.ofStarts code pcs) pc op.toNat) :=
      flow_within hop (by omega) (by omega) hclaimed hfits hroom (by omega)
    exact .bind hflow.1 fun i hi => .pure (hflow.2 i hi)
  refine .ite (fun _ => ?_) fun _ => ?_
  · apply (symbolic_within hroom (by omega)).mono
    intro o ho
    rw [ho]
    exact aims_none hnat (by omega)
  refine .ite (fun hwide => ?_) fun _ => ?_
  · have heq : op = 0xc4 := UInt8.toNat_inj.1 hwide
    subst heq
    have hwithin := wide_within (b := Body.ofStarts code pcs) hclaimed hfits
    apply Within.bind hwithin.1
    intro i hi
    apply Within.pure
    rw [show (Operation.plain i).targets = [] from hwithin.2 i hi]
    exact aims_none hnat (by simp)
  refine .ite (fun hmulti => ?_) fun _ => ?_
  · have hthree : Opcode.operands op.toNat = 3 := by rw [hmulti]; rfl
    apply Within.bind (natAt_inside (by omega))
    intro dims _
    apply Within.bind (word16_inside (by omega))
    intro index _
    refine .ite (fun _ => .error fun i => by simp) fun _ => ?_
    exact .pure (aims_none hnat (by omega))
  refine .ite (fun _ => shortTarget_within (by omega) fun d t => aims_short hnat (by omega)) fun _ => ?_
  refine .ite (fun hgoto => ?_) fun _ => .error fun i => by simp
  have hfour : Opcode.operands op.toNat = 4 := by rw [hgoto]; rfl
  apply Within.bind (signed32_inside (by omega))
  intro d hd
  apply Within.bind (target_inside pc d)
  intro t ht
  refine .pure ⟨[d], ?_, .cons ht .nil⟩
  unfold distances
  rw [except_bind_of_ok hnat, if_neg (by omega), if_pos (by omega), Body.ofStarts_code, except_bind_of_ok hd]
  rfl

end Decoding

namespace LinkM

/-- A computation that fails with nothing but errors of the body itself. -/
def StaysInside {α : Type} (x : LinkM α) : Prop :=
  ∀ l, Ends (x l) (fun _ _ => True) fun e _ => ∀ i, e ≠ .outside i

namespace StaysInside

variable {α β : Type}

theorem pure (a : α) : StaysInside (pure a) := fun _ => trivial

theorem throw {e : LinkError} (h : ∀ i, e ≠ .outside i) : StaysInside (throw e : LinkM α) := fun _ => h

theorem bind {x : LinkM α} {f : α → LinkM β} (hx : StaysInside x) (hf : ∀ a, StaysInside (f a)) :
    StaysInside (x >>= f) := fun l => Ends.bind (hx l) fun a l' _ => hf a l'

theorem get {f : Linker → LinkM β} (hf : ∀ l, StaysInside (f l)) : StaysInside (get >>= f) := fun l => hf l l

theorem ofState {x : StateM Linker α} {f : α → LinkM β} (hf : ∀ a, StaysInside (f a)) :
    StaysInside (LinkM.ofState x >>= f) := fun l => hf (x l).1 (x l).2

theorem ofClasses {x : StateM ClassTable α} {f : α → LinkM β} (hf : ∀ a, StaysInside (f a)) :
    StaysInside (LinkM.ofClasses x >>= f) := ofState hf

theorem ofExcept {x : Except LinkError α} {f : α → LinkM β} (hx : Inside x)
    (hf : ∀ a, x = .ok a → StaysInside (f a)) : StaysInside (LinkM.ofExcept x >>= f) := by
  cases x with
  | ok a => exact hf a rfl
  | error e => exact fun _ i h => hx i (congrArg Except.error h)

end StaysInside

end LinkM

namespace SymbolSite
open LinkM

variable (s : SymbolSite) (index : Nat)

theorem constant_inside : Inside (s.constant index) := by
  unfold constant
  split <;> simp [Inside]

theorem className_inside : Inside (s.className index) := by
  apply (s.constant_inside index).bind
  intro c _
  split
  · exact .pure _
  · simp [Inside, wrongConstant]

theorem fieldMember_inside : Inside (s.fieldMember index) := by
  apply (s.constant_inside index).bind
  intro c _
  split
  · exact .pure _
  · simp [Inside, wrongConstant]

theorem methodMember_inside : Inside (s.methodMember index) := by
  apply (s.constant_inside index).bind
  intro c _
  split
  · exact .pure _
  · exact .pure _
  · simp [Inside, wrongConstant]

theorem fieldType_inside (member : MemberRef) : Inside (s.fieldType index member) := by
  unfold fieldType
  cases FieldType.parse member.descriptor <;> simp [Inside, Except.mapError]

theorem methodDescriptor_inside (member : MemberRef) : Inside (s.methodDescriptor index member) := by
  unfold methodDescriptor
  cases MethodDescriptor.parse member.descriptor <;> simp [Inside, Except.mapError]

theorem missing_staysInside (kind : SymbolKind) (symbol : String) (pops : List Category)
    (push : Option Category) : StaysInside (s.missing kind symbol pops push) := .ofState fun _ => .pure _

theorem loadConstant_staysInside (wide : Bool) : StaysInside (s.loadConstant index wide) := by
  apply StaysInside.ofExcept (s.constant_inside index)
  intro c _
  split
  · exact .pure _
  · exact .pure _
  · exact .pure _
  · apply StaysInside.ofClasses
    intro id?
    cases id? with
    | some id => exact .pure _
    | none => exact s.missing_staysInside _ _ _ _
  · exact .pure _
  · exact .pure _
  · exact .throw fun i => by simp [wrongConstant]

theorem staticField_staysInside (put : Bool) : StaysInside (s.staticField index put) := by
  apply StaysInside.ofExcept (s.fieldMember_inside index)
  intro member _
  apply StaysInside.ofExcept (s.fieldType_inside index member)
  intro type _
  apply StaysInside.get
  intro l
  split
  · exact s.missing_staysInside _ _ _ _
  · apply StaysInside.ofClasses
    intro found
    cases found with
    | error e => exact s.missing_staysInside _ _ _ _
    | ok id =>
      apply StaysInside.get
      intro l
      split
      · exact s.missing_staysInside _ _ _ _
      · exact .pure _

theorem fieldSlot?_staysInside (id : FieldId) : StaysInside (fieldSlot? id) := by
  apply StaysInside.get
  intro l
  cases l.access with
  | generic => exact .pure _
  | precompiledBridge => exact .ofState fun _ => .pure _

theorem instanceField_staysInside (put : Bool) : StaysInside (s.instanceField index put) := by
  apply StaysInside.ofExcept (s.fieldMember_inside index)
  intro member _
  apply StaysInside.ofExcept (s.fieldType_inside index member)
  intro type _
  apply StaysInside.get
  intro l
  split
  · exact s.missing_staysInside _ _ _ _
  · apply StaysInside.ofClasses
    intro found
    cases found with
    | error e => exact s.missing_staysInside _ _ _ _
    | ok id =>
      apply (fieldSlot?_staysInside id).bind
      intro slot?
      cases slot? with
      | some access => exact .pure _
      | none => exact .pure _

theorem invoke_staysInside (kind : InvokeKind) : StaysInside (s.invoke kind index) := by
  apply StaysInside.ofExcept (s.methodMember_inside index)
  intro member _
  apply StaysInside.ofExcept (s.methodDescriptor_inside index member)
  intro d _
  apply StaysInside.ofClasses
  intro owner?
  cases owner? with
  | none => exact s.missing_staysInside _ _ _ _
  | some owner =>
    apply StaysInside.ofClasses
    intro found
    cases found with
    | error e => exact s.missing_staysInside _ _ _ _
    | ok method =>
      cases kind with
      | static => exact .pure _
      | special => exact .pure _
      | interface => exact .ofState fun _ => .pure _
      | virtual =>
        apply StaysInside.ofState
        intro signature
        split <;> exact .pure _

theorem classUse_staysInside (use : ClassUse) : StaysInside (s.classUse use index) := by
  apply StaysInside.ofExcept (s.className_inside index)
  intro name _
  apply StaysInside.ofClasses
  intro id?
  cases id? with
  | some id => cases use <;> exact .pure _
  | none => cases use <;> exact s.missing_staysInside _ _ _ _

theorem resolve_staysInside (op : Operation) : StaysInside (s.resolve op) := by
  cases op with
  | plain i => exact .pure i
  | loadConstant index wide => exact s.loadConstant_staysInside index wide
  | staticField index put => exact s.staticField_staysInside index put
  | instanceField index put => exact s.instanceField_staysInside index put
  | invoke kind index => exact s.invoke_staysInside index kind
  | classUse use index => exact s.classUse_staysInside index use

theorem catchType_staysInside : StaysInside (s.catchType index) := by
  unfold catchType
  split
  · exact .pure _
  · apply StaysInside.ofExcept (s.className_inside index)
    intro name _
    apply StaysInside.ofClasses
    intro id?
    cases id? with
    | some id => exact .pure _
    | none => exact .ofState fun _ => .pure _

end SymbolSite

namespace Decoding
open Bytes LinkM

theorem linkInstructions_staysInside (pool : ConstantPool) (subject : String) {code : Array UInt8}
    {all : List Nat} (pcs : List Nat) (h : ∀ pc ∈ pcs, ∃ n, instructionLength code pc = .ok n) :
    StaysInside (linkInstructions pool subject (Body.ofStarts code all) pcs) := by
  induction pcs with
  | nil => exact .pure _
  | cons pc rest ih =>
    obtain ⟨n, hn⟩ := h pc (by simp)
    apply StaysInside.ofExcept (operation_within hn).1
    intro op _
    apply (SymbolSite.resolve_staysInside ⟨pool, subject, pc⟩ op).bind
    intro i
    exact (ih fun o ho => h o (by simp [ho])).bind fun _ => .pure _

theorem linkHandlers_staysInside (pool : ConstantPool) (subject : String) (b : Body)
    (handlers : List RawHandler) : StaysInside (linkHandlers pool subject b handlers) := by
  induction handlers with
  | nil => exact .pure _
  | cons h rest ih =>
    have hone : StaysInside (linkHandler pool subject b h) := by
      apply (SymbolSite.catchType_staysInside ⟨pool, subject, h.handlerPc⟩ h.catchType).bind
      intro catches
      apply StaysInside.ofExcept (handlerIndex_inside b h _ _)
      intro start _
      apply StaysInside.ofExcept (handlerIndex_inside b h _ _)
      intro stop _
      apply StaysInside.ofExcept (handlerIndex_inside b h _ _)
      intro target _
      exact .pure _
    apply hone.bind
    intro handler
    exact ih.bind fun _ => .pure _

theorem decode_staysInside (pool : ConstantPool) (subject : String) (raw : RawCode) :
    StaysInside (decode pool subject raw) := by
  unfold decode
  dsimp only
  split
  · exact .throw fun i => by simp
  · apply StaysInside.ofExcept (starts_inside raw.code)
    intro pcs hpcs
    apply (linkInstructions_staysInside pool subject pcs fun pc => (starts_ok.1 hpcs).length_of_mem).bind
    intro is
    exact (linkHandlers_staysInside pool subject _ _).bind fun _ => .pure _

/-- A linked body that follows its bytes. The offsets of its instructions split the bytes into pieces,
one for each; branches, switches and handlers carry the indices of the instructions at the offsets
they name. -/
structure Faithful (raw : RawCode) (pcs : List Nat) (code : LinkedCode) : Prop where
  split : ∃ pieces : List (List UInt8), pieces.flatten = raw.code.toList ∧ (∀ p ∈ pieces, p ≠ []) ∧
    pcs = offsets 0 pieces
  count : code.length = pcs.length
  branches : ∀ k pc i, pcs[k]? = some pc → code.get? k = some i → ∃ ds, distances raw.code pc = .ok ds ∧
    List.Forall₂ (fun (d : Int) t => t < code.length ∧ ∃ o : Nat, pcs[t]? = some o ∧ (o : Int) = pc + d)
      ds i.branchTargets
  handlers : List.Forall₂ (fun (h : RawHandler) (h' : Handler) => h'.target < code.length ∧
    pcs[h'.target]? = some h.handlerPc ∧ pcs[h'.start]? = some h.startPc ∧
    (pcs ++ [raw.code.size])[h'.stop]? = some h.endPc) raw.handlers code.handlers

/-- A distance or an offset of a handler that leads into the middle of an instruction or out of the
body. -/
def Astray (raw : RawCode) (pcs : List Nat) : Prop :=
  (∃ pc ∈ pcs, ∃ ds, distances raw.code pc = .ok ds ∧ ∃ d ∈ ds, ∀ o ∈ pcs, (o : Int) ≠ pc + d) ∨
  ∃ h ∈ raw.handlers, h.startPc ∉ pcs ∨ h.endPc ∉ pcs ++ [raw.code.size] ∨ h.handlerPc ∉ pcs

theorem Decoded.faithful {pool : ConstantPool} {raw : RawCode} {pcs : List Nat} {code : LinkedCode}
    (h : Decoded pool raw pcs code) : Faithful raw pcs code := by
  have hsplit := starts_ok.1 h.split
  have hcount : code.length = pcs.length := by
    simpa [LinkedCode.length] using h.instructions.length_eq.symm
  have hlt : ∀ {t o : Nat}, pcs[t]? = some o → t < code.length := by
    intro t o ht
    rw [hcount]
    exact (List.getElem?_eq_some_iff.1 ht).1
  constructor
  · simpa using hsplit.pieces
  · exact hcount
  · intro k pc i hpc hi
    obtain ⟨i', hi', op, hop, hform⟩ := Lists.getElem?_of_forall₂ h.instructions hpc
    rw [Array.getElem?_toList, show code.instructions[k]? = some i from hi, Option.some.injEq] at hi'
    subst hi'
    obtain ⟨n, hn⟩ := hsplit.length_of_mem (List.mem_of_getElem? hpc)
    obtain ⟨ds, hds, htargets⟩ := (operation_within hn).2 op hop
    rw [hform.branchTargets]
    refine ⟨ds, hds, htargets.imp fun d t ht => ?_⟩
    obtain ⟨o, ho, hd⟩ := (target_ok hsplit).1 ht
    exact ⟨hlt ho, o, ho, hd⟩
  · apply h.handlers.imp
    intro raw' h' hplaced
    have htarget : pcs[h'.target]? = some raw'.handlerPc := by
      simpa using (handlerIndex_ok hsplit).1 hplaced.target
    refine ⟨hlt htarget, htarget, ?_, ?_⟩
    · simpa using (handlerIndex_ok hsplit).1 hplaced.start
    · simpa using (handlerIndex_ok hsplit).1 hplaced.stop

theorem Faithful.not_astray {raw : RawCode} {pcs : List Nat} {code : LinkedCode}
    (h : Faithful raw pcs code) : ¬ Astray raw pcs := by
  rintro (⟨pc, hpc, ds, hds, d, hd, hnone⟩ | ⟨raw', hraw, hastray⟩)
  · obtain ⟨k, hk⟩ := List.mem_iff_getElem?.1 hpc
    have hlt : k < code.length := by
      rw [h.count]
      exact (List.getElem?_eq_some_iff.1 hk).1
    obtain ⟨i, hi⟩ := Option.isSome_iff_exists.1 ((code.get?_isSome_iff k).2 hlt)
    obtain ⟨ds', hds', htargets⟩ := h.branches k pc i hk hi
    rw [hds] at hds'
    cases hds'
    obtain ⟨t, _, _, o, ho, heq⟩ := Lists.exists_right htargets hd
    exact hnone o (List.mem_of_getElem? ho) heq
  · obtain ⟨h', _, _, htarget, hstart, hstop⟩ := Lists.exists_right h.handlers hraw
    rcases hastray with hastray | hastray | hastray
    · exact hastray (List.mem_of_getElem? hstart)
    · exact hastray (List.mem_of_getElem? hstop)
    · exact hastray (List.mem_of_getElem? htarget)

/-- Decoding never reads outside the body. Where it succeeds the linked body follows the bytes; where
a branch, a switch or a handler goes astray it fails. -/
theorem decode_faithful (pool : ConstantPool) (subject : String) (raw : RawCode) (l : Linker) :
    Ends (decode pool subject raw l)
      (fun code _ => ∃ pcs, starts raw.code = .ok pcs ∧ Faithful raw pcs code)
      (fun e _ => ∀ i, e ≠ .outside i) ∧
    ∀ pcs, starts raw.code = .ok pcs → Astray raw pcs → ∃ e l', decode pool subject raw l = .error e l' := by
  have hdecoded := decode_decoded pool subject raw l
  have hinside := decode_staysInside pool subject raw l
  cases hrun : decode pool subject raw l with
  | error e l' =>
    rw [hrun] at hinside
    exact ⟨hinside, fun _ _ _ => ⟨e, l', rfl⟩⟩
  | ok code l' =>
    rw [hrun] at hdecoded
    obtain ⟨pcs, hcode⟩ := hdecoded
    refine ⟨⟨pcs, hcode.split, hcode.faithful⟩, ?_⟩
    intro pcs' hpcs' hastray
    have heq : pcs' = pcs := Except.ok.inj (hpcs'.symm.trans hcode.split)
    subst heq
    exact absurd hastray hcode.faithful.not_astray

end Decoding

end ClassMachine
