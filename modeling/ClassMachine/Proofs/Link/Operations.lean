import ClassMachine.Link.Decoding
import ClassMachine.Proofs.Stateful

/-!
What the bytes of an instruction stand for. Instructions on monitors have opcodes of their own, and
none that stands for itself accesses a static field or carries the class of an array it makes.
-/
namespace ClassMachine
open Stateful

/-- Enters or leaves the monitor of the object on the stack. -/
def Instruction.isMonitor : Instruction → Bool
  | .monitorEnter | .monitorExit => true
  | _ => false

def Instruction.isStaticAccess : Instruction → Bool
  | .getStatic _ _ _ | .putStatic _ _ _ => true
  | _ => false

/-- Makes an array of references, of a class it carries. -/
def Instruction.isNewRefArray : Instruction → Bool
  | .newRefArray _ => true
  | _ => false

def Operation.isMonitor : Operation → Bool
  | .plain i => i.isMonitor
  | _ => false

/-- Is resolved later, or has to do with neither monitors nor static fields nor arrays of references. -/
def Operation.isBasic : Operation → Bool
  | .plain i => !i.isMonitor && !i.isStaticAccess && !i.isNewRefArray
  | _ => true

namespace Decoding

/-- Whatever `x` comes to satisfies `P`. -/
def Only {α : Type} (P : α → Prop) (x : Except LinkError α) : Prop := ∀ a, x = .ok a → P a

section Only

variable {α β : Type} {P : α → Prop}

theorem Only.pure {a : α} (h : P a) : Only P (Pure.pure a : Except LinkError α) := by
  intro b hb
  cases hb
  exact h

theorem Only.throw (e : LinkError) : Only P (throw e : Except LinkError α) := by
  intro a ha
  cases ha

theorem Only.bind {x : Except LinkError β} {f : β → Except LinkError α} (hf : ∀ b, Only P (f b)) :
    Only P (x >>= f) := by
  intro a ha
  obtain ⟨b, _, hb⟩ := except_bind_ok.1 ha
  exact hf b a hb

theorem Only.ite {c : Prop} [Decidable c] {x y : Except LinkError α} (hx : c → Only P x)
    (hy : ¬ c → Only P y) : Only P (if c then x else y) := by
  split
  · next h => exact hx h
  · next h => exact hy h

theorem Only.mono {Q : α → Prop} {x : Except LinkError α} (h : Only P x) (hPQ : ∀ a, P a → Q a) :
    Only Q x := fun a ha => hPQ a (h a ha)

end Only

variable {code : Array UInt8} {b : Body} {pc n : Nat}

theorem simple_basic : Only (·.isBasic = true) (simple code pc n) := by
  unfold simple
  iterate 6 refine .ite (fun _ => .pure rfl) fun _ => ?_
  iterate 6 refine .ite (fun _ => .bind fun _ => .pure rfl) fun _ => ?_
  iterate 2 refine .ite (fun _ => .pure rfl) fun _ => ?_
  refine .ite (fun _ => .bind fun _ => .pure rfl) fun _ => ?_
  iterate 2 refine .ite (fun _ => .pure rfl) fun _ => ?_
  exact .pure rfl

theorem numeric_basic : Only (fun i => (Operation.plain i).isBasic = true) (numeric code pc n) := by
  unfold numeric
  iterate 4 refine .ite (fun _ => .pure rfl) fun _ => ?_
  refine .ite (fun _ => .bind fun _ => .bind fun _ => .pure rfl) fun _ => ?_
  iterate 2 refine .ite (fun _ => .pure rfl) fun _ => ?_
  exact .pure rfl

theorem tableSwitch_basic : Only (fun i => (Operation.plain i).isBasic = true) (tableSwitch b pc) :=
  .bind fun _ => .bind fun _ => .bind fun _ => .bind fun _ => .bind fun _ => .pure rfl

theorem lookupSwitch_basic : Only (fun i => (Operation.plain i).isBasic = true) (lookupSwitch b pc) :=
  .bind fun _ => .bind fun _ => .bind fun _ => .bind fun _ => .pure rfl

theorem flow_basic : Only (fun i => (Operation.plain i).isBasic = true) (flow b pc n) := by
  unfold flow
  iterate 4 refine .ite (fun _ => .bind fun _ => .pure rfl) fun _ => ?_
  refine .ite (fun _ => tableSwitch_basic) fun _ => ?_
  refine .ite (fun _ => lookupSwitch_basic) fun _ => ?_
  iterate 2 refine .ite (fun _ => .pure rfl) fun _ => ?_
  exact .pure rfl

theorem wide_basic : Only (fun i => (Operation.plain i).isBasic = true) (wide b pc) := by
  unfold wide
  refine .bind fun inner => .bind fun index => ?_
  refine .ite (fun _ => .bind fun _ => .pure rfl) fun _ => ?_
  iterate 2 refine .ite (fun _ => .pure rfl) fun _ => ?_
  exact .throw _

/-- The last two opcodes of the group are those for monitors. -/
theorem symbolic_basic (hlow : 0xb2 ≤ n) (hhigh : n ≤ 0xc3) (hne : n ≠ 0xba) :
    Only (fun op => op.isBasic = false → op.isMonitor = true ∧ (n = 0xc2 ∨ n = 0xc3))
      (symbolic code pc n) := by
  have hplain : ∀ {op : Operation}, op.isBasic = true →
      op.isBasic = false → op.isMonitor = true ∧ (n = 0xc2 ∨ n = 0xc3) := by
    intro op hyes hno
    rw [hno] at hyes
    cases hyes
  unfold symbolic
  dsimp only
  iterate 6 refine .ite (fun _ => .bind fun _ => .pure (hplain rfl)) fun _ => ?_
  refine .ite (fun _ => .bind fun type => ?_) fun _ => ?_
  · cases Kind.ofArrayCode? type with
    | some kind => exact .pure (hplain rfl)
    | none => exact .throw _
  refine .ite (fun _ => .bind fun _ => .pure (hplain rfl)) fun _ => ?_
  iterate 2 refine .ite (fun _ => .pure (hplain rfl)) fun _ => ?_
  iterate 2 refine .ite (fun _ => .bind fun _ => .pure (hplain rfl)) fun _ => ?_
  refine .ite (fun h => .pure fun _ => ⟨rfl, .inl h⟩) fun _ => .pure fun _ => ⟨rfl, .inr ?_⟩
  omega

/-- Only two opcodes stand for instructions that are not basic, both on monitors. -/
theorem operation_basic :
    Only (fun op => op.isBasic = false → op.isMonitor = true ∧
      (b.code[pc]? = some 0xc2 ∨ b.code[pc]? = some 0xc3)) (operation b pc) := by
  intro op hop hbasic
  obtain ⟨byte, hbyte, hop⟩ := except_bind_ok.1 hop
  have hcode : b.code[pc]? = some byte := by
    unfold Bytes.byteAt at hbyte
    cases hget : b.code[pc]? with
    | none => rw [hget] at hbyte; cases hbyte
    | some other => rw [hget] at hbyte; cases hbyte; rfl
  have hdecoded : Only (fun op => op.isBasic = false → op.isMonitor = true ∧
      (byte.toNat = 0xc2 ∨ byte.toNat = 0xc3)) (.ok op : Except LinkError Operation) := by
    rw [← hop]
    have hyes : ∀ {op : Operation}, op.isBasic = true → op.isBasic = false →
        op.isMonitor = true ∧ (byte.toNat = 0xc2 ∨ byte.toNat = 0xc3) := by
      intro op hyes hno
      rw [hno] at hyes
      cases hyes
    have hplain : ∀ {x : Except LinkError Instruction}, Only (fun i => (Operation.plain i).isBasic = true) x →
        Only (fun op => op.isBasic = false → op.isMonitor = true ∧ (byte.toNat = 0xc2 ∨ byte.toNat = 0xc3))
          (x >>= fun i => pure (Operation.plain i)) := by
      intro x hx op hop
      obtain ⟨i, hi, hop⟩ := except_bind_ok.1 hop
      cases hop
      exact hyes (hx i hi)
    refine .ite (fun _ => .throw _) fun hbad => ?_
    refine .ite (fun _ => simple_basic.mono fun _ => hyes) fun _ => ?_
    refine .ite (fun _ => hplain numeric_basic) fun _ => ?_
    refine .ite (fun _ => hplain flow_basic) fun hlow => ?_
    refine .ite (fun hhigh => symbolic_basic (by omega) hhigh (by omega)) fun _ => ?_
    refine .ite (fun _ => hplain wide_basic) fun _ => ?_
    refine .ite (fun _ => .bind fun _ => .bind fun _ => .ite (fun _ => .throw _) fun _ => .pure (hyes rfl))
      fun _ => ?_
    refine .ite (fun _ => .bind fun _ => .pure (hyes rfl)) fun _ => ?_
    exact .ite (fun _ => .bind fun _ => .bind fun _ => .pure (hyes rfl)) fun _ => .throw _
  obtain ⟨hmonitor, h | h⟩ := hdecoded op rfl hbasic
  · exact ⟨hmonitor, .inl (hcode.trans (congrArg some (UInt8.toNat_inj.1 h)))⟩
  · exact ⟨hmonitor, .inr (hcode.trans (congrArg some (UInt8.toNat_inj.1 h)))⟩

/-- Only two opcodes stand for instructions on monitors. -/
theorem operation_monitor {op : Operation} (hop : operation b pc = .ok op) (hmonitor : op.isMonitor = true) :
    b.code[pc]? = some 0xc2 ∨ b.code[pc]? = some 0xc3 := by
  refine (operation_basic op hop ?_).2
  cases op with
  | plain i => simp [Operation.isBasic, show i.isMonitor = true from hmonitor]
  | _ => cases hmonitor

/-- What stands for itself accesses no static field. -/
theorem operation_plain {i : Instruction} (hop : operation b pc = .ok (.plain i)) :
    i.isStaticAccess = false := by
  cases hstatic : i.isStaticAccess with
  | false => rfl
  | true =>
    obtain ⟨hmonitor, _⟩ := operation_basic _ hop (by simp [Operation.isBasic, hstatic])
    cases i with
    | getStatic owner slot kind => cases hmonitor
    | putStatic owner slot kind => cases hmonitor
    | _ => cases hstatic

/-- What stands for itself makes no array of references. -/
theorem operation_makes {i : Instruction} (hop : operation b pc = .ok (.plain i)) :
    i.isNewRefArray = false := by
  cases harray : i.isNewRefArray with
  | false => rfl
  | true =>
    obtain ⟨hmonitor, _⟩ := operation_basic _ hop (by simp [Operation.isBasic, harray])
    cases i with
    | newRefArray id => cases hmonitor
    | _ => cases harray

end Decoding

end ClassMachine
