import ClassMachine.Machine.Arithmetic
import Mathlib.Algebra.Order.Ring.Int

/-!
Integer arithmetic by the integers that the words stand for. Sums and products wrap at the width, a
quotient goes toward zero, shifts multiply and divide by powers of two. Only a division by zero has no
result: computed by operators that trap outside of their range, with the operands they trap on told apart
first, every operation comes to the same and none traps.
-/
namespace ClassMachine.ArithOp

/-- What the word of an integer is without its sign. -/
def unsigned (w : Nat) (a : Int) : Nat := (a % 2 ^ w).toNat

/-- How far an operand shifts. -/
def distance (w : Nat) (b : Int) : Nat := (b % w).toNat

/-- What an operation on words of `w` bits gives when operands and result are read as signed integers; of
the remainder, how large it is and on which side of zero. Division by zero apart. -/
def Law (w : Nat) (a b r : Int) : ArithOp → Prop
  | add => r = (a + b).bmod (2 ^ w)
  | sub => r = (a - b).bmod (2 ^ w)
  | mul => r = (a * b).bmod (2 ^ w)
  | div => r = if a = -2 ^ (w - 1) ∧ b = -1 then a else a.tdiv b
  | rem => r.natAbs < b.natAbs ∧ (r = 0 ∨ r.sign = a.sign)
  | shl => r = (a * 2 ^ distance w b).bmod (2 ^ w)
  | shr => r = a.fdiv (2 ^ distance w b)
  | ushr => r = Int.bmod (unsigned w a / 2 ^ distance w b : Nat) (2 ^ w)
  | and => r = Int.bmod (unsigned w a &&& unsigned w b : Nat) (2 ^ w)
  | or => r = Int.bmod (unsigned w a ||| unsigned w b : Nat) (2 ^ w)
  | xor => r = Int.bmod (unsigned w a ^^^ unsigned w b : Nat) (2 ^ w)

/-- Arithmetic on words of `w` bits in a type: it has no result for a division by zero and for nothing
else, results are those of the law, and quotient and remainder make up the dividend. -/
structure Lawful {α : Type} (w : Nat) (read : α → Int) (apply : ArithOp → α → α → Option α) : Prop where
  undefined : ∀ op a b, apply op a b = none ↔ (op = div ∨ op = rem) ∧ read b = 0
  law : ∀ op a b r, apply op a b = some r → op.Law w (read a) (read b) (read r)
  division : ∀ a b q r, apply div a b = some q → apply rem a b = some r →
    (read q * read b + read r).bmod (2 ^ w) = read a

section Words

variable {w : Nat}

theorem toInt_emod (a : BitVec w) : a.toInt % (2 ^ w : Nat) = a.toNat := by
  rw [BitVec.toInt_eq_toNat_bmod, Int.bmod_emod]
  exact Int.emod_eq_of_lt (by omega) (by exact_mod_cast a.isLt)

theorem unsigned_toInt (a : BitVec w) : unsigned w a.toInt = a.toNat := by
  have h := toInt_emod a
  rw [Int.natCast_pow] at h
  rw [unsigned, show (2 : Int) = (2 : Nat) from rfl, h, Int.toNat_natCast]

/-- Where the width divides the number of words, a distance is the same with and without the sign. -/
theorem distance_toInt (hw : w ∣ 2 ^ w) (b : BitVec w) : distance w b.toInt = b.toNat % w := by
  have hmod : b.toInt % w = b.toNat % w := by
    rw [← toInt_emod, Int.emod_emod_of_dvd _ (by exact_mod_cast hw)]
  rw [distance, hmod]
  exact Int.toNat_natCast _

theorem toInt_negOne (hpos : 0 < w) : (-1#w).toInt = -1 := by
  rw [BitVec.neg_one_eq_allOnes, BitVec.toInt_allOnes, if_pos hpos]

theorem toInt_sdiv (hpos : 0 < w) (a b : BitVec w) : (a.sdiv b).toInt =
    if a.toInt = -2 ^ (w - 1) ∧ b.toInt = -1 then a.toInt else a.toInt.tdiv b.toInt := by
  split
  · next h =>
    have ha : a = BitVec.intMin w := BitVec.toInt_inj.1 (h.1.trans (BitVec.toInt_intMin_of_pos hpos).symm)
    have hb : b = -1#w := BitVec.toInt_inj.1 (h.2.trans (toInt_negOne hpos).symm)
    rw [ha, hb, BitVec.intMin_sdiv_neg_one]
  · next h =>
    refine BitVec.toInt_sdiv_of_ne_or_ne a b ?_
    rcases Decidable.not_and_iff_not_or_not.1 h with ha | hb
    · exact .inl fun heq => ha (by rw [heq, BitVec.toInt_intMin_of_pos hpos])
    · exact .inr fun heq => hb (by rw [heq, toInt_negOne hpos])

/-- A remainder is smaller than the divisor and on the side of the dividend. -/
theorem tmod_law (a : Int) {b : Int} (hb : b ≠ 0) :
    (a.tmod b).natAbs < b.natAbs ∧ (a.tmod b = 0 ∨ (a.tmod b).sign = a.sign) := by
  refine ⟨?_, ?_⟩
  · rw [Int.natAbs_tmod]
    exact Nat.mod_lt _ (Int.natAbs_pos.2 hb)
  · rw [Int.sign_tmod]
    split
    · next h => exact .inl (Int.tmod_eq_zero_of_dvd h)
    · exact .inr rfl

theorem toInt_shiftLeft (a : BitVec w) (n : Nat) : (a <<< n).toInt = (a.toInt * 2 ^ n).bmod (2 ^ w) := by
  rw [BitVec.toInt_shiftLeft, BitVec.toInt_eq_toNat_bmod, Int.bmod_mul_bmod, Nat.shiftLeft_eq]
  simp

theorem toInt_sshiftRight (a : BitVec w) (n : Nat) : (a.sshiftRight n).toInt = a.toInt.fdiv (2 ^ n) := by
  rw [BitVec.toInt_sshiftRight, Int.shiftRight_eq_div_pow, Int.natCast_pow]
  exact (Int.fdiv_eq_ediv_of_nonneg _ (Int.pow_nonneg (by decide))).symm

theorem toInt_ushiftRight (a : BitVec w) (n : Nat) :
    (a >>> n).toInt = Int.bmod (a.toNat / 2 ^ n : Nat) (2 ^ w) := by
  rw [BitVec.toInt_eq_toNat_bmod, BitVec.toNat_ushiftRight, Nat.shiftRight_eq_div_pow]

theorem bits?_eq_none (op : ArithOp) (a b : BitVec w) :
    op.bits? a b = none ↔ (op = div ∨ op = rem) ∧ b = 0 := by
  cases op <;> simp [bits?]

/-- What an operation on words comes to on the integers they stand for. -/
theorem bits?_law (hpos : 0 < w) (hw : w ∣ 2 ^ w) (op : ArithOp) (a b r : BitVec w)
    (h : op.bits? a b = some r) : op.Law w a.toInt b.toInt r.toInt := by
  cases op with
  | add =>
    cases h
    exact BitVec.toInt_add a b
  | sub =>
    cases h
    exact BitVec.toInt_sub
  | mul =>
    cases h
    exact BitVec.toInt_mul a b
  | div =>
    obtain ⟨_, hr⟩ := (Option.ite_none_left_eq_some).1 h
    cases hr
    exact toInt_sdiv hpos a b
  | rem =>
    obtain ⟨hb, hr⟩ := (Option.ite_none_left_eq_some).1 h
    cases hr
    show (a.srem b).toInt.natAbs < _ ∧ ((a.srem b).toInt = 0 ∨ _)
    rw [BitVec.toInt_srem]
    exact tmod_law _ fun hzero => hb (BitVec.toInt_inj.1 (hzero.trans BitVec.toInt_zero.symm))
  | shl =>
    cases h
    rw [Law, distance_toInt hw, toInt_shiftLeft]
  | shr =>
    cases h
    rw [Law, distance_toInt hw, toInt_sshiftRight]
  | ushr =>
    cases h
    rw [Law, distance_toInt hw, unsigned_toInt, toInt_ushiftRight]
  | and =>
    cases h
    rw [Law, unsigned_toInt, unsigned_toInt, BitVec.toInt_and]
  | or =>
    cases h
    rw [Law, unsigned_toInt, unsigned_toInt, BitVec.toInt_or]
  | xor =>
    cases h
    rw [Law, unsigned_toInt, unsigned_toInt, BitVec.toInt_xor]

/-- Quotient and remainder make up the dividend, also where the quotient wraps. -/
theorem bits?_division (a b q r : BitVec w) (hq : div.bits? a b = some q) (hr : rem.bits? a b = some r) :
    (q.toInt * b.toInt + r.toInt).bmod (2 ^ w) = a.toInt := by
  obtain ⟨_, hq⟩ := (Option.ite_none_left_eq_some).1 hq
  obtain ⟨_, hr⟩ := (Option.ite_none_left_eq_some).1 hr
  cases hq
  cases hr
  calc ((a.sdiv b).toInt * b.toInt + (a.srem b).toInt).bmod (2 ^ w)
      = ((a.toInt.tdiv b.toInt).bmod (2 ^ w) * b.toInt + a.toInt.tmod b.toInt).bmod (2 ^ w) := by
        rw [BitVec.toInt_sdiv, BitVec.toInt_srem]
    _ = (a.toInt.tdiv b.toInt * b.toInt + a.toInt.tmod b.toInt).bmod (2 ^ w) := by
        rw [← Int.bmod_add_bmod, Int.bmod_mul_bmod, Int.bmod_add_bmod]
    _ = a.toInt := by
        rw [Int.tdiv_mul_add_tmod, BitVec.toInt_bmod_cancel]

/-- Arithmetic on a type of words of `w` bits. -/
theorem lawful_of_bits {α : Type} (hpos : 0 < w) (hw : w ∣ 2 ^ w) {toBits : α → BitVec w}
    {ofBits : BitVec w → α} (hinverse : ∀ x, toBits (ofBits x) = x) :
    Lawful w (fun a => (toBits a).toInt) fun op a b => (op.bits? (toBits a) (toBits b)).map ofBits := by
  have hsome : ∀ {op a b r}, (bits? op (toBits a) (toBits b)).map ofBits = some r →
      op.bits? (toBits a) (toBits b) = some (toBits r) := by
    intro op a b r h
    obtain ⟨x, hx, rfl⟩ := Option.map_eq_some_iff.1 h
    rw [hx, hinverse]
  constructor
  · intro op a b
    rw [Option.map_eq_none_iff, bits?_eq_none, ← BitVec.toInt_inj, show (0 : BitVec w).toInt = 0 from BitVec.toInt_zero]
  · exact fun op a b r h => bits?_law hpos hw op _ _ _ (hsome h)
  · exact fun a b q r hq hr => bits?_division _ _ _ _ (hsome hq) (hsome hr)

/-- Division that traps on a zero divisor and on a quotient beyond the largest word. -/
def divided (divide : BitVec w → BitVec w → BitVec w) (a b : BitVec w) : Option (BitVec w) :=
  if b = 0 ∨ a = BitVec.intMin w ∧ b = -1 then none else some (divide a b)

/-- Division of which a zero divisor and minus one, for which the answer is known, are told apart. -/
def guarded (divide : BitVec w → BitVec w → BitVec w) (byNegOne a b : BitVec w) : Option (Option (BitVec w)) :=
  if b = 0 then some none else if b = -1 then some (some byNegOne) else (divided divide a b).map some

/-- A shift that traps on a distance of the width or more. -/
def shifted (shift : BitVec w → Nat → BitVec w) (a : BitVec w) (n : Nat) : Option (BitVec w) :=
  if n < w then some (shift a n) else none

/-- The bits of an operand that a shift goes by: of its sixty-four bits the lower half, and of that the
bits below the width. -/
def lowBits (b : BitVec w) : Nat := ((b.signExtend 64).setWidth 32 &&& BitVec.ofNat 32 (w - 1)).toNat

/-- Arithmetic by operators that trap. A zero divisor is told apart first, to divide by minus one is to
negate, and distances are masked. A trap has no answer; a division by zero has the answer that there is no
result. -/
def trapping? (op : ArithOp) (a b : BitVec w) : Option (Option (BitVec w)) :=
  match op with
  | add => some (some (a + b))
  | sub => some (some (a - b))
  | mul => some (some (a * b))
  | div => guarded BitVec.sdiv (-a) a b
  | rem => guarded BitVec.srem 0 a b
  | shl => (shifted (· <<< ·) a (lowBits b)).map some
  | shr => (shifted BitVec.sshiftRight a (lowBits b)).map some
  | ushr => (shifted (· >>> ·) a (lowBits b)).map some
  | and => some (some (a &&& b))
  | or => some (some (a ||| b))
  | xor => some (some (a ^^^ b))

theorem sdiv_negOne (hpos : 0 < w) (a : BitVec w) : a.sdiv (-1) = -a := by
  apply BitVec.toInt_inj.1
  rw [BitVec.toInt_sdiv, show (-1 : BitVec w).toInt = -1 from toInt_negOne hpos, Int.tdiv_neg, Int.tdiv_one]
  exact BitVec.toInt_neg.symm

theorem srem_negOne (hpos : 0 < w) (a : BitVec w) : a.srem (-1) = 0 := by
  apply BitVec.toInt_inj.1
  rw [BitVec.toInt_srem, show (-1 : BitVec w).toInt = -1 from toInt_negOne hpos, Int.tmod_neg, Int.tmod_one]
  exact BitVec.toInt_zero.symm

theorem guarded_eq {divide : BitVec w → BitVec w → BitVec w} {byNegOne a : BitVec w}
    (h : divide a (-1) = byNegOne) (b : BitVec w) :
    guarded divide byNegOne a b = some (if b = 0 then none else some (divide a b)) := by
  unfold guarded
  split
  · rfl
  · next hzero =>
    split
    · next hone => rw [hone, h]
    · next hone =>
      have hin : ¬ (b = 0 ∨ a = BitVec.intMin w ∧ b = -1) := fun hout => hout.elim hzero fun hmin => hone hmin.2
      rw [divided, if_neg hin, Option.map_some]

theorem lowBits_eq (hw : w = 32 ∨ w = 64) (b : BitVec w) : lowBits b = b.toNat % w := by
  have hb := b.isLt
  rcases hw with rfl | rfl
  · have hlow : ((b.signExtend 64).setWidth 32).toNat = b.toNat := by
      simp only [BitVec.toNat_setWidth, BitVec.toNat_signExtend]
      split <;> omega
    rw [lowBits, BitVec.toNat_and, hlow]
    exact Nat.and_two_pow_sub_one_eq_mod b.toNat 5
  · have hlow : ((b.signExtend 64).setWidth 32).toNat = b.toNat % 2 ^ 32 := by
      rw [BitVec.signExtend_eq, BitVec.toNat_setWidth]
    rw [lowBits, BitVec.toNat_and, hlow]
    refine (Nat.and_two_pow_sub_one_eq_mod (b.toNat % 2 ^ 32) 6).trans ?_
    omega

/-- No operation traps: the operators are only used within their range. -/
theorem trapping?_eq (hw : w = 32 ∨ w = 64) (op : ArithOp) (a b : BitVec w) :
    op.trapping? a b = some (op.bits? a b) := by
  have hpos : 0 < w := by omega
  have hlow : lowBits b < w := by
    rw [lowBits_eq hw]
    exact Nat.mod_lt _ hpos
  have hshifted : ∀ shift : BitVec w → Nat → BitVec w,
      shifted shift a (lowBits b) = some (shift a (b.toNat % w)) := by
    intro shift
    rw [shifted, if_pos hlow, lowBits_eq hw]
  cases op with
  | div => exact guarded_eq (sdiv_negOne hpos a) b
  | rem => exact guarded_eq (srem_negOne hpos a) b
  | shl => exact congrArg (Option.map some) (hshifted _)
  | shr => exact congrArg (Option.map some) (hshifted _)
  | ushr => exact congrArg (Option.map some) (hshifted _)
  | _ => rfl

end Words

/-- A shift of a long by an `int` is one by the long of that `int`: both go by the same six bits. -/
theorem longShift_eq (op : ArithOp) (hop : op.isShift) (a : Int64) (distance : Int32) :
    op.long? a distance.toInt64 = some (op.longShift a distance) := by
  have hbits : distance.toInt64.toBitVec.toNat % 64 = distance.toBitVec.toNat % 64 := by
    show (distance.toBitVec.signExtend 64).toNat % 64 = _
    have hlt := distance.toBitVec.isLt
    rw [BitVec.toNat_signExtend, BitVec.toNat_setWidth]
    split <;> omega
  cases op with
  | shl => simp only [long?, bits?, longShift, hbits, Option.map_some]
  | shr => simp only [long?, bits?, longShift, hbits, Option.map_some]
  | ushr => simp only [long?, bits?, longShift, hbits, Option.map_some]
  | _ => cases hop

/-- Arithmetic on `int` and on `long` is lawful at its width and traps on no operands, and shifting a long
by an `int` is shifting it by the long of that `int`. -/
theorem integers_lawful :
    Lawful 32 Int32.toInt int? ∧ Lawful 64 Int64.toInt long? ∧
      (∀ (op : ArithOp) (a b : Int32),
        op.trapping? a.toBitVec b.toBitVec = some ((op.int? a b).map Int32.toBitVec)) ∧
      (∀ (op : ArithOp) (a b : Int64),
        op.trapping? a.toBitVec b.toBitVec = some ((op.long? a b).map Int64.toBitVec)) ∧
      ∀ (op : ArithOp) (a : Int64) (distance : Int32), op.isShift →
        op.long? a distance.toInt64 = some (op.longShift a distance) := by
  refine ⟨?_, ?_, fun op a b => ?_, fun op a b => ?_, fun op a d hop => longShift_eq op hop a d⟩
  · exact lawful_of_bits (by decide) (by decide) fun _ => rfl
  · exact lawful_of_bits (by decide) (by decide) fun _ => rfl
  · rw [trapping?_eq (.inl rfl), int?, Option.map_map]
    exact congrArg some (congrFun Option.map_id _).symm
  · rw [trapping?_eq (.inr rfl), long?, Option.map_map]
    exact congrArg some (congrFun Option.map_id _).symm

/-- The smallest word by minus one, and a distance below zero. -/
theorem integers_lawful_extremes :
    (int? div Int32.minValue (-1) = some Int32.minValue ∧
      Law 32 Int32.minValue.toInt (-1) Int32.minValue.toInt div) ∧
      (long? div Int64.minValue (-1) = some Int64.minValue ∧ long? rem Int64.minValue (-1) = some 0 ∧
        (Int64.minValue.toInt * -1 + 0).bmod (2 ^ 64) = Int64.minValue.toInt) ∧
      shr.isShift ∧ long? shr (-8) (Int32.toInt64 (-63)) = some (longShift shr (-8) (-63)) := by
  obtain ⟨hint, hlong, _, _, hshift⟩ := integers_lawful
  have hquotient : long? div Int64.minValue (-1) = some Int64.minValue := by decide
  have hremainder : long? rem Int64.minValue (-1) = some 0 := by decide
  refine ⟨⟨by decide, hint.law div Int32.minValue (-1) Int32.minValue (by decide)⟩,
    ⟨hquotient, hremainder, hlong.division _ _ _ _ hquotient hremainder⟩, rfl, hshift shr (-8) (-63) rfl⟩

end ClassMachine.ArithOp
