import ClassMachine.Proofs.Bytecode.Assembly
import ClassMachine.Proofs.Link.Targets

/-!
Decoding what an assembler has written. Every complete instruction has the length it was written with,
so the two agree on where instructions start, and every operand that was filled in for a label decodes
to the instruction behind the label's last binding.
-/
namespace ClassMachine
open Stateful

namespace Bytes

/-- The bytes stand in the body from a position on. -/
def Holds (code : Array UInt8) (p : Nat) (bs : List UInt8) : Prop :=
  ∃ before after, code.toList = before ++ (bs ++ after) ∧ before.length = p

namespace Holds

variable {code : Array UInt8} {p : Nat} {xs ys : List UInt8} {b : UInt8}

theorem left (h : Holds code p (xs ++ ys)) : Holds code p xs := by
  obtain ⟨before, after, hcode, hp⟩ := h
  exact ⟨before, ys ++ after, by simpa using hcode, hp⟩

theorem right (h : Holds code p (xs ++ ys)) : Holds code (p + xs.length) ys := by
  obtain ⟨before, after, hcode, hp⟩ := h
  exact ⟨before ++ xs, after, by simpa using hcode, by simp [hp]⟩

theorem head (h : Holds code p (b :: xs)) : code[p]? = some b := by
  obtain ⟨before, after, hcode, rfl⟩ := h
  rw [← Array.getElem?_toList, hcode]
  simp

theorem tail (h : Holds code p (b :: xs)) : Holds code (p + 1) xs :=
  right (show Holds code p ([b] ++ xs) from h)

theorem le_size (h : Holds code p xs) : p + xs.length ≤ code.size := by
  obtain ⟨before, after, hcode, rfl⟩ := h
  rw [← Array.length_toList, hcode]
  simp

end Holds

section Reads

variable {code : Array UInt8} {p : Nat} {n : Int}

theorem toNat_ofInt (n : Int) : (UInt8.ofInt n).toNat = (n % 256).toNat := by
  simp [UInt8.ofInt, UInt8.toNat_ofNat']
  omega

theorem word16_of_holds (h : Holds code p (bytes16 n)) : word16 code p = .ok (n % 65536).toNat := by
  unfold word16
  rw [except_bind_of_ok (natAt_of_get h.head), except_bind_of_ok (natAt_of_get h.tail.head), toNat_ofInt,
    toNat_ofInt]
  exact congrArg Except.ok (by omega)

theorem signed16_of_holds (h : Holds code p (bytes16 n)) (hn : -32768 ≤ n ∧ n ≤ 32767) :
    signed16 code p = .ok n := by
  unfold signed16
  rw [except_bind_of_ok (word16_of_holds h)]
  refine congrArg Except.ok ?_
  rw [Int.toNat_of_nonneg (by omega), Int.bmod_def]
  split <;> omega

theorem signed32_of_holds (h : Holds code p (bytes32 n)) (hn : -2 ^ 31 ≤ n ∧ n < 2 ^ 31) :
    signed32 code p = .ok n := by
  have hlow : word16 code (p + 2) = .ok (n % 65536).toNat := word16_of_holds h.right
  unfold signed32
  rw [except_bind_of_ok (word16_of_holds h.left), except_bind_of_ok hlow]
  refine congrArg Except.ok ?_
  rw [Int.bmod_def]
  split <;> omega

end Reads

end Bytes

namespace Decoding
open Bytes Assembler

variable {code : Array UInt8} {o : Nat} {bs : List UInt8}

theorem switchBase_of_aligned {pad : Nat} (h : pad < 4 ∧ (o + 1 + pad) % 4 = 0) :
    switchBase o = o + 1 + pad := by
  unfold switchBase
  omega

/-- A complete instruction has the length it was written with. -/
theorem instructionLength_of_encoded (h : Encoded o bs) (hcode : Holds code o bs) :
    instructionLength code o = .ok bs.length := by
  have hsize := hcode.le_size
  apply instructionLength_ok.2
  cases h with
  | @fixed op operands hlength =>
    refine ⟨op, hcode.head, ?_, hsize⟩
    unfold claimedLength
    rw [hlength]
    rfl
  | @wideIncrement operands hlength =>
    refine ⟨0xc4, hcode.head, wideLength_ok.2 ⟨0x84, hcode.tail.head, ?_⟩, hsize⟩
    simp [hlength]
    rfl
  | @wideLocal inner operands hlength haccess =>
    refine ⟨0xc4, hcode.head, wideLength_ok.2 ⟨inner, hcode.tail.head, ?_⟩, hsize⟩
    rw [wideLength?, if_neg (by omega), if_pos haccess]
    simp [hlength]
  | @tableSwitch pad default entries low high haligned hdefault hrange hlength =>
    have hbase := switchBase_of_aligned haligned
    have hentries := hcode.tail.right.right
    rw [hdefault, ← hbase] at hentries
    have hlow := signed32_of_holds hentries.left (by omega)
    have hhigh := signed32_of_holds hentries.right.left (by omega)
    refine ⟨0xaa, hcode.head, tableLength_ok.2 ⟨?_, low, high, hlow, hhigh, hrange.2.1, ?_⟩, hsize⟩
    · simp at hsize
      omega
    · simp [hdefault]
      omega
  | @lookupSwitch pad default entries count haligned hdefault hrange hlength =>
    have hbase := switchBase_of_aligned haligned
    have hentries := hcode.tail.right.right
    rw [hdefault, ← hbase] at hentries
    have hcount := signed32_of_holds hentries.left (by omega)
    refine ⟨0xab, hcode.head, lookupLength_ok.2 ⟨?_, count, hcount, by omega, ?_⟩, hsize⟩
    · simp at hsize
      omega
    · simp [hdefault]
      omega

/-- Complete instructions one after the other start where they were written. -/
theorem split_of_encoded {pieces : List (List UInt8)} {before : List UInt8}
    (hcode : code.toList = before ++ pieces.flatten)
    (h : ∀ p ∈ (offsets before.length pieces).zip pieces, Encoded p.1 p.2) :
    Split code before.length (offsets before.length pieces) := by
  induction pieces generalizing before with
  | nil =>
    have hsize : before.length = code.size := by
      rw [← Array.length_toList, hcode]
      simp
    rw [hsize]
    exact .done
  | cons piece pieces ih =>
    have hrest : code.toList = (before ++ piece) ++ pieces.flatten := by simpa using hcode
    have hfirst : Holds code before.length piece := ⟨before, pieces.flatten, by simpa using hcode, rfl⟩
    simp only [offsets, List.zip_cons_cons, List.forall_mem_cons] at h
    have hsplit := ih hrest (by simpa using h.2)
    rw [List.length_append] at hsplit
    exact .next (instructionLength_of_encoded h.1 hfirst) hsplit

theorem holds_pieces {pieces : List (List UInt8)} {before : List UInt8}
    (hcode : code.toList = before ++ pieces.flatten) :
    ∀ p ∈ (offsets before.length pieces).zip pieces, Holds code p.1 p.2 := by
  induction pieces generalizing before with
  | nil => simp [offsets]
  | cons piece pieces ih =>
    have hnext : code.toList = (before ++ piece) ++ pieces.flatten := by simpa using hcode
    have hrest := ih hnext
    rw [List.length_append] at hrest
    simp only [offsets, List.zip_cons_cons, List.forall_mem_cons]
    exact ⟨⟨before, pieces.flatten, by simpa using hcode, rfl⟩, hrest⟩

end Decoding

namespace Assembler
open Decoding

/-- The bytes a call has come to when all labels are known. -/
def Call.written (a : Assembler) (o : Nat) (c : Call) : List UInt8 :=
  a.writtenAll ((c.segments o).map fun s => (o, s))

theorem writtenAll_pieces (final a : Assembler) (calls : List Call) :
    final.writtenAll (a.pieces calls) = ((emissions a calls).map fun e => e.2.written final e.1).flatten := by
  unfold Call.written writtenAll pieces
  rw [List.flatMap_assoc, List.flatMap_def]

theorem offsets_written (final a : Assembler) (calls : List Call) :
    Decoding.offsets a.offset ((emissions a calls).map fun e => e.2.written final e.1) = a.offsets calls := by
  induction calls generalizing a with
  | nil => rfl
  | cons c calls ih =>
    have hrest := ih (c.run a)
    rw [(c.run_laid a).offset, ← length_writtenAll final,
      show final.writtenAll ((c.segments a.offset).map fun s => (a.offset, s)) = c.written final a.offset from
        rfl] at hrest
    by_cases hc : c.emits
    · simpa [emissions, Assembler.offsets, hc, Decoding.offsets] using hrest
    · rw [Call.written, Call.segments_of_not_emits hc] at hrest
      simpa [emissions, Assembler.offsets, hc, writtenAll] using hrest

theorem complete_of_mem {a : Assembler} {calls : List Call} (h : WellFormed a calls) {e : Nat × Call}
    (he : e ∈ emissions a calls) : e.2.Complete e.1 := by
  induction calls generalizing a with
  | nil => simp [emissions] at he
  | cons c calls ih =>
    unfold emissions at he
    split at he
    · rcases List.mem_cons.1 he with rfl | he
      · exact h.1.complete
      · exact ih h.2 he
    · exact ih h.2 he

theorem padding_aligned (o : Nat) : (padding o).length < 4 ∧ (o + 1 + (padding o).length) % 4 = 0 := by
  simp [padding]
  omega

section Written

variable (a : Assembler) (o : Nat)

theorem written_near {op : UInt8} (hop : op ≠ 0xc8) (l : Label) :
    (Call.branch op l).written a o = op :: bytes16 (a.place l - o) := by
  simp [Call.written, writtenAll, Call.segments, Segment.written, hop]

theorem written_far (l : Label) : (Call.branch 0xc8 l).written a o = 0xc8 :: bytes32 (a.place l - o) := by
  simp [Call.written, writtenAll, Call.segments, Segment.written]

theorem written_tableSwitch (low : Int32) (targets : List Label) (default : Label) :
    (Call.tableSwitch low targets default).written a o =
      0xaa :: (padding o ++ (bytes32 (a.place default - o) ++ (bytes32 low.toInt ++
        (bytes32 (lastKey low targets.length).toInt ++ targets.flatMap fun l => bytes32 (a.place l - o))))) := by
  simp [Call.written, writtenAll, Call.segments, Segment.written, List.flatMap_map]

theorem written_lookupSwitch (pairs : List (Int32 × Label)) (default : Label) :
    (Call.lookupSwitch pairs default).written a o =
      0xab :: (padding o ++ (bytes32 (a.place default - o) ++ (bytes32 pairs.length ++
        pairs.flatMap fun p => bytes32 p.1.toInt ++ bytes32 (a.place p.2 - o)))) := by
  simp [Call.written, writtenAll, Call.segments, Segment.written, List.flatMap_map, List.flatMap_assoc]

end Written

/-- What a complete call has come to is one complete instruction. -/
theorem encoded_written (a : Assembler) {o : Nat} {c : Call} (hemits : c.emits) (hc : c.Complete o)
    (hsize : o + (c.written a o).length < 2 ^ 31) : Encoded o (c.written a o) := by
  cases c with
  | label => simp [Call.emits] at hemits
  | bind l => simp [Call.emits] at hemits
  | handler start stop target catchType => simp [Call.emits] at hemits
  | branch op l =>
    by_cases hgoto : op = 0xc8
    · subst hgoto
      rw [written_far]
      exact .fixed rfl
    · rw [written_near a o hgoto]
      exact .fixed (hc.resolve_left hgoto)
  | tableSwitch low targets default =>
    have hlow := low.le_toInt
    have hlength : 0 < targets.length := List.length_pos_iff.2 hc.1
    have hrange := hc.2
    rw [written_tableSwitch, toInt_lastKey hlength hrange]
    refine .tableSwitch (padding_aligned o) rfl ⟨by omega, by omega, by omega⟩ ?_
    simp [List.length_flatMap]
    omega
  | lookupSwitch pairs default =>
    rw [written_lookupSwitch] at hsize ⊢
    refine .lookupSwitch (padding_aligned o) rfl ?_ ?_
    · simp [List.length_flatMap] at hsize
      omega
    · simp [List.length_flatMap]
      omega
  | emit op => exact hc
  | emitByte op operand => exact hc
  | emitShort op operand => simpa [Call.written, writtenAll, Call.segments, Segment.written, Call.Complete] using hc
  | raw bytes => simpa [Call.written, writtenAll, Call.segments, Segment.written, Call.Complete] using hc
  | increment slot delta => exact hc
  | invokeInterface index slots => exact hc
  | multiNewArray index dims => exact hc

end Assembler

namespace Decoding
open Bytes Assembler

section Targets

variable {b : Body} {pc : Nat} {op : UInt8}

/-- A short branch decodes to the instruction its distance leads to. -/
theorem operation_near (hop : b.code[pc]? = some op)
    (hjump : (0x99 ≤ op.toNat ∧ op.toNat ≤ 0xa7) ∨ op.toNat = 0xc6 ∨ op.toNat = 0xc7) {t : Nat}
    (ht : shortTarget b pc = .ok t) : ∃ i, operation b pc = .ok (.plain i) ∧ i.branchTargets = [t] := by
  unfold operation
  dsimp only
  rw [except_bind_of_ok (byteAt_eq_ok.2 hop)]
  rcases hjump with hflow | hnull
  · simp (disch := omega) only [if_neg, if_pos]
    unfold flow
    by_cases hzero : op.toNat ≤ 0x9e
    · rw [if_pos hzero, except_bind_of_ok ht]
      exact ⟨_, rfl, rfl⟩
    rw [if_neg hzero]
    by_cases hcmp : op.toNat ≤ 0xa4
    · rw [if_pos hcmp, except_bind_of_ok ht]
      exact ⟨_, rfl, rfl⟩
    rw [if_neg hcmp]
    by_cases href : op.toNat ≤ 0xa6
    · rw [if_pos href, except_bind_of_ok ht]
      exact ⟨_, rfl, rfl⟩
    rw [if_neg href, if_pos (by omega), except_bind_of_ok ht]
    exact ⟨_, rfl, rfl⟩
  · simp (disch := omega) only [if_neg, if_pos]
    rw [except_bind_of_ok ht]
    exact ⟨_, rfl, rfl⟩

theorem operation_far (hop : b.code[pc]? = some 0xc8) {d : Int} (hd : signed32 b.code (pc + 1) = .ok d)
    {t : Nat} (ht : b.target pc d = .ok t) : operation b pc = .ok (.plain (.goto t)) := by
  unfold operation
  dsimp only
  rw [except_bind_of_ok (byteAt_eq_ok.2 hop)]
  simp only [UInt8.reduceToNat, Nat.reduceLeDiff, Nat.reduceEqDiff, or_self, if_false, if_true]
  rw [except_bind_of_ok hd, except_bind_of_ok ht]
  rfl

theorem operation_tableSwitch (hop : b.code[pc]? = some 0xaa) {i : Instruction}
    (hi : tableSwitch b pc = .ok i) : operation b pc = .ok (.plain i) := by
  unfold operation
  dsimp only
  rw [except_bind_of_ok (byteAt_eq_ok.2 hop)]
  simp only [UInt8.reduceToNat, Nat.reduceLeDiff, Nat.reduceEqDiff, or_self, if_false, if_true, flow]
  rw [except_bind_of_ok hi]
  rfl

theorem operation_lookupSwitch (hop : b.code[pc]? = some 0xab) :
    operation b pc = lookupSwitch b pc >>= fun i => .ok (.plain i) := by
  unfold operation
  dsimp only
  rw [except_bind_of_ok (byteAt_eq_ok.2 hop)]
  simp only [UInt8.reduceToNat, Nat.reduceLeDiff, Nat.reduceEqDiff, or_self, if_false, if_true, flow]
  rfl

/-- Where the distances to labels lead, for labels whose distances fit thirty-two bits. -/
def Reaches (b : Body) (a : Assembler) (pc : Nat) (l : Label) (t : Nat) : Prop :=
  (-2 ^ 31 ≤ (a.place l : Int) - pc ∧ (a.place l : Int) - pc < 2 ^ 31) ∧ b.target pc (a.place l - pc) = .ok t

variable {a : Assembler}

theorem tableTargets_of_holds {base i : Nat} {ls : List Label} {ts : List Nat}
    (hcode : Holds b.code (base + 12 + 4 * i) (ls.flatMap fun l => bytes32 (a.place l - pc)))
    (hls : List.Forall₂ (Reaches b a pc) ls ts) : tableTargets b pc base ls.length i = .ok ts := by
  induction hls generalizing i with
  | nil => rfl
  | @cons l t ls ts hl _ ih =>
    have hd := signed32_of_holds hcode.left hl.1
    have hrest := ih (i := i + 1) hcode.right
    rw [List.length_cons, tableTargets, except_bind_of_ok hd, except_bind_of_ok hl.2, except_bind_of_ok hrest]
    rfl

theorem lookupPairs_of_holds {base i : Nat} {ps : List (Int32 × Label)} {qs : List (Int32 × Nat)}
    (hcode : Holds b.code (base + 8 + 8 * i)
      (ps.flatMap fun p => bytes32 p.1.toInt ++ bytes32 (a.place p.2 - pc)))
    (hps : List.Forall₂ (fun p q => p.1 = q.1 ∧ Reaches b a pc p.2 q.2) ps qs) :
    lookupPairs b pc base ps.length i = .ok qs := by
  induction hps generalizing i with
  | nil => rfl
  | @cons p q ps qs hp _ ih =>
    have hkey := signed32_of_holds hcode.left.left ⟨p.1.le_toInt, p.1.toInt_lt⟩
    have hd : signed32 b.code (base + 8 + 8 * i + 4) = .ok (a.place p.2 - pc) :=
      signed32_of_holds hcode.left.right hp.2.1
    have hrest := ih (i := i + 1) hcode.right
    rw [List.length_cons, lookupPairs, except_bind_of_ok hkey, except_bind_of_ok hd, except_bind_of_ok hp.2.2,
      except_bind_of_ok hrest, Int32.ofInt_toInt, hp.1]
    rfl

theorem tableSwitch_of_holds {low : Int32} {ls : List Label} {default : Label} {ts : List Nat} {t : Nat}
    (hcode : Holds b.code pc ((Call.tableSwitch low ls default).written a pc))
    (hcomplete : (Call.tableSwitch low ls default).Complete pc)
    (hls : List.Forall₂ (Reaches b a pc) ls ts) (hdefault : Reaches b a pc default t) :
    tableSwitch b pc = .ok (.tableSwitch low ts t) := by
  have hbase := switchBase_of_aligned (padding_aligned pc)
  have hlength : 0 < ls.length := List.length_pos_iff.2 hcomplete.1
  have hfrom := low.le_toInt
  have hto := hcomplete.2
  rw [written_tableSwitch, toInt_lastKey hlength hto] at hcode
  have hoperands := hcode.tail.right
  rw [← hbase] at hoperands
  have hd : signed32 b.code (switchBase pc) = .ok (a.place default - pc) :=
    signed32_of_holds hoperands.left hdefault.1
  have hlow : signed32 b.code (switchBase pc + 4) = .ok low.toInt :=
    signed32_of_holds hoperands.right.left ⟨low.le_toInt, low.toInt_lt⟩
  have hhigh : signed32 b.code (switchBase pc + 8) = .ok (low.toInt + ls.length - 1) :=
    signed32_of_holds hoperands.right.right.left ⟨by omega, by omega⟩
  have htargets : tableTargets b pc (switchBase pc) ls.length 0 = .ok ts :=
    tableTargets_of_holds hoperands.right.right.right hls
  unfold tableSwitch
  dsimp only
  rw [except_bind_of_ok hd, except_bind_of_ok hdefault.2, except_bind_of_ok hlow, except_bind_of_ok hhigh,
    show (low.toInt + ls.length - 1 - low.toInt + 1).toNat = ls.length by omega, except_bind_of_ok htargets,
    Int32.ofInt_toInt]
  rfl

theorem lookupSwitch_of_holds {ps : List (Int32 × Label)} {default : Label} {qs : List (Int32 × Nat)} {t : Nat}
    (hcode : Holds b.code pc ((Call.lookupSwitch ps default).written a pc)) (hcount : ps.length < 2 ^ 31)
    (hps : List.Forall₂ (fun p q => p.1 = q.1 ∧ Reaches b a pc p.2 q.2) ps qs)
    (hdefault : Reaches b a pc default t) : lookupSwitch b pc = .ok (.lookupSwitch qs t) := by
  rw [written_lookupSwitch] at hcode
  have hbase := switchBase_of_aligned (padding_aligned pc)
  have hoperands := hcode.tail.right
  rw [← hbase] at hoperands
  have hd : signed32 b.code (switchBase pc) = .ok (a.place default - pc) :=
    signed32_of_holds hoperands.left hdefault.1
  have hlength : signed32 b.code (switchBase pc + 4) = .ok ps.length :=
    signed32_of_holds hoperands.right.left ⟨by omega, by omega⟩
  have hpairs : lookupPairs b pc (switchBase pc) ps.length 0 = .ok qs :=
    lookupPairs_of_holds hoperands.right.right hps
  unfold lookupSwitch
  dsimp only
  rw [except_bind_of_ok hd, except_bind_of_ok hdefault.2, except_bind_of_ok hlength, Int.toNat_natCast,
    except_bind_of_ok hpairs]
  rfl

end Targets

end Decoding

namespace Assembler
open Bytes Decoding

/-- Calls that emit a branch or a switch. -/
def Call.isJump : Call → Bool
  | branch op _ => (0x99 ≤ op.toNat && op.toNat ≤ 0xa7) || (0xc6 ≤ op.toNat && op.toNat ≤ 0xc8)
  | tableSwitch _ _ _ | lookupSwitch _ _ => true
  | _ => false

/-- A decoded branch or switch jumps where the labels of the call land, with the call's keys. -/
def Call.Renders (calls : List Call) : Call → Instruction → Prop
  | branch _ l, i => ∃ t, i.branchTargets = [t] ∧ Lands calls l t
  | tableSwitch low targets default, i => ∃ ts t, i = .tableSwitch low ts t ∧
      List.Forall₂ (Lands calls) targets ts ∧ Lands calls default t
  | lookupSwitch pairs default, i => ∃ qs t, i = .lookupSwitch qs t ∧
      List.Forall₂ (fun p q => p.1 = q.1 ∧ Lands calls p.2 q.2) pairs qs ∧ Lands calls default t
  | _, _ => False

/-- A finished body reads back as the calls that made it: instructions start where they were emitted,
and every branch and switch decodes to one that jumps where its labels land. -/
structure ReadsBack (a : Assembler) (calls : List Call) (body : RawCode) : Prop where
  boundaries : starts body.code = .ok (a.offsets calls)
  jumps : ∀ k o c, (emissions a calls)[k]? = some (o, c) → c.isJump → ∃ i, c.Renders calls i ∧
    operation (.ofStarts body.code (a.offsets calls)) o = .ok (.plain i) ∧
    ∀ pool subject l, Ends (decode pool subject body l) (fun code _ => code.get? k = some i) fun _ _ => True

section Finished

variable {a final : Assembler} {calls : List Call} {code : Array UInt8} (hstart : a.offset = 0)
  (hcode : code = (final.writtenAll (a.pieces calls)).toArray)
include hstart hcode

/-- The bytes of a finished body are those of its instructions, one after the other. -/
theorem holds_written {e : Nat × Call} (he : e ∈ emissions a calls) :
    Holds code e.1 (e.2.written final e.1) := by
  have hflat : code.toList = [] ++ ((emissions a calls).map fun e => e.2.written final e.1).flatten := by
    rw [hcode, writtenAll_pieces]
    rfl
  have hoffsets := offsets_written final a calls
  rw [hstart] at hoffsets
  apply holds_pieces hflat (e.1, e.2.written final e.1)
  rw [List.length_nil, hoffsets, Assembler.offsets, List.zip_map']
  exact List.mem_map_of_mem he

theorem split_written (h : WellFormed a calls) (hsize : code.size < 2 ^ 31) :
    Split code 0 (a.offsets calls) := by
  have hflat : code.toList = [] ++ ((emissions a calls).map fun e => e.2.written final e.1).flatten := by
    rw [hcode, writtenAll_pieces]
    rfl
  have hoffsets := offsets_written final a calls
  rw [hstart] at hoffsets
  rw [← hoffsets]
  apply split_of_encoded hflat
  rw [List.length_nil, hoffsets, Assembler.offsets, List.zip_map']
  intro p hp
  obtain ⟨e, he, rfl⟩ := List.mem_map.1 hp
  have hfits := (holds_written hstart hcode he).le_size
  have hshort : e.1 + (e.2.written final e.1).length < 2 ^ 31 := by omega
  exact encoded_written final (emits_of_mem_emissions he) (complete_of_mem h he) hshort

end Finished

section Jumps

variable {a : Assembler} {calls : List Call} {code : Array UInt8} (h : WellFormed a calls)
  (hsplit : Split code 0 (a.offsets calls)) (hsize : code.size < 2 ^ 31)
include h hsplit hsize

/-- The distance to a label leads to the instruction where the label lands. -/
theorem reaches_of_lands {o : Nat} (ho : o ∈ a.offsets calls) {l : Label} {k : Nat} (hk : Lands calls l k) :
    Reaches (.ofStarts code (a.offsets calls)) (a.runAll calls) o l k := by
  obtain ⟨p, hp, hresolve⟩ := resolve_of_lands h hk
  have hlt := hsplit.lt_of_mem (List.mem_of_getElem? hp)
  have hlt' := hsplit.lt_of_mem ho
  rw [Reaches, place_of_resolve hresolve]
  exact ⟨by omega, (target_ok hsplit).2 ⟨p, hp, by omega⟩⟩

theorem jump_renders {o : Nat} {c : Call} (he : (o, c) ∈ emissions a calls) (hjump : c.isJump)
    (hholds : Holds code o (c.written (a.runAll calls) o)) (hlabels : ∀ l ∈ c.labels, ∃ k, Lands calls l k)
    (hnear : c.near → ∀ l ∈ c.labels, -32768 ≤ ((a.runAll calls).place l : Int) - o ∧
      ((a.runAll calls).place l : Int) - o ≤ 32767) :
    ∃ i, c.Renders calls i ∧ operation (.ofStarts code (a.offsets calls)) o = .ok (.plain i) := by
  have ho : o ∈ a.offsets calls := List.mem_map.2 ⟨(o, c), he, rfl⟩
  have hreaches : ∀ {l k}, Lands calls l k → Reaches (.ofStarts code (a.offsets calls)) (a.runAll calls) o l k :=
    fun hk => reaches_of_lands h hsplit hsize ho hk
  cases c with
  | branch op l =>
    obtain ⟨k, hk⟩ := hlabels l (by simp [Call.labels])
    by_cases hgoto : op = 0xc8
    · subst hgoto
      rw [written_far] at hholds
      have hd := signed32_of_holds hholds.tail (hreaches hk).1
      exact ⟨.goto k, ⟨k, rfl, hk⟩, operation_far hholds.head hd (hreaches hk).2⟩
    · rw [written_near _ _ hgoto] at hholds
      have hd := signed16_of_holds hholds.tail (hnear (by simpa [Call.near] using hgoto) l (by simp [Call.labels]))
      have ht : shortTarget (.ofStarts code (a.offsets calls)) o = .ok k := by
        unfold shortTarget
        rw [Body.ofStarts_code, except_bind_of_ok hd]
        exact (hreaches hk).2
      have hne : op.toNat ≠ 0xc8 := fun heq => hgoto (UInt8.toNat_inj.1 heq)
      simp only [Call.isJump, Bool.or_eq_true, Bool.and_eq_true, decide_eq_true_eq] at hjump
      obtain ⟨i, hi, htargets⟩ := operation_near hholds.head (by omega) ht
      exact ⟨i, ⟨k, htargets, hk⟩, hi⟩
  | tableSwitch low targets default =>
    obtain ⟨k, hk⟩ := hlabels default (by simp [Call.labels])
    have htargets : ∀ l ∈ targets, ∃ t, Lands calls l t := fun l hl => hlabels l (by simp [Call.labels, hl])
    obtain ⟨ts, hts⟩ := Lists.exists_forall₂ htargets
    have htable := tableSwitch_of_holds (b := .ofStarts code (a.offsets calls)) hholds (complete_of_mem h he)
      (hts.imp fun l t ht => hreaches ht) (hreaches hk)
    rw [written_tableSwitch] at hholds
    exact ⟨_, ⟨ts, k, rfl, hts, hk⟩, operation_tableSwitch hholds.head htable⟩
  | lookupSwitch pairs default =>
    obtain ⟨k, hk⟩ := hlabels default (by simp [Call.labels])
    have hpairs : ∀ p ∈ pairs, ∃ q : Int32 × Nat, p.1 = q.1 ∧ Lands calls p.2 q.2 := by
      intro p hp
      obtain ⟨t, ht⟩ := hlabels p.2 (by simp only [Call.labels, List.mem_cons, List.mem_map]; exact .inr ⟨p, hp, rfl⟩)
      exact ⟨(p.1, t), rfl, ht⟩
    obtain ⟨qs, hqs⟩ := Lists.exists_forall₂ hpairs
    have hcount : pairs.length < 2 ^ 31 := by
      have hfits := hholds.le_size
      rw [written_lookupSwitch] at hfits
      simp [List.length_flatMap] at hfits
      omega
    have hlookup := lookupSwitch_of_holds (b := .ofStarts code (a.offsets calls)) hholds hcount
      (hqs.imp fun p q hpq => ⟨hpq.1, hreaches hpq.2⟩) (hreaches hk)
    rw [written_lookupSwitch] at hholds
    refine ⟨_, ⟨qs, k, rfl, hqs, hk⟩, ?_⟩
    rw [operation_lookupSwitch hholds.head, hlookup]
    rfl
  | _ => simp [Call.isJump] at hjump

end Jumps

/-- The labels of an instruction are used by it. -/
theorem use_mem {a : Assembler} {calls : List Call} {o : Nat} {c : Call} (he : (o, c) ∈ emissions a calls)
    {l : Label} (hl : l ∈ c.labels) : ⟨c.near, o, l⟩ ∈ a.uses calls :=
  List.mem_append_left _ (List.mem_flatMap.2 ⟨(o, c), he, List.mem_map_of_mem hl⟩)

/-- A resolved instruction stays what it decoded to in every linked body. -/
theorem decode_get? {body : RawCode} {pcs : List Nat} (hpcs : starts body.code = .ok pcs) {k o : Nat}
    (ho : pcs[k]? = some o) {i : Instruction} (hi : operation (.ofStarts body.code pcs) o = .ok (.plain i))
    (pool : ConstantPool) (subject : String) (l : Linker) :
    Ends (decode pool subject body l) (fun code _ => code.get? k = some i) fun _ _ => True := by
  apply (decode_decoded pool subject body l).mono
  · rintro code _ ⟨pcs', hdecoded⟩
    have heq : pcs' = pcs := Except.ok.inj (hdecoded.split.symm.trans hpcs)
    subst heq
    obtain ⟨j, hj, op, hop, hform⟩ := Lists.getElem?_of_forall₂ hdecoded.instructions ho
    rw [hi, Except.ok.injEq] at hop
    subst hop
    rw [Array.getElem?_toList] at hj
    rw [← show j = i from hform]
    exact hj
  · exact fun _ _ h => h

theorem readsBack_of_sound {maxStack maxLocals : Nat} {calls : List Call}
    (h : WellFormed (fresh maxStack maxLocals) calls)
    (hsize : ((fresh maxStack maxLocals).runAll calls).offset < 2 ^ 31)
    (hsound : ∀ u ∈ (fresh maxStack maxLocals).uses calls, ∀ e, ¬ Faults (fresh maxStack maxLocals) calls u e)
    {body : RawCode} (hbody : body.code = (((fresh maxStack maxLocals).runAll calls).writtenAll
      ((fresh maxStack maxLocals).pieces calls)).toArray) :
    ReadsBack (fresh maxStack maxLocals) calls body := by
  have hshort : body.code.size < 2 ^ 31 := by
    rw [hbody, List.size_toArray, length_writtenAll]
    rw [(runAll_laid _ calls).offset] at hsize
    exact Nat.lt_of_le_of_lt (Nat.le_add_left _ _) hsize
  have hsplit := split_written rfl hbody h hshort
  refine ⟨starts_ok.2 hsplit, ?_⟩
  intro k o c hk hjump
  have he := List.mem_of_getElem? hk
  have hlabels : ∀ l ∈ c.labels, ∃ k, Lands calls l k :=
    fun l hl => exists_lands_of_sound (hsound _ (use_mem he hl))
  have hnear : c.near → ∀ l ∈ c.labels,
      -32768 ≤ (((fresh maxStack maxLocals).runAll calls).place l : Int) - o ∧
        (((fresh maxStack maxLocals).runAll calls).place l : Int) - o ≤ 32767 := by
    intro hnear l hl
    obtain ⟨k, hk⟩ := hlabels l hl
    obtain ⟨p, hp, hresolve⟩ := resolve_of_lands h hk
    rw [place_of_resolve hresolve]
    by_contra hfar
    exact hsound _ (use_mem he hl) (.outOfRange o) ⟨rfl, hnear, k, p, hk, hp, hfar⟩
  obtain ⟨i, hrenders, hi⟩ := jump_renders h hsplit hshort he hjump (holds_written rfl hbody he) hlabels hnear
  have ho : ((fresh maxStack maxLocals).offsets calls)[k]? = some o := by
    rw [Assembler.offsets, List.getElem?_map, hk]
    rfl
  exact ⟨i, hrenders, hi, decode_get? (starts_ok.2 hsplit) ho hi⟩

/-- What a sequence of calls comes to. -/
def assemble (maxStack maxLocals : Nat) (calls : List Call) : Except AssemblyError RawCode :=
  ((fresh maxStack maxLocals).runAll calls).finish

theorem assemble_error {maxStack maxLocals : Nat} {calls : List Call}
    (h : WellFormed (fresh maxStack maxLocals) calls) {before after : List Use} {u : Use}
    (huses : (fresh maxStack maxLocals).uses calls = before ++ u :: after)
    (hbefore : ∀ v ∈ before, ∀ e, ¬ Faults (fresh maxStack maxLocals) calls v e) {e : AssemblyError}
    (hfault : Faults (fresh maxStack maxLocals) calls u e) : assemble maxStack maxLocals calls = .error e := by
  have hfinish := finish_eq maxStack maxLocals calls
  dsimp only at hfinish
  rw [assemble, hfinish, huses,
    Lists.forM_error (fun v hv => check_ok h (hbefore v hv)) (check_error h hfault)]
  rfl

/-- Finishing reports the first use of a label that cannot be met, operands in the order of emission
before handlers. When there is none it succeeds, and decoding finds the instructions where they were
emitted, with every branch and switch leading to the instruction behind the last binding of its
label. -/
theorem assemble_readsBack (maxStack maxLocals : Nat) (calls : List Call)
    (h : WellFormed (fresh maxStack maxLocals) calls)
    (hsize : ((fresh maxStack maxLocals).runAll calls).offset < 2 ^ 31) :
    let start := fresh maxStack maxLocals
    (∀ before u after e, start.uses calls = before ++ u :: after → (∀ v ∈ before, ∀ e, ¬ Faults start calls v e) →
      Faults start calls u e → assemble maxStack maxLocals calls = .error e) ∧
    ((∀ u ∈ start.uses calls, ∀ e, ¬ Faults start calls u e) →
      ∃ body, assemble maxStack maxLocals calls = .ok body ∧ ReadsBack start calls body) := by
  constructor
  · intro before u after e huses hbefore hfault
    exact assemble_error h huses hbefore hfault
  · intro hsound
    have hfinish := finish_eq maxStack maxLocals calls
    dsimp only at hfinish
    rw [assemble, hfinish, except_bind_of_ok (Lists.forM_ok fun u hu => check_ok h (hsound u hu))]
    exact ⟨_, rfl, readsBack_of_sound h hsize hsound rfl⟩

/-- A switch over one key, behind it a branch to the end. -/
def smallSwitch : List Call :=
  [.label, .label, .emit 0x03, .tableSwitch 5 [0] 1, .bind 0, .branch 0xa7 1, .bind 1, .emit 0xb1]

theorem smallSwitch_readsBack :
    WellFormed (fresh 1 0) smallSwitch ∧ ((fresh 1 0).runAll smallSwitch).offset < 2 ^ 31 ∧
      ∃ body, assemble 1 0 smallSwitch = .ok body ∧ ReadsBack (fresh 1 0) smallSwitch body := by
  have hwell : WellFormed (fresh 1 0) smallSwitch := by
    refine ⟨⟨trivial, by decide, by simp⟩, ⟨trivial, by decide, by simp⟩, ⟨.fixed rfl, by decide, by simp⟩,
      ⟨⟨by simp, by decide⟩, by decide, by simp⟩, ⟨trivial, by decide, ?_⟩, ⟨.inr rfl, by decide, by simp⟩,
      ⟨trivial, by decide, ?_⟩, ⟨.fixed rfl, by decide, by simp⟩, trivial⟩
    · exact fun l _ => ⟨.emit 0xb1, by simp, rfl⟩
    · exact fun l _ => ⟨.emit 0xb1, by simp, rfl⟩
  have hsize : ((fresh 1 0).runAll smallSwitch).offset < 2 ^ 31 := by decide
  have hsound : ∀ u ∈ (fresh 1 0).uses smallSwitch, ((fresh 1 0).runAll smallSwitch).check u = .ok () := by
    decide
  refine ⟨hwell, hsize, (assemble_readsBack 1 0 smallSwitch hwell hsize).2 ?_⟩
  intro u hu e hfault
  have hok := hsound u hu
  rw [check_error hwell hfault] at hok
  simp at hok

/-- A branch over a switch with `n` entries, and one to a label without a binding. -/
def overSwitch (n : Nat) : List Call :=
  [.label, .label, .branch 0xa7 0, .tableSwitch 0 (List.replicate n 0) 0, .bind 0, .emit 0x00, .branch 0xa7 1]

/-- The assembler of `overSwitch` up to its switch. -/
def beforeSwitch : Assembler := (fresh 1 0).runAll [.label, .label, .branch 0xa7 0]

theorem labels_afterSwitch (n : Nat) :
    ((Call.tableSwitch 0 (List.replicate n 0) 0).run beforeSwitch).labels = #[none, none] :=
  (run_keeps beforeSwitch rfl).1

theorem offset_afterSwitch (n : Nat) :
    ((Call.tableSwitch 0 (List.replicate n 0) 0).run beforeSwitch).offset = 4 * n + 16 := by
  have hlength : ((Call.tableSwitch 0 (List.replicate n 0) 0).written (fresh 1 0) 3).length = 4 * n + 13 := by
    rw [written_tableSwitch]
    simp [List.length_flatMap, padding]
    omega
  rw [((Call.tableSwitch 0 (List.replicate n 0) 0).run_laid beforeSwitch).offset, ← length_writtenAll (fresh 1 0)]
  calc
    _ = 3 + (4 * n + 13) := congrArg (3 + ·) hlength
    _ = 4 * n + 16 := by omega

theorem overSwitch_wellFormed {n : Nat} (hpos : 0 < n) (hn : n < 2 ^ 31) :
    WellFormed (fresh 1 0) (overSwitch n) := by
  refine ⟨⟨trivial, by decide, by simp⟩, ⟨trivial, by decide, by simp⟩, ⟨.inr rfl, by decide, by simp⟩,
    ⟨⟨?_, ?_⟩, ?_, by simp⟩, ⟨trivial, ?_, fun l _ => ⟨.emit 0, by simp, rfl⟩⟩,
    ⟨.fixed rfl, by simp [Call.labels], by simp⟩, ⟨.inr rfl, ?_, by simp⟩, trivial⟩
  · exact List.ne_nil_of_length_pos (by simpa using hpos)
  · simp
    omega
  · intro l hl
    have hzero : l = 0 := by
      rcases List.mem_cons.1 hl with rfl | hl
      · rfl
      · exact List.eq_of_mem_replicate hl
    rw [hzero]
    decide
  · intro l hl
    show l < ((Call.tableSwitch 0 (List.replicate n 0) 0).run beforeSwitch).labels.size
    rw [labels_afterSwitch]
    simp [Call.labels] at hl
    simp [hl]
  · intro l hl
    show l < (((Call.tableSwitch 0 (List.replicate n 0) 0).run beforeSwitch).labels.setIfInBounds 0 _).size
    rw [Array.size_setIfInBounds, labels_afterSwitch]
    simp [Call.labels] at hl
    simp [hl]

theorem offset_overSwitch (n : Nat) : ((fresh 1 0).runAll (overSwitch n)).offset = 4 * n + 20 := by
  have hbranch := ((Call.branch 0xa7 1).run_laid ((fresh 1 0).runAll ((overSwitch n).take 6))).offset
  have hemit := ((Call.emit 0x00).run_laid ((fresh 1 0).runAll ((overSwitch n).take 5))).offset
  have hbind : ((fresh 1 0).runAll ((overSwitch n).take 5)).offset = 4 * n + 16 := offset_afterSwitch n
  rw [hbind] at hemit
  calc
    _ = ((fresh 1 0).runAll ((overSwitch n).take 6)).offset + 3 := hbranch
    _ = (4 * n + 16 + 1) + 3 := congrArg (· + 3) hemit

theorem assemble_overSwitch {n : Nat} (hfar : 8188 ≤ n) (hn : n < 2 ^ 31) :
    assemble 1 0 (overSwitch n) = .error (.outOfRange 0) := by
  have hwell := overSwitch_wellFormed (by omega) hn
  have hlands : Lands (overSwitch n) 0 2 :=
    ⟨(overSwitch n).take 4, (overSwitch n).drop 5, rfl, by simp [overSwitch], rfl⟩
  have hoffset : (offsets (fresh 1 0) (overSwitch n))[2]? = some (4 * n + 16) :=
    congrArg some (offset_afterSwitch n)
  have huses : (fresh 1 0).uses (overSwitch n) = [] ++ ⟨true, 0, 0⟩ :: ((fresh 1 0).uses (overSwitch n)).tail := rfl
  exact assemble_error hwell huses (by simp) ⟨rfl, rfl, 2, 4 * n + 16, hlands, hoffset, by omega⟩

/-- A label may be without a binding and the error still be another: an earlier branch over the switch
does not reach its label. -/
theorem overSwitch_not_unbound :
    WellFormed (fresh 1 0) (overSwitch 8192) ∧ ((fresh 1 0).runAll (overSwitch 8192)).offset < 2 ^ 31 ∧
      (∃ u ∈ (fresh 1 0).uses (overSwitch 8192), ∀ k, ¬ Lands (overSwitch 8192) u.label k) ∧
      ∀ l, assemble 1 0 (overSwitch 8192) ≠ .error (.unboundLabel l) := by
  refine ⟨overSwitch_wellFormed (by decide) (by decide), ?_, ?_, ?_⟩
  · rw [offset_overSwitch]
    decide
  · have hbranch : (_, Call.branch 0xa7 1) ∈ emissions (fresh 1 0) (overSwitch 8192) :=
      List.mem_of_getElem? (i := 3) rfl
    refine ⟨_, use_mem hbranch (List.mem_singleton.2 rfl), ?_⟩
    intro k hk
    have hmem := mem_of_lands hk
    simp only [overSwitch, List.mem_cons, reduceCtorEq, Call.bind.injEq, List.not_mem_nil, or_self] at hmem
  · intro l
    rw [assemble_overSwitch (by decide) (by decide)]
    simp

end Assembler

end ClassMachine
