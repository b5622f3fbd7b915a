import ClassMachine.Bytecode.Assembler
import ClassMachine.Bytecode.Opcode
import ClassMachine.Proofs.Lists
import Mathlib.Algebra.Order.Ring.Int

/-!
What an assembler has written. Every call appends segments, either bytes or room for the distance to a
label, and finishing checks the labels in the order of their use and fills the room in. So a body is
the concatenation of what its calls stand for, and the first use that cannot be met is the error.
-/
namespace ClassMachine
open Stateful

namespace Assembler

/-- A call of an assembler. -/
inductive Call where
  | label
  | bind (label : Label)
  | emit (op : UInt8)
  | emitByte (op operand : UInt8)
  | emitShort (op : UInt8) (operand : Int)
  | raw (bytes : List UInt8)
  | increment (slot delta : UInt8)
  | invokeInterface (index : Nat) (slots : UInt8)
  | multiNewArray (index : Nat) (dims : UInt8)
  | branch (op : UInt8) (label : Label)
  | tableSwitch (low : Int32) (targets : List Label) (default : Label)
  | lookupSwitch (pairs : List (Int32 × Label)) (default : Label)
  | handler (start stop target : Label) (catchType : Nat)
  deriving DecidableEq, Repr

namespace Call

def run (a : Assembler) : Call → Assembler
  | label => a.label.2
  | bind l => a.bind l
  | emit op => a.emit op
  | emitByte op operand => a.emitByte op operand
  | emitShort op operand => a.emitShort op operand
  | raw bytes => a.raw bytes
  | increment slot delta => a.increment slot delta
  | invokeInterface index slots => a.invokeInterface index slots
  | multiNewArray index dims => a.multiNewArray index dims
  | branch op l => a.branch op l
  | tableSwitch low targets default => a.tableSwitch low targets default
  | lookupSwitch pairs default => a.lookupSwitch pairs default
  | handler start stop target catchType => a.handler start stop target catchType

/-- Whether the call appends an instruction. -/
def emits : Call → Bool
  | label | bind _ | handler _ _ _ _ => false
  | _ => true

/-- Labels the call names. -/
def labels : Call → List Label
  | bind l | branch _ l => [l]
  | tableSwitch _ targets default => default :: targets
  | lookupSwitch pairs default => default :: pairs.map (·.2)
  | handler start stop target _ => [start, stop, target]
  | _ => []

end Call

/-- The assembler after a sequence of calls. -/
def runAll (a : Assembler) (calls : List Call) : Assembler := calls.foldl Call.run a

/-- Instructions emitted by a sequence of calls, with the offsets they were emitted at. -/
def emissions (a : Assembler) : List Call → List (Nat × Call)
  | [] => []
  | c :: rest => if c.emits then (a.offset, c) :: emissions (c.run a) rest else emissions (c.run a) rest

/-- The last binding of a label stands before instruction `index`. -/
def Lands (calls : List Call) (l : Label) (index : Nat) : Prop :=
  ∃ before after, calls = before ++ .bind l :: after ∧ .bind l ∉ after ∧ index = before.countP Call.emits

/-- A use of a label: in an operand of the instruction at `base`, near or far, or in a handler. -/
structure Use where
  near : Bool
  base : Nat
  label : Label
  deriving DecidableEq, Repr

/-- Part of an instruction: bytes, or room for the distance to a label. -/
inductive Segment where
  | bytes (bs : List UInt8)
  | near (label : Label)
  | far (label : Label)

/-- Bytes up to the next multiple of four behind the opcode at `base`. -/
def padding (base : Nat) : List UInt8 := List.replicate ((4 - (base + 1) % 4) % 4) 0

/-- What a call appends when the offset is `base`. -/
def Call.segments (base : Nat) : Call → List Segment
  | label | bind _ | handler _ _ _ _ => []
  | emit op => [.bytes [op]]
  | emitByte op operand => [.bytes [op, operand]]
  | emitShort op operand => [.bytes (op :: bytes16 operand)]
  | raw bytes => [.bytes bytes]
  | increment slot delta => [.bytes [0x84, slot, delta]]
  | invokeInterface index slots => [.bytes (0xb9 :: bytes16 index), .bytes [slots, 0]]
  | multiNewArray index dims => [.bytes (0xc5 :: bytes16 index), .bytes [dims]]
  | branch op l => [.bytes [op], if op = 0xc8 then .far l else .near l]
  | tableSwitch low targets default =>
    [.bytes [0xaa], .bytes (padding base), .far default,
      .bytes (bytes32 low.toInt ++ bytes32 (lastKey low targets.length).toInt)] ++ targets.map .far
  | lookupSwitch pairs default =>
    [.bytes [0xab], .bytes (padding base), .far default, .bytes (bytes32 pairs.length)] ++
      pairs.flatMap fun p => [.bytes (bytes32 p.1.toInt), .far p.2]

/-- Whether the label of a branch must be within sixteen bits. -/
def Call.near : Call → Bool
  | branch op _ => op ≠ 0xc8
  | _ => false

def Call.isHandler : Call → Bool
  | handler _ _ _ _ => true
  | _ => false

/-- Uses of labels in the order in which finishing comes to them: the operands of one instruction
after the other, the default of a switch first, then the handlers. -/
def uses (a : Assembler) (calls : List Call) : List Use :=
  ((emissions a calls).flatMap fun e => e.2.labels.map fun l => ⟨e.2.near, e.1, l⟩) ++
    (calls.filter Call.isHandler).flatMap fun c => c.labels.map fun l => ⟨false, 0, l⟩

/-- Appends a segment of the instruction at `base`. -/
def append (base : Nat) (a : Assembler) : Segment → Assembler
  | .bytes bs => a.raw bs
  | .near l => a.shortSlot base l
  | .far l => a.wideSlot base l

@[simp] theorem code_raw (a : Assembler) (bs : List UInt8) : (a.raw bs).code.toList = a.code.toList ++ bs :=
  Array.toList_appendList

@[simp] theorem offset_raw (a : Assembler) (bs : List UInt8) : (a.raw bs).offset = a.offset + bs.length := by
  simp [offset, ← Array.length_toList]

theorem run_emitting (a : Assembler) (c : Call) (h : c.emits) :
    c.run a = (c.segments a.offset).foldl (append a.offset) a := by
  cases c with
  | label => simp [Call.emits] at h
  | bind l => simp [Call.emits] at h
  | handler start stop target catchType => simp [Call.emits] at h
  | branch op l =>
    simp only [Call.run, branch, Call.segments, List.foldl_cons, List.foldl_nil]
    split <;> rfl
  | tableSwitch low targets default =>
    simp [Call.run, tableSwitch, switchHeader, Call.segments, List.foldl_map, append, emit, padding]
  | lookupSwitch pairs default =>
    simp [Call.run, lookupSwitch, switchHeader, Call.segments, List.foldl_flatMap, append, emit, padding]
  | _ => rfl

/-- Appending leaves labels and handlers alone. -/
theorem run_keeps (a : Assembler) {c : Call} (h : c.emits) :
    (c.run a).labels = a.labels ∧ (c.run a).handlers = a.handlers := by
  have hkeeps : ∀ (base : Nat) (segments : List Segment) (b : Assembler),
      (segments.foldl (append base) b).labels = b.labels ∧
        (segments.foldl (append base) b).handlers = b.handlers := by
    intro base segments
    induction segments with
    | nil => exact fun b => ⟨rfl, rfl⟩
    | cons s segments ih =>
      intro b
      rw [List.foldl_cons, (ih _).1, (ih _).2]
      cases s <;> exact ⟨rfl, rfl⟩
  rw [run_emitting a c h]
  exact hkeeps _ _ a

namespace Segment

/-- The bytes before labels are known. -/
def draft : Segment → List UInt8
  | bytes bs => bs
  | near _ => [0, 0]
  | far _ => [0, 0, 0, 0]

def uses (base : Nat) : Segment → List Use
  | bytes _ => []
  | near l => [⟨true, base, l⟩]
  | far l => [⟨false, base, l⟩]

def fixups (position base : Nat) : Segment → List Fixup
  | bytes _ => []
  | near l => [⟨false, position, base, l⟩]
  | far l => [⟨true, position, base, l⟩]

end Segment

/-- Operands to fill in for segments that start at a position, each with the offset of its
instruction. -/
def fixupsFrom : Nat → List (Nat × Segment) → List Fixup
  | _, [] => []
  | position, (base, s) :: rest => s.fixups position base ++ fixupsFrom (position + s.draft.length) rest

def drafts (ps : List (Nat × Segment)) : List UInt8 := ps.flatMap fun p => p.2.draft

theorem fixupsFrom_append (position : Nat) (ps qs : List (Nat × Segment)) :
    fixupsFrom position (ps ++ qs) = fixupsFrom position ps ++ fixupsFrom (position + (drafts ps).length) qs := by
  induction ps generalizing position with
  | nil => simp [fixupsFrom, drafts]
  | cons p ps ih => simp [fixupsFrom, ih, drafts, Nat.add_assoc]

/-- One assembler is another one with segments appended. -/
structure Laid (a : Assembler) (ps : List (Nat × Segment)) (b : Assembler) : Prop where
  code : b.code.toList = a.code.toList ++ drafts ps
  fixups : b.fixups.toList = a.fixups.toList ++ fixupsFrom a.offset ps
  limits : b.maxStack = a.maxStack ∧ b.maxLocals = a.maxLocals

namespace Laid

variable {a b c : Assembler} {ps qs : List (Nat × Segment)}

theorem offset (h : Laid a ps b) : b.offset = a.offset + (drafts ps).length := by
  simp only [Assembler.offset, ← Array.length_toList, h.code, List.length_append]

theorem of_same (hcode : b.code = a.code) (hfixups : b.fixups = a.fixups)
    (hlimits : b.maxStack = a.maxStack ∧ b.maxLocals = a.maxLocals) : Laid a [] b :=
  ⟨by simp [drafts, hcode], by simp [fixupsFrom, hfixups], hlimits⟩

theorem refl (a : Assembler) : Laid a [] a := of_same rfl rfl ⟨rfl, rfl⟩

theorem trans (h : Laid a ps b) (h' : Laid b qs c) : Laid a (ps ++ qs) c := by
  constructor
  · simp [h'.code, h.code, drafts]
  · rw [h'.fixups, h.fixups, fixupsFrom_append, h.offset, List.append_assoc]
  · simp [h'.limits, h.limits]

end Laid

theorem append_laid (base : Nat) (a : Assembler) (s : Segment) : Laid a [(base, s)] (append base a s) := by
  cases s with
  | bytes bs =>
    exact ⟨by simp [append, drafts, Segment.draft], by simp [append, raw, fixupsFrom, Segment.fixups], rfl, rfl⟩
  | near l =>
    refine ⟨?_, by simp [append, shortSlot, fixupsFrom, Segment.fixups], rfl, rfl⟩
    exact code_raw a [0, 0]
  | far l =>
    refine ⟨?_, by simp [append, wideSlot, fixupsFrom, Segment.fixups], rfl, rfl⟩
    exact code_raw a [0, 0, 0, 0]

theorem foldl_append_laid (base : Nat) (a : Assembler) (segments : List Segment) :
    Laid a (segments.map fun s => (base, s)) (segments.foldl (append base) a) := by
  induction segments generalizing a with
  | nil => exact .refl a
  | cons s rest ih => exact (append_laid base a s).trans (ih (append base a s))

theorem Call.run_laid (a : Assembler) (c : Call) :
    Laid a ((c.segments a.offset).map fun s => (a.offset, s)) (c.run a) := by
  by_cases h : c.emits
  · rw [run_emitting a c h]
    exact foldl_append_laid _ _ _
  · cases c with
    | label => exact .of_same rfl rfl ⟨rfl, rfl⟩
    | bind l => exact .of_same rfl rfl ⟨rfl, rfl⟩
    | handler start stop target catchType => exact .of_same rfl rfl ⟨rfl, rfl⟩
    | _ => simp [emits] at h

/-- Segments of the instructions emitted. -/
def pieces (a : Assembler) (calls : List Call) : List (Nat × Segment) :=
  (emissions a calls).flatMap fun e => (e.2.segments e.1).map fun s => (e.1, s)

theorem Call.segments_of_not_emits {c : Call} (h : ¬ c.emits) (base : Nat) : c.segments base = [] := by
  cases c <;> first | rfl | simp [emits] at h

theorem pieces_cons (a : Assembler) (c : Call) (calls : List Call) : pieces a (c :: calls) =
    ((c.segments a.offset).map fun s => (a.offset, s)) ++ pieces (c.run a) calls := by
  by_cases h : c.emits
  · simp [pieces, emissions, h]
  · simp [pieces, emissions, h, Call.segments_of_not_emits h]

theorem runAll_laid (a : Assembler) (calls : List Call) : Laid a (pieces a calls) (a.runAll calls) := by
  induction calls generalizing a with
  | nil => exact .refl a
  | cons c calls ih =>
    rw [pieces_cons]
    exact (c.run_laid a).trans (ih (c.run a))

/-- Whether a use can be met. -/
def check (a : Assembler) (u : Use) : Except AssemblyError Unit := do
  let distance : Int := (← a.resolve u.label) - u.base
  if u.near ∧ ¬ (-32768 ≤ distance ∧ distance ≤ 32767) then throw (.outOfRange u.base) else return ()

theorem check_of_error {a : Assembler} {u : Use} {e : AssemblyError} (h : a.resolve u.label = .error e) :
    a.check u = .error e := by
  unfold check
  rw [h]
  rfl

theorem check_of_ok {a : Assembler} {u : Use} {o : Nat} (h : a.resolve u.label = .ok o) :
    a.check u = if u.near ∧ ¬ (-32768 ≤ (o : Int) - u.base ∧ (o : Int) - u.base ≤ 32767) then
      .error (.outOfRange u.base) else .ok () := by
  unfold check
  rw [h]
  rfl

/-- Offset of a label that is bound. -/
def place (a : Assembler) (l : Label) : Nat := (a.resolve l).toOption.getD 0

theorem place_of_resolve {a : Assembler} {l : Label} {o : Nat} (h : a.resolve l = .ok o) : a.place l = o := by
  simp [place, h, Except.toOption]

/-- The bytes of a segment when all labels are known. -/
def Segment.written (a : Assembler) (base : Nat) : Segment → List UInt8
  | bytes bs => bs
  | near l => bytes16 (a.place l - base)
  | far l => bytes32 (a.place l - base)

theorem overwrite_append (before old after new : List UInt8) (h : old.length = new.length) :
    overwrite (before ++ (old ++ after)).toArray before.length new = (before ++ (new ++ after)).toArray := by
  induction new generalizing before old with
  | nil => simp [overwrite, List.length_eq_zero_iff.1 h]
  | cons b new ih =>
    cases old with
    | nil => simp at h
    | cons b' old =>
      have hset : (before ++ (b' :: old ++ after)).toArray.setIfInBounds before.length b =
          ((before ++ [b]) ++ (old ++ after)).toArray := by
        simp
      have hstep := ih (before ++ [b]) old (by simpa using h)
      rw [overwrite, hset, show before.length + 1 = (before ++ [b]).length by simp, hstep]
      simp

/-- Filling in one operand is checking its use and writing the distance in its place. -/
theorem fill_segment (a : Assembler) (base : Nat) (s : Segment) (before after : List UInt8) :
    (s.fixups before.length base).foldlM (fun code f => a.fill code f)
        (before ++ (s.draft ++ after)).toArray =
      do (s.uses base).forM a.check; return (before ++ (s.written a base ++ after)).toArray := by
  cases s with
  | bytes bs => rfl
  | near l =>
    simp only [Segment.fixups, Segment.uses, List.foldlM_cons, List.foldlM_nil, bind_pure, Lists.forM_cons,
      fill, Segment.written]
    cases hl : a.resolve l with
    | error e =>
      rw [check_of_error hl]
      rfl
    | ok o =>
      rw [check_of_ok hl, place_of_resolve hl]
      by_cases hfits : (-32768 : Int) ≤ o - base ∧ (o : Int) - base ≤ 32767
      · rw [except_bind_of_ok rfl, if_neg (by simp), if_pos hfits, if_neg (by simp [hfits])]
        exact congrArg Except.ok (overwrite_append before [0, 0] after _ rfl)
      · rw [except_bind_of_ok rfl, if_neg (by simp), if_neg hfits, if_pos ⟨rfl, hfits⟩]
        rfl
  | far l =>
    simp only [Segment.fixups, Segment.uses, List.foldlM_cons, List.foldlM_nil, bind_pure, Lists.forM_cons,
      fill, Segment.written]
    cases hl : a.resolve l with
    | error e =>
      rw [check_of_error hl]
      rfl
    | ok o =>
      rw [check_of_ok hl, place_of_resolve hl, except_bind_of_ok rfl, if_pos trivial, if_neg (by simp)]
      exact congrArg Except.ok (overwrite_append before [0, 0, 0, 0] after _ rfl)

theorem Segment.length_written (a : Assembler) (base : Nat) (s : Segment) :
    (s.written a base).length = s.draft.length := by
  cases s <;> rfl

def writtenAll (a : Assembler) (ps : List (Nat × Segment)) : List UInt8 :=
  ps.flatMap fun p => p.2.written a p.1

theorem length_writtenAll (a : Assembler) (ps : List (Nat × Segment)) :
    (a.writtenAll ps).length = (drafts ps).length := by
  induction ps with
  | nil => rfl
  | cons p ps ih =>
    simp only [writtenAll, drafts, List.flatMap_cons, List.length_append] at ih ⊢
    rw [p.2.length_written, ih]

theorem fill_all (a : Assembler) (before : List UInt8) (ps : List (Nat × Segment)) :
    (fixupsFrom before.length ps).foldlM (fun code f => a.fill code f) (before ++ drafts ps).toArray =
      do (ps.flatMap fun p => p.2.uses p.1).forM a.check; return (before ++ a.writtenAll ps).toArray := by
  induction ps generalizing before with
  | nil => simp [fixupsFrom, drafts, writtenAll]
  | cons p ps ih =>
    obtain ⟨base, s⟩ := p
    have hrest := ih (before ++ s.written a base)
    rw [List.length_append, s.length_written] at hrest
    simp only [List.append_assoc] at hrest
    rw [fixupsFrom, List.foldlM_append, show drafts ((base, s) :: ps) = s.draft ++ drafts ps from rfl,
      fill_segment, List.flatMap_cons, Lists.forM_append]
    simp only [bind_assoc, pure_bind, hrest]
    rfl

theorem Call.uses_segments (o : Nat) (c : Call) (h : c.emits) :
    (c.segments o).flatMap (Segment.uses o) = c.labels.map fun l => ⟨c.near, o, l⟩ := by
  cases c with
  | label => simp [emits] at h
  | bind l => simp [emits] at h
  | handler start stop target catchType => simp [emits] at h
  | branch op l =>
    by_cases hop : op = 0xc8 <;> simp [segments, Segment.uses, labels, near, hop]
  | tableSwitch low targets default =>
    simp [segments, Segment.uses, labels, near, List.flatMap_map, ← List.map_eq_flatMap]
  | lookupSwitch pairs default =>
    simp [segments, Segment.uses, labels, near, List.flatMap_assoc, ← List.map_eq_flatMap]
  | _ => rfl

theorem emits_of_mem_emissions {a : Assembler} {calls : List Call} {e : Nat × Call}
    (h : e ∈ emissions a calls) : e.2.emits := by
  induction calls generalizing a with
  | nil => simp [emissions] at h
  | cons c calls ih =>
    unfold emissions at h
    split at h
    · next hc =>
      rcases List.mem_cons.1 h with rfl | h
      · exact hc
      · exact ih h
    · exact ih h

theorem uses_pieces (a : Assembler) (calls : List Call) :
    ((pieces a calls).flatMap fun p => p.2.uses p.1) =
      (emissions a calls).flatMap fun e => e.2.labels.map fun l => ⟨e.2.near, e.1, l⟩ := by
  rw [pieces, List.flatMap_assoc]
  apply List.flatMap_congr
  intro e he
  rw [List.flatMap_map, ← e.2.uses_segments e.1 (emits_of_mem_emissions he)]

/-- The handler a call adds. -/
def Call.handler? : Call → Option PendingHandler
  | handler start stop target catchType => some ⟨start, stop, target, catchType⟩
  | _ => none

theorem runAll_handlers (a : Assembler) (calls : List Call) :
    (a.runAll calls).handlers.toList = a.handlers.toList ++ calls.filterMap Call.handler? := by
  induction calls generalizing a with
  | nil => simp [runAll]
  | cons c calls ih =>
    rw [show a.runAll (c :: calls) = (c.run a).runAll calls from rfl, ih, List.filterMap_cons]
    by_cases h : c.emits
    · rw [(run_keeps a h).2]
      cases c <;> first | rfl | simp [Call.emits] at h
    · cases c with
      | label => rfl
      | bind l => rfl
      | handler start stop target catchType => simp [Call.run, handler, Call.handler?]
      | _ => simp [Call.emits] at h

/-- Offsets of a handler whose labels are bound. -/
def placeHandler (a : Assembler) (h : PendingHandler) : RawHandler :=
  ⟨a.place h.start % 65536, a.place h.stop % 65536, a.place h.target % 65536, h.catchType⟩

def handlerUses (h : PendingHandler) : List Use := [h.start, h.stop, h.target].map fun l => ⟨false, 0, l⟩

theorem resolveHandler_eq (a : Assembler) (h : PendingHandler) :
    a.resolveHandler h = do (handlerUses h).forM a.check; return a.placeHandler h := by
  unfold resolveHandler handlerUses placeHandler place
  simp only [List.map_cons, List.map_nil, Lists.forM_cons, check]
  cases a.resolve h.start with
  | error e => rfl
  | ok start =>
    cases a.resolve h.stop with
    | error e => rfl
    | ok stop => cases a.resolve h.target <;> rfl

theorem resolveHandlers_eq (a : Assembler) (hs : List PendingHandler) : hs.mapM a.resolveHandler =
    do (hs.flatMap handlerUses).forM a.check; return hs.map a.placeHandler := by
  induction hs with
  | nil => rfl
  | cons h hs ih =>
    rw [List.mapM_cons, ih, resolveHandler_eq, List.flatMap_cons, Lists.forM_append]
    simp

theorem handlers_uses (calls : List Call) :
    ((calls.filter Call.isHandler).flatMap fun c => c.labels.map fun l => ⟨false, 0, l⟩) =
      (calls.filterMap Call.handler?).flatMap handlerUses := by
  induction calls with
  | nil => rfl
  | cons c calls ih =>
    cases c with
    | handler start stop target catchType =>
      exact congrArg (handlerUses ⟨start, stop, target, catchType⟩ ++ ·) ih
    | _ => exact ih

/-- An assembler before any call. -/
def fresh (maxStack maxLocals : Nat) : Assembler := { maxStack, maxLocals }

/-- Finishing checks the uses in order; what is written then is the concatenation of the segments. -/
theorem finish_eq (maxStack maxLocals : Nat) (calls : List Call) :
    let start := fresh maxStack maxLocals
    let a := start.runAll calls
    a.finish = do
      (start.uses calls).forM a.check
      return ⟨maxStack, maxLocals, (a.writtenAll (start.pieces calls)).toArray,
        (calls.filterMap Call.handler?).map a.placeHandler⟩ := by
  intro start a
  have hlaid : Laid start (start.pieces calls) a := runAll_laid start calls
  have hcode : a.code = ([] ++ drafts (start.pieces calls)).toArray :=
    Array.toArray_toList.symm.trans (congrArg List.toArray hlaid.code)
  have hfixups : a.fixups.toList = fixupsFrom 0 (start.pieces calls) := hlaid.fixups
  have hhandlers : a.handlers.toList = calls.filterMap Call.handler? := runAll_handlers start calls
  have hlimits : a.maxStack = maxStack ∧ a.maxLocals = maxLocals := hlaid.limits
  have hfill := fill_all a [] (start.pieces calls)
  rw [List.length_nil] at hfill
  unfold finish uses
  rw [← Array.foldlM_toList, hfixups, hcode, hfill, hhandlers, resolveHandlers_eq, Lists.forM_append,
    uses_pieces, handlers_uses, hlimits.1, hlimits.2]
  simp

/-- Bytes that are one complete instruction when they stand at an offset. -/
inductive Encoded (o : Nat) : List UInt8 → Prop
  | fixed {op : UInt8} {operands : List UInt8}
      (length : Opcode.fixedLength? op = some (operands.length + 1)) : Encoded o (op :: operands)
  | wideIncrement {operands : List UInt8} (length : operands.length = 4) : Encoded o (0xc4 :: 0x84 :: operands)
  | wideLocal {inner : UInt8} {operands : List UInt8} (length : operands.length = 2)
      (access : (0x15 ≤ inner.toNat ∧ inner.toNat ≤ 0x19) ∨ (0x36 ≤ inner.toNat ∧ inner.toNat ≤ 0x3a) ∨
        inner.toNat = 0xa9) : Encoded o (0xc4 :: inner :: operands)
  | tableSwitch {pad default entries : List UInt8} {low high : Int}
      (aligned : pad.length < 4 ∧ (o + 1 + pad.length) % 4 = 0) (default_length : default.length = 4)
      (range : -2 ^ 31 ≤ low ∧ low ≤ high ∧ high < 2 ^ 31)
      (length : (entries.length : Int) = 4 * (high - low + 1)) :
      Encoded o (0xaa :: (pad ++ (default ++ (bytes32 low ++ (bytes32 high ++ entries)))))
  | lookupSwitch {pad default entries : List UInt8} {count : Nat}
      (aligned : pad.length < 4 ∧ (o + 1 + pad.length) % 4 = 0) (default_length : default.length = 4)
      (range : count < 2 ^ 31) (length : entries.length = 8 * count) :
      Encoded o (0xab :: (pad ++ (default ++ (bytes32 count ++ entries))))

/-- Where the sum of the first key and the number of targets stays in 32 bits, the last key is the one meant. -/
theorem toInt_lastKey {low : Int32} {count : Nat} (hpos : 0 < count) (h : low.toInt + count < 2 ^ 31) :
    (lastKey low count).toInt = low.toInt + count - 1 := by
  have hlow := low.le_toInt
  have hone : (1 : Int32).toInt = 1 := rfl
  have hsize : (Int32.size : Int) = 2 ^ 32 := rfl
  unfold lastKey
  rw [Int32.toInt_sub, Int32.toInt_add, Int32.toInt_ofNat', hone]
  simp only [Int.bmod_sub_bmod, Int.add_bmod_bmod]
  exact Int.bmod_eq_of_le (by omega) (by omega)

/-- A call appends one complete instruction, if any. Only the shape of an operand that depends on a
label is known at the call. -/
def Call.Complete (o : Nat) : Call → Prop
  | label | bind _ | handler _ _ _ _ => True
  | branch op _ => op = 0xc8 ∨ Opcode.fixedLength? op = some 3
  | tableSwitch low targets _ => targets ≠ [] ∧ low.toInt + targets.length < 2 ^ 31
  | lookupSwitch _ _ => True
  | emit op => Encoded o [op]
  | emitByte op operand => Encoded o [op, operand]
  | emitShort op operand => Encoded o (op :: bytes16 operand)
  | raw bytes => Encoded o bytes
  | increment slot delta => Encoded o [0x84, slot, delta]
  | invokeInterface index slots => Encoded o (0xb9 :: (bytes16 index ++ [slots, 0]))
  | multiNewArray index dims => Encoded o (0xc5 :: (bytes16 index ++ [dims]))

/-- A call in its place: it appends one complete instruction, if any, names labels that were created
before, and a binding has an instruction behind it. -/
structure Call.Fits (a : Assembler) (rest : List Call) (c : Call) : Prop where
  complete : c.Complete a.offset
  declared : ∀ l ∈ c.labels, l < a.labels.size
  followed : ∀ l, c = .bind l → ∃ d ∈ rest, d.emits

def WellFormed (a : Assembler) : List Call → Prop
  | [] => True
  | c :: rest => c.Fits a rest ∧ WellFormed (c.run a) rest

/-- Offsets at which instructions were emitted. -/
def offsets (a : Assembler) (calls : List Call) : List Nat := (emissions a calls).map (·.1)

section Labels

variable {a : Assembler} {calls before after : List Call} {c : Call} {l : Label}

theorem runAll_append (a : Assembler) (before after : List Call) :
    a.runAll (before ++ after) = (a.runAll before).runAll after := List.foldl_append

theorem emissions_append (a : Assembler) (before after : List Call) :
    emissions a (before ++ after) = emissions a before ++ emissions (a.runAll before) after := by
  induction before generalizing a with
  | nil => rfl
  | cons c before ih =>
    have hrest := ih (c.run a)
    by_cases h : c.emits <;> simpa [emissions, h, runAll] using hrest

theorem length_emissions (a : Assembler) (calls : List Call) :
    (emissions a calls).length = calls.countP Call.emits := by
  induction calls generalizing a with
  | nil => rfl
  | cons c calls ih => by_cases h : c.emits <;> simp [emissions, h, ih]

theorem run_offset_of_not_emits (a : Assembler) (h : ¬ c.emits) : (c.run a).offset = a.offset := by
  rw [(c.run_laid a).offset, Call.segments_of_not_emits h]
  simp [drafts]

/-- The next instruction is emitted at the present offset. -/
theorem offsets_head (a : Assembler) (h : ∃ c ∈ calls, c.emits) : (offsets a calls)[0]? = some a.offset := by
  induction calls generalizing a with
  | nil => simp at h
  | cons c calls ih =>
    by_cases hc : c.emits
    · simp [offsets, emissions, hc]
    · have hrest := ih (c.run a) (by simpa [hc] using h)
      rw [run_offset_of_not_emits a hc] at hrest
      simpa [offsets, emissions, hc] using hrest

theorem WellFormed.fits (h : WellFormed a (before ++ c :: after)) : c.Fits (a.runAll before) after := by
  induction before generalizing a with
  | nil => exact h.1
  | cons d before ih => exact ih h.2

/-- A call binds no label but its own. -/
theorem run_labels (a : Assembler) (hc : c ≠ .bind l) : (c.run a).labels[l]?.join = a.labels[l]?.join := by
  by_cases h : c.emits
  · rw [(run_keeps a h).1]
  · cases c with
    | label =>
      simp only [Call.run, label, Array.getElem?_push]
      split
      · next heq => simp [heq]
      · rfl
    | bind l' =>
      have hne : l' ≠ l := fun heq => hc (heq ▸ rfl)
      simp [Call.run, bind, hne]
    | handler start stop target catchType => rfl
    | _ => simp [Call.emits] at h

theorem runAll_labels (a : Assembler) (h : .bind l ∉ calls) :
    (a.runAll calls).labels[l]?.join = a.labels[l]?.join := by
  induction calls generalizing a with
  | nil => rfl
  | cons c calls ih =>
    simp only [List.mem_cons, not_or] at h
    exact (ih (c.run a) h.2).trans (run_labels a (Ne.symm h.1))

theorem resolve_eq (a : Assembler) (l : Label) : a.resolve l =
    match a.labels[l]?.join with
    | some o => .ok o
    | none => .error (.unboundLabel l) := by
  unfold resolve
  rcases a.labels[l]? with _ | _ | o <;> rfl

/-- A label without a binding stays unresolved. -/
theorem resolve_of_not_mem (maxStack maxLocals : Nat) (h : .bind l ∉ calls) :
    ((fresh maxStack maxLocals).runAll calls).resolve l = .error (.unboundLabel l) := by
  rw [resolve_eq, runAll_labels _ h]
  rfl

/-- A label resolves to the offset its last binding stands at. -/
theorem resolve_of_last (hdeclared : l < (a.runAll before).labels.size) (hlast : .bind l ∉ after) :
    (a.runAll (before ++ .bind l :: after)).resolve l = .ok (a.runAll before).offset := by
  have hbound : ((Call.bind l).run (a.runAll before)).labels[l]? = some (some (a.runAll before).offset) := by
    simp [Call.run, bind, hdeclared]
  rw [runAll_append, resolve_eq, show (a.runAll before).runAll (.bind l :: after) =
    ((Call.bind l).run (a.runAll before)).runAll after from rfl, runAll_labels _ hlast, hbound]
  rfl

/-- A label resolves to the offset of the instruction behind its last binding. -/
theorem resolve_of_lands (h : WellFormed a calls) {k : Nat} (hk : Lands calls l k) :
    ∃ o, (offsets a calls)[k]? = some o ∧ (a.runAll calls).resolve l = .ok o := by
  obtain ⟨before, after, rfl, hlast, rfl⟩ := hk
  have hfits := h.fits
  have hdeclared : l < (a.runAll before).labels.size := hfits.declared l (by simp [Call.labels])
  refine ⟨(a.runAll before).offset, ?_, resolve_of_last hdeclared hlast⟩
  have hhead := offsets_head ((Call.bind l).run (a.runAll before)) (hfits.followed l rfl)
  rw [offsets, emissions_append, List.map_append, ← length_emissions a before,
    List.getElem?_append_right (by simp), List.length_map, Nat.sub_self]
  exact hhead

theorem exists_lands (h : .bind l ∈ calls) : ∃ k, Lands calls l k := by
  obtain ⟨after, before, heq, hlast⟩ := List.eq_append_cons_of_mem (List.mem_reverse.2 h)
  refine ⟨_, before.reverse, after.reverse, ?_, by simpa using hlast, rfl⟩
  simpa using congrArg List.reverse heq

theorem mem_of_lands {k : Nat} (h : Lands calls l k) : .bind l ∈ calls := by
  obtain ⟨before, after, rfl, _, _⟩ := h
  simp

/-- What keeps a use from being met. -/
def Faults (a : Assembler) (calls : List Call) (u : Use) : AssemblyError → Prop
  | .unboundLabel l => l = u.label ∧ ∀ k, ¬ Lands calls l k
  | .outOfRange base => base = u.base ∧ u.near ∧ ∃ k, ∃ o : Nat, Lands calls u.label k ∧
      (offsets a calls)[k]? = some o ∧ ¬ (-32768 ≤ (o : Int) - base ∧ (o : Int) - base ≤ 32767)

theorem check_error {maxStack maxLocals : Nat} (h : WellFormed (fresh maxStack maxLocals) calls) {u : Use}
    {e : AssemblyError} (hfault : Faults (fresh maxStack maxLocals) calls u e) :
    ((fresh maxStack maxLocals).runAll calls).check u = .error e := by
  cases e with
  | unboundLabel l =>
    obtain ⟨rfl, hnone⟩ := hfault
    apply check_of_error
    apply resolve_of_not_mem
    intro hmem
    obtain ⟨k, hk⟩ := exists_lands hmem
    exact hnone k hk
  | outOfRange base =>
    obtain ⟨rfl, hnear, k, o, hk, ho, hfar⟩ := hfault
    obtain ⟨o', ho', hresolve⟩ := resolve_of_lands h hk
    rw [ho, Option.some.injEq] at ho'
    subst ho'
    rw [check_of_ok hresolve, if_pos ⟨hnear, hfar⟩]

/-- A use without a fault has a label that lands, near enough if it must be. -/
theorem exists_lands_of_sound {maxStack maxLocals : Nat} {u : Use}
    (hsound : ∀ e, ¬ Faults (fresh maxStack maxLocals) calls u e) : ∃ k, Lands calls u.label k := by
  by_contra hnone
  exact hsound (.unboundLabel u.label) ⟨rfl, fun k hk => hnone ⟨k, hk⟩⟩

theorem check_ok {maxStack maxLocals : Nat} (h : WellFormed (fresh maxStack maxLocals) calls) {u : Use}
    (hsound : ∀ e, ¬ Faults (fresh maxStack maxLocals) calls u e) :
    ((fresh maxStack maxLocals).runAll calls).check u = .ok () := by
  obtain ⟨k, hk⟩ := exists_lands_of_sound hsound
  obtain ⟨o, ho, hresolve⟩ := resolve_of_lands h hk
  rw [check_of_ok hresolve]
  apply if_neg
  rintro ⟨hnear, hfar⟩
  exact hsound (.outOfRange u.base) ⟨rfl, hnear, k, o, hk, ho, hfar⟩

end Labels

end Assembler

end ClassMachine
