import ClassMachine.Link.Decoding
import ClassMachine.Proofs.Lists

/-!
The first pass of decoding. The offsets it records split a body into instructions without a gap, and
the index kept for each offset leads back to them. Reads outside the body are failures of their own,
so that staying inside it is a property of the outcome.
-/
namespace ClassMachine
open Stateful

/-- An outcome that is not a read outside the body. -/
def Inside {α : Type} (x : Except LinkError α) : Prop := ∀ i, x ≠ .error (.outside i)

namespace Inside

variable {α β : Type}

@[simp] theorem ok (a : α) : Inside (.ok a) := fun _ h => by cases h

@[simp] theorem pure (a : α) : Inside (pure a) := ok a

theorem bind {x : Except LinkError α} {f : α → Except LinkError β} (hx : Inside x)
    (hf : ∀ a, x = .ok a → Inside (f a)) : Inside (x >>= f) := by
  cases x with
  | ok a => exact hf a rfl
  | error e => exact fun i h => hx i (congrArg Except.error (Except.error.inj h))

end Inside

namespace Bytes

variable {code : Array UInt8} {i : Nat}

theorem byteAt_eq_ok {b : UInt8} : byteAt code i = .ok b ↔ code[i]? = some b := by
  unfold byteAt
  cases code[i]? <;> simp

theorem natAt_of_get {b : UInt8} (h : code[i]? = some b) : natAt code i = .ok b.toNat := by
  unfold natAt
  rw [except_bind_of_ok (byteAt_eq_ok.2 h)]
  rfl

theorem byteAt_inside (h : i < code.size) : Inside (byteAt code i) := by
  simp [byteAt, Array.getElem?_eq_getElem h]

theorem natAt_inside (h : i < code.size) : Inside (natAt code i) :=
  (byteAt_inside h).bind fun _ _ => .pure _

theorem word16_inside (h : i + 2 ≤ code.size) : Inside (word16 code i) := by
  apply (natAt_inside (by omega)).bind
  intro high _
  exact (natAt_inside (by omega)).bind fun _ _ => .pure _

theorem signed8_inside (h : i < code.size) : Inside (signed8 code i) :=
  (natAt_inside h).bind fun _ _ => .pure _

theorem signed16_inside (h : i + 2 ≤ code.size) : Inside (signed16 code i) :=
  (word16_inside h).bind fun _ _ => .pure _

theorem signed32_inside (h : i + 4 ≤ code.size) : Inside (signed32 code i) := by
  apply (word16_inside (by omega)).bind
  intro high _
  exact (word16_inside (by omega)).bind fun _ _ => .pure _

end Bytes

namespace Decoding
open Bytes

variable {code : Array UInt8} {pc n : Nat}

theorem lt_switchBase (pc : Nat) : pc < switchBase pc := by
  unfold switchBase
  omega

theorem tableLength_ok : tableLength code pc = .ok n ↔ switchBase pc + 12 ≤ code.size ∧
    ∃ low high, signed32 code (switchBase pc + 4) = .ok low ∧ signed32 code (switchBase pc + 8) = .ok high ∧
      low ≤ high ∧ n = switchBase pc + 12 + 4 * (high - low + 1).toNat - pc := by
  unfold tableLength
  dsimp only
  by_cases hsize : code.size < switchBase pc + 12
  · simp [hsize, Nat.not_le.2 hsize]
  · rw [if_neg hsize, except_bind_ok]
    simp only [Nat.not_lt.1 hsize, true_and]
    apply exists_congr
    intro low
    rw [except_bind_ok, ← exists_and_left]
    apply exists_congr
    intro high
    apply and_congr_right
    intro _
    apply and_congr_right
    intro _
    by_cases hrange : high < low
    · simp [hrange, Int.not_le.2 hrange]
    · simp [hrange, Int.not_lt.1 hrange, pure, Except.pure, eq_comm]

theorem tableLength_inside (code : Array UInt8) (pc : Nat) : Inside (tableLength code pc) := by
  unfold tableLength
  dsimp only
  split
  · simp [Inside]
  · apply (signed32_inside (by omega)).bind
    intro low _
    apply (signed32_inside (by omega)).bind
    intro high _
    split <;> simp [Inside, pure, Except.pure]

theorem lookupLength_ok : lookupLength code pc = .ok n ↔ switchBase pc + 8 ≤ code.size ∧
    ∃ pairs, signed32 code (switchBase pc + 4) = .ok pairs ∧
      0 ≤ pairs ∧ n = switchBase pc + 8 + 8 * pairs.toNat - pc := by
  unfold lookupLength
  dsimp only
  by_cases hsize : code.size < switchBase pc + 8
  · simp [hsize, Nat.not_le.2 hsize]
  · rw [if_neg hsize, except_bind_ok]
    simp only [Nat.not_lt.1 hsize, true_and]
    apply exists_congr
    intro pairs
    apply and_congr_right
    intro _
    by_cases hrange : pairs < 0
    · simp [hrange, Int.not_le.2 hrange]
    · simp [hrange, Int.not_lt.1 hrange, pure, Except.pure, eq_comm]

theorem lookupLength_inside (code : Array UInt8) (pc : Nat) : Inside (lookupLength code pc) := by
  unfold lookupLength
  dsimp only
  split
  · simp [Inside]
  · apply (signed32_inside (by omega)).bind
    intro pairs _
    split <;> simp [Inside, pure, Except.pure]

theorem wideLength_ok : wideLength code pc = .ok n ↔
    ∃ inner, code[pc + 1]? = some inner ∧ wideLength? inner.toNat = some n := by
  unfold wideLength
  cases code[pc + 1]? with
  | none => simp
  | some inner => cases h : wideLength? inner.toNat <;> simp [h]

theorem wideLength_inside (code : Array UInt8) (pc : Nat) : Inside (wideLength code pc) := by
  unfold wideLength
  split
  · simp [Inside]
  · split <;> simp [Inside]

theorem variableLength_inside (code : Array UInt8) (pc : Nat) (op : UInt8) :
    Inside (variableLength code pc op) := by
  unfold variableLength
  split
  · exact tableLength_inside code pc
  · exact lookupLength_inside code pc
  · exact wideLength_inside code pc
  · simp [Inside]

theorem variableLength_pos {op : UInt8} (h : variableLength code pc op = .ok n) : 0 < n := by
  have hbase := lt_switchBase pc
  unfold variableLength at h
  split at h
  · obtain ⟨_, low, high, _, _, _, rfl⟩ := tableLength_ok.1 h
    omega
  · obtain ⟨_, pairs, _, _, rfl⟩ := lookupLength_ok.1 h
    omega
  · obtain ⟨inner, _, hinner⟩ := wideLength_ok.1 h
    unfold wideLength? at hinner
    split_ifs at hinner <;> simp at hinner <;> omega
  · simp at h

theorem claimedLength_inside (code : Array UInt8) (pc : Nat) (op : UInt8) :
    Inside (claimedLength code pc op) := by
  unfold claimedLength
  split
  · exact .ok _
  · exact variableLength_inside code pc op

theorem claimedLength_pos {op : UInt8} (h : claimedLength code pc op = .ok n) : 0 < n := by
  unfold claimedLength at h
  split at h
  · next hfixed =>
    cases h
    exact Opcode.fixedLength?_pos hfixed
  · exact variableLength_pos h

theorem instructionLength_ok : instructionLength code pc = .ok n ↔
    ∃ op, code[pc]? = some op ∧ claimedLength code pc op = .ok n ∧ pc + n ≤ code.size := by
  unfold instructionLength
  simp only [except_bind_ok, byteAt_eq_ok]
  apply exists_congr
  intro op
  apply and_congr_right
  intro _
  constructor
  · rintro ⟨m, hm, hfits⟩
    split at hfits
    · simp at hfits
    · cases hfits
      exact ⟨hm, by omega⟩
  · rintro ⟨hn, hfits⟩
    exact ⟨n, hn, if_neg (by omega)⟩

theorem instructionLength_inside (h : pc < code.size) : Inside (instructionLength code pc) := by
  apply (byteAt_inside h).bind
  intro op _
  apply (claimedLength_inside code pc op).bind
  intro n _
  split <;> simp [Inside, pure, Except.pure]

theorem instructionLength_pos (h : instructionLength code pc = .ok n) : 0 < n := by
  obtain ⟨op, _, hclaimed, _⟩ := instructionLength_ok.1 h
  exact claimedLength_pos hclaimed

/-- Offsets at which consecutive pieces start. -/
def offsets : Nat → List (List UInt8) → List Nat
  | _, [] => []
  | start, piece :: rest => start :: offsets (start + piece.length) rest

/-- Instructions stand one after the other from an offset to the end of the body. -/
inductive Split (code : Array UInt8) : Nat → List Nat → Prop
  | done : Split code code.size []
  | next {pc n : Nat} {rest : List Nat} (length : instructionLength code pc = .ok n)
      (following : Split code (pc + n) rest) : Split code pc (pc :: rest)

theorem startsFrom_inside (code : Array UInt8) (fuel pc : Nat) : Inside (startsFrom code fuel pc) := by
  induction fuel generalizing pc with
  | zero => exact .ok _
  | succ fuel ih =>
    unfold startsFrom
    split
    · exact .ok _
    · apply (instructionLength_inside (by omega)).bind
      intro n _
      exact (ih (pc + n)).bind fun _ _ => .pure _

theorem starts_inside (code : Array UInt8) : Inside (starts code) := startsFrom_inside code _ _

theorem Split.at_end {pcs : List Nat} : Split code code.size pcs ↔ pcs = [] := by
  constructor
  · intro h
    cases h with
    | done => rfl
    | next length _ =>
      obtain ⟨op, hop, _⟩ := instructionLength_ok.1 length
      simp at hop
  · rintro rfl
    exact .done

/-- Each instruction takes a byte at least, so a unit of fuel for each byte is enough. -/
theorem startsFrom_ok {fuel : Nat} {pcs : List Nat} (hpc : pc ≤ code.size) (hfuel : code.size ≤ pc + fuel) :
    startsFrom code fuel pc = .ok pcs ↔ Split code pc pcs := by
  induction fuel generalizing pc pcs with
  | zero =>
    have hend : pc = code.size := by omega
    subst hend
    simp [startsFrom, Split.at_end, eq_comm]
  | succ fuel ih =>
    unfold startsFrom
    by_cases hend : code.size ≤ pc
    · have heq : pc = code.size := by omega
      subst heq
      simp [Split.at_end, eq_comm]
    · rw [if_neg hend]
      constructor
      · intro h
        obtain ⟨n, hn, h⟩ := except_bind_ok.1 h
        obtain ⟨rest, hrest, h⟩ := except_bind_ok.1 h
        cases h
        obtain ⟨_, _, _, hfits⟩ := instructionLength_ok.1 hn
        have hpos := instructionLength_pos hn
        exact .next hn ((ih hfits (by omega)).1 hrest)
      · intro h
        cases h with
        | done => omega
        | @next _ n rest hn hrest =>
          obtain ⟨_, _, _, hfits⟩ := instructionLength_ok.1 hn
          have hpos := instructionLength_pos hn
          exact except_bind_ok.2 ⟨n, hn, except_bind_ok.2 ⟨rest, (ih hfits (by omega)).2 hrest, rfl⟩⟩

theorem starts_ok {pcs : List Nat} : starts code = .ok pcs ↔ Split code 0 pcs :=
  startsFrom_ok (Nat.zero_le _) (by omega)

namespace Split

variable {pcs : List Nat}

theorem le_of_mem (h : Split code pc pcs) {o : Nat} (ho : o ∈ pcs) : pc ≤ o := by
  induction h with
  | done => simp at ho
  | next _ _ ih =>
    rcases List.mem_cons.1 ho with rfl | ho
    · omega
    · have := ih ho
      omega

/-- Every recorded offset starts an instruction that lies inside the body. -/
theorem length_of_mem (h : Split code pc pcs) {o : Nat} (ho : o ∈ pcs) :
    ∃ n, instructionLength code o = .ok n := by
  induction h with
  | done => simp at ho
  | next hn _ ih =>
    rcases List.mem_cons.1 ho with rfl | ho
    · exact ⟨_, hn⟩
    · exact ih ho

theorem lt_of_mem (h : Split code pc pcs) {o : Nat} (ho : o ∈ pcs) : o < code.size := by
  obtain ⟨n, hn⟩ := h.length_of_mem ho
  have hpos := instructionLength_pos hn
  obtain ⟨_, _, _, hfits⟩ := instructionLength_ok.1 hn
  omega

theorem nodup (h : Split code pc pcs) : (pcs ++ [code.size]).Nodup := by
  induction h with
  | done => simp
  | @next pc n rest hn hrest ih =>
    rw [List.cons_append, List.nodup_cons]
    refine ⟨?_, ih⟩
    have hpos := instructionLength_pos hn
    obtain ⟨_, _, _, hfits⟩ := instructionLength_ok.1 hn
    intro hmem
    rcases List.mem_append.1 hmem with hmem | hmem
    · have := hrest.le_of_mem hmem
      omega
    · simp at hmem
      omega

/-- The bytes between one recorded offset and the next. -/
theorem pieces (h : Split code pc pcs) : ∃ pieces : List (List UInt8),
    pieces.flatten = code.toList.drop pc ∧ (∀ p ∈ pieces, p ≠ []) ∧ pcs = offsets pc pieces := by
  induction h with
  | done => exact ⟨[], by simp, by simp, rfl⟩
  | @next pc n rest hn _ ih =>
    obtain ⟨pieces, hflat, hfull, hrest⟩ := ih
    have hpos := instructionLength_pos hn
    obtain ⟨_, _, _, hfits⟩ := instructionLength_ok.1 hn
    have hlength : ((code.toList.drop pc).take n).length = n := by
      simp
      omega
    refine ⟨(code.toList.drop pc).take n :: pieces, ?_, ?_, ?_⟩
    · rw [List.flatten_cons, hflat, ← List.drop_drop, List.take_append_drop]
    · intro p hp
      rcases List.mem_cons.1 hp with rfl | hp
      · intro hempty
        rw [hempty] at hlength
        simp at hlength
        omega
      · exact hfull p hp
    · rw [offsets, hlength, ← hrest]

end Split

/-- Recording the position of each offset in a list. -/
theorem record_positions (os : List Nat) (k : Nat) (b : Array (Option Nat)) (hos : os.Nodup)
    (hsize : ∀ o ∈ os, o < b.size) (o : Nat) :
    ((os.zipIdx k).foldl (fun b (pc, index) => b.setIfInBounds pc (some index)) b)[o]? =
      if o ∈ os then some (some (k + os.idxOf o)) else b[o]? := by
  induction os generalizing k b with
  | nil => simp
  | cons first os ih =>
    obtain ⟨hfirst, hos⟩ := List.nodup_cons.1 hos
    rw [List.zipIdx_cons, List.foldl_cons, ih _ _ hos (by simpa using fun o ho => hsize o (by simp [ho]))]
    by_cases hmem : o ∈ os
    · have hne : first ≠ o := by
        rintro rfl
        exact hfirst hmem
      simp [hmem, hne, List.idxOf_cons_ne]
      omega
    · by_cases heq : first = o
      · subst heq
        have := hsize first (by simp)
        simp [hmem, this]
      · simp [hmem, heq, Ne.symm heq]

/-- The index kept for an offset is the place of that offset among the recorded ones, the end of the
body being the last. -/
theorem boundaries_get {pcs : List Nat} (h : Split code 0 pcs) {o t : Nat} :
    (boundaries code.size pcs)[o]? = some (some t) ↔ (pcs ++ [code.size])[t]? = some o := by
  have hin : ∀ o ∈ pcs ++ [code.size], o < (Array.replicate (code.size + 1) (none : Option Nat)).size := by
    intro o ho
    rcases List.mem_append.1 ho with ho | ho
    · have := h.lt_of_mem ho
      simp
      omega
    · simp at ho
      simp
      omega
  unfold boundaries
  rw [record_positions _ 0 _ h.nodup hin, Nat.zero_add]
  constructor
  · intro hget
    split at hget
    · next hmem =>
      simp only [Option.some.injEq] at hget
      rw [← hget]
      exact List.getElem?_idxOf hmem
    · simp [Array.getElem?_replicate] at hget
  · intro hget
    obtain ⟨hlt, rfl⟩ := List.getElem?_eq_some_iff.1 hget
    rw [if_pos (List.getElem_mem hlt), h.nodup.idxOf_getElem]

theorem boundaries_size (size : Nat) (pcs : List Nat) : (boundaries size pcs).size = size + 1 := by
  have hkeep : ∀ (os : List (Nat × Nat)) (b : Array (Option Nat)),
      (os.foldl (fun b (pc, index) => b.setIfInBounds pc (some index)) b).size = b.size := by
    intro os
    induction os with
    | nil => simp
    | cons first os ih => simp [ih]
  simp [boundaries, hkeep]

@[simp] theorem Body.ofStarts_code (code : Array UInt8) (pcs : List Nat) :
    (Body.ofStarts code pcs).code = code := rfl

@[simp] theorem Body.ofStarts_boundaries (code : Array UInt8) (pcs : List Nat) :
    (Body.ofStarts code pcs).boundaries = Decoding.boundaries code.size pcs := rfl

section Indices

variable {pcs : List Nat}

theorem getElem?_of_end {o t : Nat} (ho : o < code.size) (h : (pcs ++ [code.size])[t]? = some o) :
    pcs[t]? = some o := by
  rcases Nat.lt_or_ge t pcs.length with hlt | hge
  · rwa [List.getElem?_append_left hlt] at h
  · rw [List.getElem?_append_right hge, List.getElem?_singleton] at h
    split at h
    · simp at h
      omega
    · simp at h

theorem getElem?_append_end {o t : Nat} (h : pcs[t]? = some o) : (pcs ++ [code.size])[t]? = some o := by
  obtain ⟨hlt, _⟩ := List.getElem?_eq_some_iff.1 h
  rwa [List.getElem?_append_left hlt]

variable (h : Split code 0 pcs)
include h

/-- The index a distance leads to is that of the instruction at the byte offset it stands for. -/
theorem target_ok {pc t : Nat} {d : Int} :
    (Body.ofStarts code pcs).target pc d = .ok t ↔ ∃ o : Nat, pcs[t]? = some o ∧ (o : Int) = pc + d := by
  unfold Body.target
  dsimp only
  constructor
  · intro htarget
    split at htarget
    · simp at htarget
    · next hrange =>
      simp only [Body.ofStarts_code] at hrange
      split at htarget
      · next index hindex =>
        cases htarget
        have hget := (boundaries_get h).1 hindex
        exact ⟨_, getElem?_of_end (by omega) hget, by omega⟩
      · simp at htarget
      · simp at htarget
  · rintro ⟨o, hget, ho⟩
    have hlt := h.lt_of_mem (List.mem_of_getElem? hget)
    have hbound := (boundaries_get h).2 (getElem?_append_end hget)
    rw [if_neg (by simp only [Body.ofStarts_code]; omega), ← ho, Int.toNat_natCast,
      Body.ofStarts_boundaries, hbound]

omit h in
theorem target_inside (pc : Nat) (d : Int) : Inside ((Body.ofStarts code pcs).target pc d) := by
  unfold Body.target
  dsimp only
  split
  · simp [Inside]
  · next hrange =>
    simp only [Body.ofStarts_code] at hrange
    split
    · simp [Inside]
    · simp [Inside]
    · next hnone =>
      rw [Array.getElem?_eq_none_iff, Body.ofStarts_boundaries, boundaries_size] at hnone
      omega

theorem handlerIndex_ok {raw : RawHandler} {o t : Nat} {allowEnd : Bool} :
    (Body.ofStarts code pcs).handlerIndex raw o allowEnd = .ok t ↔
      if allowEnd then (pcs ++ [code.size])[t]? = some o else pcs[t]? = some o := by
  unfold Body.handlerIndex
  constructor
  · intro hindex
    split at hindex
    · next index hbound =>
      have hget := (boundaries_get h).1 hbound
      split at hindex
      · next hrange =>
        cases hindex
        cases allowEnd with
        | true => simpa using hget
        | false => simpa using getElem?_of_end (by simpa using hrange) hget
      · simp at hindex
    · simp at hindex
  · intro hget
    have hend : (pcs ++ [code.size])[t]? = some o := by
      cases allowEnd with
      | true => simpa using hget
      | false => exact getElem?_append_end (by simpa using hget)
    rw [Body.ofStarts_boundaries, (boundaries_get h).2 hend]
    dsimp only
    apply if_pos
    cases allowEnd with
    | true =>
      rcases List.mem_append.1 (List.mem_of_getElem? hend) with hmem | hmem
      · exact .inl (h.lt_of_mem hmem)
      · exact .inr ⟨rfl, by simpa using hmem⟩
    | false => exact .inl (h.lt_of_mem (List.mem_of_getElem? (by simpa using hget)))

end Indices

theorem handlerIndex_inside (b : Body) (raw : RawHandler) (o : Nat) (allowEnd : Bool) :
    Inside (b.handlerIndex raw o allowEnd) := by
  unfold Body.handlerIndex
  split
  · split <;> simp [Inside]
  · simp [Inside]

end Decoding

end ClassMachine
