import ClassMachine.Proofs.Link.Disassembly
import ClassMachine.Proofs.Machine.Returns

/-!
Branches by key. Linking takes the table of a lookup switch over as it stands, and execution searches it
by halving. A key that the table does not have leads to the default in any table, and no key ever leads
where only another one should. Where the keys ascend, a key that the table has leads where it says. No
stage of linking puts a table in order or refuses it, and in one that is out of order a key can be missed.
-/
namespace ClassMachine

section Search

variable {table : Array (Int32 × Nat)} {key : Int32}

/-- Halving keeps hold of a row with the key, if not of the same one where several rows have it. -/
theorem seekPair_finds (hsorted : table.toList.Pairwise fun p q => p.1 ≤ q.1) (base size : Nat)
    (hsize : base + size ≤ table.size)
    (h : ∃ j p, base ≤ j ∧ j < base + size ∧ table[j]? = some p ∧ p.1 = key) :
    ∃ p, table[seekPair table key base size]? = some p ∧ p.1 = key := by
  have hordered : ∀ {i j : Nat} {p q : Int32 × Nat}, i < j → table[i]? = some p → table[j]? = some q →
      p.1 ≤ q.1 := by
    intro i j p q hij hp hq
    obtain ⟨hi, rfl⟩ := Array.getElem?_eq_some_iff.1 hp
    obtain ⟨hj, rfl⟩ := Array.getElem?_eq_some_iff.1 hq
    exact List.pairwise_iff_getElem.1 hsorted i j (by simpa using hi) (by simpa using hj) hij
  fun_induction seekPair table key base size with
  | case1 base size hsmall =>
    obtain ⟨j, p, hlow, hhigh, hp, hkey⟩ := h
    obtain rfl : j = base := by omega
    exact ⟨p, hp, hkey⟩
  | case2 base size hlarge half mid ih =>
    obtain ⟨j, p, hlow, hhigh, hp, hkey⟩ := h
    have hmid : table[mid]? = some (table.getD mid (0, 0)) := by
      rw [Array.getD_eq_getD_getElem?, Array.getElem?_eq_getElem (by omega), Option.getD_some]
    generalize table.getD mid (0, 0) = q at hmid ih ⊢
    by_cases hbelow : key < q.1
    · rw [dif_pos hbelow] at ih
      rw [if_pos hbelow]
      -- rows from the middle on have larger keys
      refine ih (by omega) ⟨j, p, hlow, ?_, hp, hkey⟩
      suffices j < mid by omega
      by_contra hge
      rcases Nat.lt_or_eq_of_le (Nat.le_of_not_lt hge) with hlt | heq
      · exact Int32.not_lt.2 (hkey ▸ hordered hlt hmid hp) hbelow
      · rw [heq, hp, Option.some.injEq] at hmid
        exact Int32.lt_irrefl (by rwa [← hmid, hkey] at hbelow)
    · rw [dif_neg hbelow] at ih
      rw [if_neg hbelow]
      rcases Nat.lt_or_ge j mid with hlt | hge
      · -- the middle row lies between two that have the key
        have hle : key ≤ q.1 := hkey ▸ hordered hlt hp hmid
        exact ih (by omega) ⟨mid, q, Nat.le_refl _, by omega, hmid,
          Int32.le_antisymm (Int32.not_lt.1 hbelow) hle⟩
      · exact ih (by omega) ⟨j, p, hge, by omega, hp, hkey⟩

/-- In a table in order a key leads to a row of its own. -/
theorem lookupTarget_of_ordered {pairs : List (Int32 × Nat)} (hsorted : pairs.Pairwise fun p q => p.1 ≤ q.1)
    {t : Nat} (h : (key, t) ∈ pairs) (default : Nat) : (key, lookupTarget pairs default key) ∈ pairs := by
  obtain ⟨j, hj⟩ := List.mem_iff_getElem?.1 h
  have hlt := (List.getElem?_eq_some_iff.1 hj).1
  have hsorted : pairs.toArray.toList.Pairwise fun p q => p.1 ≤ q.1 := hsorted
  obtain ⟨⟨k, t'⟩, hp, rfl⟩ := seekPair_finds hsorted 0 pairs.toArray.size (by omega)
    ⟨j, _, Nat.zero_le j, by simpa using hlt, by simpa using hj, rfl⟩
  have hmem : (k, t') ∈ pairs := by simpa using Array.mem_of_getElem? hp
  unfold lookupTarget
  dsimp only at hp ⊢
  rw [hp]
  simpa using hmem

end Search

namespace Decoding
open Bytes Stateful

/-- Keys and distances of the lookup switch at `pc`, as they stand in the bytes. -/
def lookupRows (code : Array UInt8) (pc : Nat) : Except LinkError (List (Int × Int)) := do
  let count ← signed32 code (switchBase pc + 4)
  (List.range' 0 count.toNat).mapM fun i => do
    return (← signed32 code (switchBase pc + 8 + 8 * i), ← signed32 code (switchBase pc + 8 + 8 * i + 4))

theorem signed32_range {code : Array UInt8} {i : Nat} {n : Int} (h : signed32 code i = .ok n) :
    -2 ^ 31 ≤ n ∧ n < 2 ^ 31 := by
  obtain ⟨high, -, h⟩ := except_bind_ok.1 h
  obtain ⟨low, -, h⟩ := except_bind_ok.1 h
  rw [← Except.ok.inj h]
  exact ⟨Int.le_trans (by decide) (Int.le_bmod (by decide)),
    Int.lt_of_lt_of_le (Int.bmod_lt (by decide)) (by decide)⟩

/-- What is made of a row: the key as it is, and the instruction at the distance. -/
def Rewritten (b : Body) (pc : Nat) (row : Int × Int) (p : Int32 × Nat) : Prop :=
  p.1.toInt = row.1 ∧ b.target pc row.2 = .ok p.2

/-- The table of a lookup switch is taken over row by row, in the order of the bytes. -/
theorem lookupSwitch_rewritten {b : Body} {pc : Nat} {i : Instruction} (h : lookupSwitch b pc = .ok i) :
    ∃ rows pairs d default, lookupRows b.code pc = .ok rows ∧ signed32 b.code (switchBase pc) = .ok d ∧
      b.target pc d = .ok default ∧ List.Forall₂ (Rewritten b pc) rows pairs ∧
      i = .lookupSwitch pairs default := by
  obtain ⟨d, hd, h⟩ := except_bind_ok.1 h
  obtain ⟨default, hdefault, h⟩ := except_bind_ok.1 h
  obtain ⟨count, hcount, h⟩ := except_bind_ok.1 h
  obtain ⟨pairs, hpairs, h⟩ := except_bind_ok.1 h
  cases h
  rw [lookupPairs_eq] at hpairs
  obtain ⟨rows, hrows, hrewritten⟩ := Lists.forall₂_through (R := fun j row => (do
      return (← signed32 b.code (switchBase pc + 8 + 8 * j), ← signed32 b.code (switchBase pc + 8 + 8 * j + 4)) :
        Except LinkError (Int × Int)) = .ok row) (S := Rewritten b pc) <| by
    apply (Lists.mapM_ok.1 hpairs).imp
    intro j p hp
    obtain ⟨key, hkey, hp⟩ := except_bind_ok.1 hp
    obtain ⟨distance, hdistance, hp⟩ := except_bind_ok.1 hp
    obtain ⟨target, htarget, hp⟩ := except_bind_ok.1 hp
    cases hp
    have hrange := signed32_range hkey
    refine ⟨(key, distance), ?_, Int32.toInt_ofInt_of_le hrange.1 hrange.2, htarget⟩
    rw [except_bind_of_ok hkey, except_bind_of_ok hdistance]
    rfl
  refine ⟨rows, pairs, d, default, ?_, hd, hdefault, hrewritten, rfl⟩
  unfold lookupRows
  rw [except_bind_of_ok hcount]
  exact Lists.mapM_ok.2 hrows

/-- The distance that the rows give a key: that of a row of its own, or the fallback if it has none. -/
def Sends (rows : List (Int × Int)) (fallback key distance : Int) : Prop :=
  (key, distance) ∈ rows ∨ (∀ d, (key, d) ∉ rows) ∧ distance = fallback

/-- Where a key is led by the instruction, its distance is one of a row of its own or the fallback; and it
is the one the rows give it if they are in order. -/
theorem exists_distance {b : Body} {pc : Nat} {rows : List (Int × Int)} {pairs : List (Int32 × Nat)}
    {fallback : Int} {default : Nat} (h : List.Forall₂ (Rewritten b pc) rows pairs)
    (hdefault : b.target pc fallback = .ok default) (key : Int32) :
    ∃ distance, b.target pc distance = .ok (lookupTarget pairs default key) ∧
      ((key.toInt, distance) ∈ rows ∨ distance = fallback) ∧
      ((rows.Pairwise fun r r' => r.1 ≤ r'.1) → Sends rows fallback key.toInt distance) := by
  by_cases hpaired : (key, lookupTarget pairs default key) ∈ pairs
  · obtain ⟨⟨k, d⟩, hmem, hkey, htarget⟩ := Lists.exists_left h hpaired
    obtain rfl : key.toInt = k := hkey
    exact ⟨d, htarget, .inl hmem, fun _ => .inl hmem⟩
  · have hmissed := (lookupTarget_paired pairs default key).resolve_left hpaired
    refine ⟨fallback, by rw [hmissed, hdefault], .inr rfl, fun hsorted => .inr ⟨fun d hd => hpaired ?_, rfl⟩⟩
    obtain ⟨⟨k, t⟩, ht, hkey, -⟩ := Lists.exists_right h hd
    obtain rfl : k = key := Int32.toInt_inj.1 hkey
    refine lookupTarget_of_ordered (Lists.pairwise_of_forall₂ h hsorted ?_) ht default
    intro r r' p p' _ _ hr hr' hle
    rw [Int32.le_iff_toInt_le, hr.1, hr'.1]
    exact hle

end Decoding

namespace Machine
open Decoding Bytes Stateful

theorem executeOne_lookupSwitch {m : Machine} {f : Frame} {rest : FrameStack} {pairs : List (Int32 × Nat)}
    {default : Nat} {key : Int32} {s : List Value} (hactive : m.active = f :: rest)
    (hi : f.code.get? f.pc = some (.lookupSwitch pairs default)) (hstack : f.stack = .int key :: s)
    (k : Nested) (t : ThreadId) : executeOne k t m =
      .ok .next { m with active := { f with pc := lookupTarget pairs default key, stack := s } :: rest } := by
  have hjump : (Frame.popInt >>= fun key => Frame.jump (lookupTarget pairs default key)) { f with pc := f.pc + 1 } =
      .ok () { f with pc := lookupTarget pairs default key, stack := s } := by
    rw [bind_of_ok (Frame.popInt_eq (f := { f with pc := f.pc + 1 }) hstack)]
    rfl
  rw [executeOne_at hactive hi]
  show frameStep _ _ = _
  unfold frameStep
  rw [bind_of_ok (onTop_ok rfl hjump)]
  rfl

/-- A lookup switch of a linked body goes on at the instruction at a distance that the raw table gives the
key, or that of the default. Which of them it is the table says, if its keys are in ascending order: the
key's own where it has a row, and the default only where it has none. -/
theorem lookupSwitch_branches {pool : ConstantPool} {subject : String} {raw : RawCode} {l l' : Linker}
    {code : LinkedCode} (hlink : Linker.linkBody pool subject raw l = .ok code l') {pcs : List Nat}
    (hpcs : starts raw.code = .ok pcs) {index pc : Nat} (hpc : pcs[index]? = some pc)
    (hop : raw.code[pc]? = some 0xab) :
    ∃ rows fallback, lookupRows raw.code pc = .ok rows ∧ signed32 raw.code (switchBase pc) = .ok fallback ∧
      ∀ (k : Nested) (t : ThreadId) (m : Machine) (f : Frame) (rest : FrameStack) (key : Int32) (s : List Value),
        m.active = f :: rest → f.code = code → f.pc = index → f.stack = .int key :: s →
        ∃ (target offset : Nat) (distance : Int), pcs[target]? = some offset ∧ (offset : Int) = pc + distance ∧
          executeOne k t m = .ok .next { m with active := { f with pc := target, stack := s } :: rest } ∧
          ((key.toInt, distance) ∈ rows ∨ distance = fallback) ∧
          ((rows.Pairwise fun r r' => r.1 ≤ r'.1) → Sends rows fallback key.toInt distance) := by
  have hdecoded := Linker.linkBody_decoded pool subject raw l
  rw [hlink] at hdecoded
  obtain ⟨⟨pcs', hcode⟩, -⟩ := hdecoded
  obtain rfl : pcs' = pcs := Except.ok.inj (hcode.split.symm.trans hpcs)
  obtain ⟨i, hi, op, hdecodes, hform⟩ := Lists.getElem?_of_forall₂ hcode.instructions hpc
  rw [operation_lookupSwitch hop] at hdecodes
  obtain ⟨j, hj, hdecodes⟩ := except_bind_ok.1 hdecodes
  cases hdecodes
  obtain ⟨rows, pairs, fallback, default, hrows, hfallback, hdefault, hrewritten, rfl⟩ :=
    lookupSwitch_rewritten hj
  refine ⟨rows, fallback, hrows, hfallback, fun k t m f rest key s hactive hf hat hstack => ?_⟩
  have hthere : f.code.get? f.pc = some (.lookupSwitch pairs default) := by
    rw [hf, hat, ← show i = .lookupSwitch pairs default from hform]
    rwa [Array.getElem?_toList] at hi
  obtain ⟨distance, htarget, hleads, hsends⟩ := exists_distance hrewritten hdefault key
  obtain ⟨offset, hoffset, hdistance⟩ := (target_ok (starts_ok.1 hpcs)).1 htarget
  exact ⟨_, offset, distance, hoffset, hdistance, executeOne_lookupSwitch hactive hthere hstack k t, hleads,
    hsends⟩

/-- A body that returns two for the key of its first row, one for that of its second and else minus one. -/
def choosing (first second : UInt8) : RawCode where
  maxStack := 1
  maxLocals := 1
  code := #[0x1a, 0xab, 0, 0, 0, 0, 0, 31, 0, 0, 0, 2, 0, 0, 0, first, 0, 0, 0, 27, 0, 0, 0, second, 0, 0, 0, 29,
    0x05, 0xac, 0x04, 0xac, 0x02, 0xac]

/-- What the body is linked to. -/
def choosingCode (first second : UInt8) : Except LinkError LinkedCode :=
  (Linker.linkBody .empty "choosing" (choosing first second)).outcome {}

theorem linkBody_choosing {first second : UInt8} {code : LinkedCode} (h : choosingCode first second = .ok code) :
    ∃ l', Linker.linkBody .empty "choosing" (choosing first second) {} = .ok code l' := by
  unfold choosingCode LinkM.outcome at h
  cases hlink : Linker.linkBody .empty "choosing" (choosing first second) {} with
  | ok c l' =>
    rw [hlink] at h
    exact ⟨l', by rw [Except.ok.inj h]⟩
  | error e l' =>
    rw [hlink] at h
    cases h

/-- The body is about to branch by two. -/
def choosingFrame (code : LinkedCode) : Frame := { Frame.ofCall ⟨0, 0⟩ code [] with pc := 1, stack := [.int 2] }

theorem lookupSwitch_branches_chosen : ∃ code l',
    Linker.linkBody .empty "choosing" (choosing 1 2) {} = .ok code l' ∧
    lookupRows (choosing 1 2).code 1 = .ok [(1, 27), (2, 29)] ∧
    executeOne (nested 5) 1 (pledging [choosingFrame code]) =
      .ok .next (pledging [{ choosingFrame code with pc := 4, stack := [] }]) := by
  have hlinks : (choosingCode 1 2).toOption.isSome = true := by decide +kernel
  have hstarts : starts (choosing 1 2).code = .ok [0, 1, 28, 29, 30, 31, 32, 33] := by decide +kernel
  have hrows : lookupRows (choosing 1 2).code 1 = .ok [(1, 27), (2, 29)] := by decide +kernel
  cases hcode : choosingCode 1 2 with
  | error e =>
    rw [hcode] at hlinks
    cases hlinks
  | ok code =>
    obtain ⟨l', hlink⟩ := linkBody_choosing hcode
    obtain ⟨rows, fallback, hread, -, hbranches⟩ := lookupSwitch_branches hlink hstarts
      (show [0, 1, 28, 29, 30, 31, 32, 33][1]? = some 1 from rfl) rfl
    cases hread.symm.trans hrows
    obtain ⟨target, offset, distance, hoffset, hdistance, hruns, -, hsends⟩ := hbranches (nested 5) 1
      (pledging [choosingFrame code]) (choosingFrame code) [] 2 [] rfl rfl rfl rfl
    have hchosen : distance = 29 := by
      rcases hsends (by decide) with hmem | ⟨hnone, -⟩
      · simpa using hmem
      · exact absurd (by decide) (hnone 29)
    obtain rfl : offset = 30 := by omega
    have hfourth : [0, 1, 28, 29, 30, 31, 32, 33][4]? = some 30 := rfl
    obtain rfl : 4 = target := (List.getElem?_inj (by decide) (by decide)).1 (hfourth.trans hoffset.symm)
    exact ⟨code, l', hlink, hrows, hruns⟩

/-- The same rows the other way round are linked as well, and two, the key of the first, leads to the
default. -/
theorem lookupSwitch_misses : ∃ code l',
    Linker.linkBody .empty "choosing" (choosing 2 1) {} = .ok code l' ∧
    starts (choosing 2 1).code = .ok [0, 1, 28, 29, 30, 31, 32, 33] ∧
    lookupRows (choosing 2 1).code 1 = .ok [(2, 27), (1, 29)] ∧
    Bytes.signed32 (choosing 2 1).code (switchBase 1) = .ok 31 ∧
    executeOne (nested 5) 1 (pledging [choosingFrame code]) =
      .ok .next (pledging [{ choosingFrame code with pc := 6, stack := [] }]) := by
  have hlinks : (choosingCode 2 1).toOption.bind (·.get? 1) = some (.lookupSwitch [(2, 2), (1, 4)] 6) := by
    decide +kernel
  cases hcode : choosingCode 2 1 with
  | error e =>
    rw [hcode] at hlinks
    cases hlinks
  | ok code =>
    rw [hcode] at hlinks
    obtain ⟨l', hlink⟩ := linkBody_choosing hcode
    have hmissed : lookupTarget [(2, 2), (1, 4)] 6 2 = 6 := by decide +kernel
    have hruns := executeOne_lookupSwitch (m := pledging [choosingFrame code]) rfl hlinks rfl (nested 5) 1
    rw [hmissed] at hruns
    exact ⟨code, l', hlink, by decide +kernel, by decide +kernel, by decide +kernel, hruns⟩

end Machine

end ClassMachine
