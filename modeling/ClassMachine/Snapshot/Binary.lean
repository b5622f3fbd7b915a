import ClassMachine.Scheduler.Thread

/-!
Binary form of values. Numbers have a fixed width and their lowest byte first, lists and texts are
preceded by their length, alternatives by the number of the one taken. Reading takes a value off the
front and leaves the bytes after it.
-/
namespace ClassMachine

/-- A computation on the bytes to be read; it fails where they stand for no value. -/
abbrev Reader := StateT (List UInt8) Option

class Binary (α : Type) where
  write : α → List UInt8
  read : Reader α

namespace Binary

/-- What was written of a value is read back, whatever follows. -/
def Lawful {α : Type} [Binary α] (a : α) : Prop :=
  ∀ rest, (read : Reader α) (write a ++ rest) = some (a, rest)

/-- Digits of a number in base 256, the lowest first. -/
def writeWord : Nat → Nat → List UInt8
  | 0, _ => []
  | width + 1, n => UInt8.ofNat n :: writeWord width (n / 256)

def readWord : Nat → List UInt8 → Option (Nat × List UInt8)
  | 0, bytes => some (0, bytes)
  | _ + 1, [] => none
  | width + 1, b :: bytes =>
    match readWord width bytes with
    | some (high, rest) => some (b.toNat + 256 * high, rest)
    | none => none

@[simp] theorem length_writeWord (width n : Nat) : (writeWord width n).length = width := by
  induction width generalizing n with
  | zero => rfl
  | succ width ih => simp [writeWord, ih]

theorem readWord_writeWord (width n : Nat) (h : n < Nat.pow 256 width) (rest : List UInt8) :
    readWord width (writeWord width n ++ rest) = some (n, rest) := by
  induction width generalizing n with
  | zero =>
    have : n = 0 := by simpa using h
    subst this
    rfl
  | succ width ih =>
    have high : n / 256 < Nat.pow 256 width := by
      rw [Nat.div_lt_iff_lt_mul (by decide)]
      simpa [Nat.pow_succ] using h
    have digit : n % 256 + 256 * (n / 256) = n := Nat.mod_add_div n 256
    simp [writeWord, readWord, ih _ high, digit]

instance : Binary UInt8 := ⟨fun b => [b], readWord 1 |> StateT.map UInt8.ofNat⟩
instance : Binary UInt32 := ⟨fun n => writeWord 4 n.toNat, StateT.map UInt32.ofNat (readWord 4)⟩
instance : Binary UInt64 := ⟨fun n => writeWord 8 n.toNat, StateT.map UInt64.ofNat (readWord 8)⟩

/-- Stores a type in the form of another one. -/
@[reducible] def via {α β : Type} [Binary β] (unpack : α → β) (pack : β → α) : Binary α where
  write a := write (unpack a)
  read := pack <$> read

theorem lawful_via {α β : Type} [Binary β] {unpack : α → β} {pack : β → α} {a : α}
    (h : Lawful (unpack a)) (inverse : pack (unpack a) = a) :
    @Lawful α (via unpack pack) a := by
  intro rest
  change (pack <$> (read : Reader β)) (write (unpack a) ++ rest) = some (a, rest)
  simp [Functor.map, StateT.map, h rest, inverse]

instance : Binary Int32 := via Int32.toUInt32 UInt32.toInt32
instance : Binary Int64 := via Int64.toUInt64 UInt64.toInt64

/-- A value one of a few bytes stands for. -/
def readByte {α : Type} (value? : UInt8 → Option α) : Reader α := do
  let b : UInt8 ← read
  match value? b with
  | some a => return a
  | none => failure

def bool? : UInt8 → Option Bool
  | 0 => some false
  | 1 => some true
  | _ => none

instance : Binary Bool := ⟨fun b => [if b then 1 else 0], readByte bool?⟩

section
variable {α β : Type} [Binary α] [Binary β]

instance : Binary (α × β) where
  write p := write p.1 ++ write p.2
  read := do return (← read, ← read)

/-- A truth value tells whether there is a value. -/
instance : Binary (Option α) where
  write
    | none => write false
    | some a => write true ++ write a
  read := do
    let present : Bool ← read
    if present then return some (← read) else return none

/-- Reads so many values behind those already seen, latest first. -/
def readMany : Nat → List α → List UInt8 → Option (List α × List UInt8)
  | 0, seen, bytes => some (seen.reverse, bytes)
  | n + 1, seen, bytes =>
    match (read : Reader α) bytes with
    | some (a, rest) => readMany n (a :: seen) rest
    | none => none

theorem readMany_write (values seen : List α) (h : ∀ a ∈ values, Lawful a) (rest : List UInt8) :
    readMany values.length seen (values.flatMap write ++ rest) = some (seen.reverse ++ values, rest) := by
  induction values generalizing seen with
  | nil => simp [readMany]
  | cons a values ih =>
    have first := h a (by simp) (values.flatMap write ++ rest)
    simp [readMany, List.append_assoc, first, ih (a :: seen) fun b hb => h b (by simp [hb])]

instance : Binary (List α) where
  write values := write (UInt64.ofNat values.length) ++ values.flatMap write
  read := do
    let length : UInt64 ← read
    readMany length.toNat []

end

/-- Text is stored as its bytes, which have to be well formed. -/
instance : Binary String where
  write s := write s.toUTF8.toList
  read := do
    let bytes : List UInt8 ← read
    match String.fromUTF8? ⟨bytes.toArray⟩ with
    | some s => return s
    | none => failure

/-- Number of an alternative. -/
def writeTag (n : UInt32) : List UInt8 := write n

def readTag : Reader UInt32 := read

/-- Stores one of a few values as its position among them. -/
@[reducible] def ofChoices {α : Type} [BEq α] (choices : List α) : Binary α where
  write a := writeTag (UInt32.ofNat (choices.idxOf a))
  read := do
    let tag ← readTag
    match choices[tag.toNat]? with
    | some a => return a
    | none => failure

instance : Binary Ref := via Ref.handle Ref.mk

instance : Binary Kind :=
  ofChoices [.boolean, .byte, .char, .short, .int, .long, .float, .double, .reference]

instance : Binary Value where
  write
    | .int v => writeTag 0 ++ write v
    | .long v => writeTag 1 ++ write v
    | .float b => writeTag 2 ++ write b
    | .double b => writeTag 3 ++ write b
    | .ref r => writeTag 4 ++ write r
  read := do
    match ← readTag with
    | 0 => return .int (← read)
    | 1 => return .long (← read)
    | 2 => return .float (← read)
    | 3 => return .double (← read)
    | 4 => return .ref (← read)
    | _ => failure

instance : Binary WaitToken :=
  via (fun t => (t.thread, t.reentrancy)) fun (thread, reentrancy) => ⟨thread, reentrancy⟩

instance : Binary Monitor :=
  via (fun m => (m.owner, m.count, m.waiters, m.entrants))
    fun (owner, count, waiters, entrants) => ⟨owner, count, waiters, entrants⟩

instance : Binary MonitorWait := ofChoices [.enter, .wait]

instance : Binary PendingMonitor :=
  via (fun p => (p.object, p.token, p.reason)) fun (object, token, reason) => ⟨object, token, reason⟩

end Binary

end ClassMachine
