import ClassMachine.Proofs.Class.Shape
import ClassMachine.Snapshot.Format
import Mathlib.Algebra.Order.Ring.Int

/-!
Images and their bytes. Every value is read back off any byte string that begins with what was
written of it, as long as the lengths in it fit their eight bytes, so that the bytes of an image
stand for that image.
-/
namespace ClassMachine

namespace Binary

/-- Values of the type are read back whatever follows them. What is written of a value has at least
one byte, so that a list is never longer than its bytes, and a bound on those bounds its length. -/
class Faithful (α : Type) [Binary α] : Prop where
  lawful (a : α) : (write a).length < 2 ^ 64 → Lawful a
  write_pos (a : α) : 0 < (write a).length

theorem Lawful.bind {α β : Type} [Binary α] {a : α} (h : Lawful a) (next : α → Reader β)
    (rest : List UInt8) : ((read : Reader α) >>= next) (write a ++ rest) = next a rest := by
  simp only [Bind.bind, StateT.bind, h rest, Option.bind_some]

theorem lawful_word {α : Type} [Binary α] {a : α} (width n : Nat) (value : Nat → α)
    (hwrite : write a = writeWord width n) (hread : (read : Reader α) = StateT.map value (readWord width))
    (hn : n < Nat.pow 256 width) (hvalue : value n = a) : Lawful a := by
  intro rest
  have hword := readWord_writeWord width n hn rest
  simp only [hread, hwrite, StateT.map, hword, hvalue, Option.bind_eq_bind, Option.bind_some, pure]

theorem lawful_uint8 (a : UInt8) : Lawful a :=
  lawful_word 1 a.toNat UInt8.ofNat (by simp [write, writeWord]) rfl a.toNat_lt (by simp)

theorem lawful_uint32 (a : UInt32) : Lawful a :=
  lawful_word 4 a.toNat UInt32.ofNat rfl rfl a.toNat_lt (by simp)

theorem lawful_uint64 (a : UInt64) : Lawful a :=
  lawful_word 8 a.toNat UInt64.ofNat rfl rfl a.toNat_lt (by simp)

theorem length_write_uint64 (a : UInt64) : (write a).length = 8 := length_writeWord 8 a.toNat

theorem length_writeTag (n : UInt32) : (writeTag n).length = 4 := length_writeWord 4 n.toNat

/-- A tag decides how what follows it is read. -/
theorem readTag_bind {α : Type} (n : UInt32) (next : UInt32 → Reader α) (rest : List UInt8) :
    (readTag >>= next) (writeTag n ++ rest) = next n rest :=
  (lawful_uint32 n).bind next rest

theorem lawful_bool (b : Bool) : Lawful b := by
  intro rest
  have hbyte := (lawful_uint8 (if b then 1 else 0)).bind
    (fun b => match bool? b with | some a => return a | none => failure) rest
  cases b <;> exact hbyte

instance : Faithful UInt8 := ⟨fun a _ => lawful_uint8 a, fun _ => Nat.one_pos⟩
instance : Faithful UInt32 := ⟨fun a _ => lawful_uint32 a, fun a => by simp [write]⟩
instance : Faithful UInt64 := ⟨fun a _ => lawful_uint64 a, fun a => by simp [write]⟩
instance : Faithful Bool := ⟨fun b _ => lawful_bool b, fun _ => Nat.one_pos⟩

theorem Faithful.via {α β : Type} [Binary β] [Faithful β] {unpack : α → β} {pack : β → α}
    (inverse : ∀ a, pack (unpack a) = a) : @Faithful α (Binary.via unpack pack) :=
  @Faithful.mk α (Binary.via unpack pack)
    (fun a h => lawful_via (lawful (unpack a) h) (inverse a)) fun a => write_pos (unpack a)

instance : Faithful Int32 := .via Int32.toInt32_toUInt32
instance : Faithful Int64 := .via Int64.toInt64_toUInt64

/-- A position among the choices finds the choice again. -/
theorem Faithful.ofChoices {α : Type} [BEq α] [LawfulBEq α] {choices : List α}
    (hall : ∀ a, a ∈ choices) (hlength : choices.length < 2 ^ 32) :
    @Faithful α (Binary.ofChoices choices) := by
  refine @Faithful.mk α (Binary.ofChoices choices) (fun a _ rest => ?_) fun a => ?_
  · have hposition := List.idxOf_lt_length_of_mem (hall a)
    have hnumber : (UInt32.ofNat (choices.idxOf a)).toNat = choices.idxOf a :=
      UInt32.toNat_ofNat_of_lt (Nat.lt_trans hposition hlength)
    refine (readTag_bind _ _ rest).trans ?_
    rw [hnumber, List.getElem?_eq_getElem hposition, List.getElem_idxOf hposition]
    rfl
  · exact (length_writeTag _).symm ▸ Nat.succ_pos 3

section
variable {α β : Type} [Binary α] [Binary β] [Faithful α] [Faithful β]

instance : Faithful (α × β) where
  lawful p h rest := by
    obtain ⟨a, b⟩ := p
    have hlength : (write a).length + (write b).length < 2 ^ 64 := by
      simpa only [write, List.length_append] using h
    have hfirst := (Faithful.lawful a (by omega)).bind
      (fun a => (read : Reader β) >>= fun b => pure (a, b)) (write b ++ rest)
    have hsecond := (Faithful.lawful b (by omega)).bind (fun b => pure (a, b)) rest
    rw [show write (a, b) = write a ++ write b from rfl, List.append_assoc]
    exact hfirst.trans hsecond
  write_pos p := by
    rw [show write p = write p.1 ++ write p.2 from rfl, List.length_append]
    exact Nat.add_pos_left (Faithful.write_pos p.1) _

instance : Faithful (Option α) where
  lawful o h rest := by
    have hpresence := fun b => (lawful_bool b).bind fun present =>
      if present then (read : Reader α) >>= fun a => pure (some a) else pure none
    cases o with
    | none => exact hpresence false rest
    | some a =>
      have hlength : (write true).length + (write a).length < 2 ^ 64 := by
        rw [← List.length_append]
        exact h
      have hvalue := (Faithful.lawful a (by omega)).bind (fun a => pure (some a)) rest
      rw [show write (some a) = write true ++ write a from rfl, List.append_assoc]
      exact (hpresence true _).trans hvalue
  write_pos o := by
    cases o with
    | none => exact Nat.one_pos
    | some a => exact Nat.succ_pos _

theorem length_le_flatMap_write (values : List α) : values.length ≤ (values.flatMap write).length := by
  induction values with
  | nil => exact Nat.le_refl 0
  | cons a values ih =>
    have hfirst := Faithful.write_pos a
    simp only [List.flatMap_cons, List.length_append, List.length_cons]
    omega

omit [Faithful α] in
theorem length_write_le_flatMap {values : List α} {a : α} (ha : a ∈ values) :
    (write a).length ≤ (values.flatMap write).length := by
  obtain ⟨before, after, rfl⟩ := List.append_of_mem ha
  simp only [List.flatMap_append, List.flatMap_cons, List.length_append]
  omega

instance : Faithful (List α) where
  lawful values h rest := by
    have hwrite : write values = write (UInt64.ofNat values.length) ++ values.flatMap write := rfl
    have htotal : 8 + (values.flatMap write).length < 2 ^ 64 := by
      rwa [hwrite, List.length_append, length_write_uint64] at h
    have hcount : (UInt64.ofNat values.length).toNat = values.length :=
      UInt64.toNat_ofNat_of_lt (by have := length_le_flatMap_write values; simp only [UInt64.size]; omega)
    have hvalues : ∀ a ∈ values, Lawful a := fun a ha =>
      Faithful.lawful a (by have := length_write_le_flatMap ha; omega)
    rw [hwrite, List.append_assoc]
    refine ((lawful_uint64 _).bind (fun length => readMany length.toNat []) _).trans ?_
    rw [hcount]
    exact readMany_write values [] hvalues rest
  write_pos values := by
    rw [show write values = write (UInt64.ofNat values.length) ++ values.flatMap write from rfl,
      List.length_append, length_write_uint64]
    omega

end

theorem fromUTF8?_toUTF8 (s : String) : String.fromUTF8? ⟨s.toUTF8.toList.toArray⟩ = some s := by
  have hbytes : (⟨s.toUTF8.toList.toArray⟩ : ByteArray) = s.toByteArray := by
    rw [toList_eq_data]
    rfl
  rw [hbytes, String.fromUTF8?, dif_pos s.isValidUTF8]
  rfl

instance : Faithful String where
  lawful s h rest := by
    have hbytes := Faithful.lawful s.toUTF8.toList h
    refine (hbytes.bind (fun bytes => match String.fromUTF8? ⟨bytes.toArray⟩ with
      | some s => return s
      | none => failure) rest).trans ?_
    rw [fromUTF8?_toUTF8]
    rfl
  write_pos s := Faithful.write_pos s.toUTF8.toList

instance : Faithful Ref := .via fun _ => rfl

instance : Faithful Kind := .ofChoices (by intro kind; cases kind <;> decide) (by decide)

instance : Faithful MonitorWait := .ofChoices (by intro reason; cases reason <;> decide) (by decide)

/-- An alternative with data is read back if its tag leads to a reader of that data. -/
theorem lawful_tagged {α β : Type} [Binary α] [Binary β] [Faithful β] {a : α} {b : β} (n : UInt32)
    (next : UInt32 → Reader α) (make : β → α) (hread : (read : Reader α) = readTag >>= next)
    (hwrite : write a = writeTag n ++ write b) (hnext : next n = read >>= fun b => pure (make b))
    (hmake : make b = a) (h : (write a).length < 2 ^ 64) : Lawful a := by
  intro rest
  have hlength : (write b).length < 2 ^ 64 := by
    rw [hwrite, List.length_append] at h
    omega
  have hvalue := (Faithful.lawful b hlength).bind (fun b => pure (make b)) rest
  rw [hread, hwrite, List.append_assoc, readTag_bind, hnext, hvalue, hmake]
  rfl

theorem length_tagged_pos (n : UInt32) (bytes : List UInt8) : 0 < (writeTag n ++ bytes).length := by
  rw [List.length_append, length_writeTag]
  omega

instance : Faithful Value where
  lawful v h := by
    cases v with
    | int n => exact lawful_tagged 0 _ Value.int rfl rfl rfl rfl h
    | long n => exact lawful_tagged 1 _ Value.long rfl rfl rfl rfl h
    | float bits => exact lawful_tagged 2 _ Value.float rfl rfl rfl rfl h
    | double bits => exact lawful_tagged 3 _ Value.double rfl rfl rfl rfl h
    | ref r => exact lawful_tagged 4 _ Value.ref rfl rfl rfl rfl h
  write_pos v := by cases v <;> exact length_tagged_pos _ _

instance : Faithful WaitToken := .via fun _ => rfl
instance : Faithful Monitor := .via fun _ => rfl
instance : Faithful PendingMonitor := .via fun _ => rfl

end Binary

namespace Snapshot
open Binary

instance : Faithful ClassRecord := .via fun _ => rfl

instance : Faithful PayloadRecord where
  lawful payload h := by
    cases payload with
    | none => exact fun rest => readTag_bind 0 _ rest
    | array kind elements =>
      exact lawful_tagged 1 _ (fun (kind, elements) => PayloadRecord.array kind elements) rfl rfl rfl rfl h
    | str text => exact lawful_tagged 2 _ PayloadRecord.str rfl rfl rfl rfl h
    | mirror name => exact lawful_tagged 3 _ PayloadRecord.mirror rfl rfl rfl rfl h
    | companion bytes => exact lawful_tagged 4 _ PayloadRecord.companion rfl rfl rfl rfl h
  write_pos payload := by
    cases payload with
    | none => exact length_tagged_pos 0 []
    | _ => exact length_tagged_pos _ _

instance : Faithful ObjectRecord := .via fun _ => rfl
instance : Faithful StaticsRecord := .via fun _ => rfl

instance : Faithful StateRecord where
  lawful state h := by
    cases state with
    | ready => exact fun rest => readTag_bind 0 _ rest
    | detachedFor millis => exact lawful_tagged 1 _ StateRecord.detachedFor rfl rfl rfl rfl h
    | detached => exact fun rest => readTag_bind 2 _ rest
  write_pos state := by
    cases state with
    | detachedFor millis => exact length_tagged_pos _ _
    | _ => exact length_tagged_pos _ []

instance : Faithful FrameRecord := .via fun _ => rfl
instance : Faithful ThreadRecord := .via fun _ => rfl
instance : Faithful Image := .via fun _ => rfl

end Snapshot

namespace Digest

theorem length_sha256 (bytes : List UInt8) : (sha256 bytes).length = Snapshot.digestLength := rfl

end Digest

namespace Snapshot.Image

/-- What stands before the body takes up just the length of a header. -/
theorem length_header (body : List UInt8) :
    (magic ++ versionBytes ++ Digest.sha256 body).length = headerLength := by
  simp only [List.length_append, Digest.length_sha256, headerLength]

theorem drop_toBytes (i : Image) : i.toBytes.drop headerLength = Binary.write i :=
  List.drop_left' (length_header _)

theorem versionOf_toBytes (i : Image) : versionOf i.toBytes = formatVersion := by
  have hversion : (i.toBytes.drop magic.length).take versionBytes.length = versionBytes := by
    simp only [toBytes, List.append_assoc, List.drop_left, List.take_left]
  rw [versionOf, hversion]
  decide

theorem digestOf_toBytes (i : Image) : digestOf i.toBytes = Digest.sha256 (Binary.write i) := by
  have hbehind : i.toBytes.drop (magic.length + versionBytes.length)
      = Digest.sha256 (Binary.write i) ++ Binary.write i := by
    simp only [toBytes, ← List.length_append]
    rw [List.append_assoc, List.drop_left]
  rw [digestOf, hbehind]
  exact List.take_left' (Digest.length_sha256 _)

/-- The bytes of an image are read back as that very image. Bytes are a list in memory, with fewer
than `2 ^ 64` entries. -/
theorem ofBytes_toBytes (i : Image) (h : i.toBytes.length < 2 ^ 64) : ofBytes i.toBytes = .ok i := by
  have hmagic : magic.isPrefixOf i.toBytes = true := by
    rw [List.isPrefixOf_iff_prefix, toBytes, List.append_assoc, List.append_assoc]
    exact List.prefix_append _ _
  have hsplit : i.toBytes.length = headerLength + (Binary.write i).length := by
    rw [toBytes, List.length_append, length_header]
  have hbody : (Binary.read : Reader Image) (Binary.write i) = some (i, []) := by
    have hlawful := Binary.Faithful.lawful i (by omega) []
    rwa [List.append_nil] at hlawful
  simp only [ofBytes, drop_toBytes, hbody, hmagic, versionOf_toBytes, digestOf_toBytes,
    Bool.not_true, Bool.false_eq_true, if_false, ne_eq, not_true]
  rw [if_neg (by omega)]

/-- An image with something in every place: odd bit patterns, queues on a monitor, a thread that is to
take a monitor again, payloads of all sorts and a call inside another. -/
def crowded : Image where
  capturedAt := 18446744073709551615
  heapCapacity := 65536
  outOfMemory := ⟨1⟩
  classes := [⟨"Größe", "00ff"⟩, ⟨"[D", ""⟩]
  objects := [
    ⟨⟨1⟩, "Größe", ⟨some 2, 3, [⟨4, 1⟩, ⟨5, 7⟩], [⟨6, 1⟩]⟩,
      [.int (-1), .long (-2), .float 0x7fc00001, .double 0xfff8000000000001, .ref ⟨0⟩], .none⟩,
    ⟨⟨2⟩, "[D", ⟨none, 0, [], []⟩, [], .array .double [.double 0x8000000000000000]⟩,
    ⟨⟨3⟩, "java/lang/String", ⟨none, 0, [], []⟩, [], .str "naïve ∀"⟩,
    ⟨⟨4⟩, "java/lang/Class", ⟨none, 0, [], []⟩, [], .mirror "Größe"⟩,
    ⟨⟨5⟩, "Größe", ⟨none, 0, [], []⟩, [], .companion [0, 255]⟩]
  interned := [("naïve ∀", ⟨3⟩)]
  statics := [⟨"Größe", [.float 0xff800000]⟩]
  threads := [
    ⟨2, .detachedFor 100, true, true, some ⟨⟨1⟩, ⟨4, 2⟩, .wait⟩, ⟨5⟩, [7],
      [⟨"Größe", "outer", "()V", "ab", 4, [.ref ⟨1⟩], [.long 5], some ⟨1⟩⟩,
        ⟨"Größe", "inner", "(J)D", "cd", 0, [], [], none⟩]⟩,
    ⟨7, .ready, false, false, none, ⟨0⟩, [], []⟩]
  ready := [7]

theorem ofBytes_toBytes_crowded :
    crowded.toBytes.length < 2 ^ 64 ∧ ofBytes crowded.toBytes = .ok crowded :=
  have hlength : crowded.toBytes.length < 2 ^ 64 := by decide +kernel
  ⟨hlength, ofBytes_toBytes crowded hlength⟩

end Snapshot.Image

end ClassMachine
