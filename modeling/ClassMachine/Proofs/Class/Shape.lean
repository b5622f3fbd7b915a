import ClassMachine.Class.StructuralHash
import ClassMachine.Proofs.Link.Requests

/-!
Shapes by their bytes, and layouts by names. Every text is preceded by its length and every list by its
count, so that the byte string the hash of a class is taken of stands for one shape only. A class adds the
instance fields it declares to those of the superclass it names, so its layout is a matter of its own shape
and of the shapes of its superclasses.
-/
namespace ClassMachine

/-- A form from which a value can be read off the front of a byte string, for values within `P`. -/
def Legible {α : Type} (P : α → Prop) (write : α → List UInt8) : Prop :=
  ∀ ⦃a b : α⦄ ⦃rest rest' : List UInt8⦄, P a → P b → write a ++ rest = write b ++ rest' →
    a = b ∧ rest = rest'

/-- A list with its count in front. -/
def countedBytes {α : Type} (write : α → List UInt8) (xs : List α) : List UInt8 :=
  countBytes xs.length ++ xs.flatMap write

/-- A text whose length fits its count. -/
def Countable (s : String) : Prop := s.utf8ByteSize < UInt32.size

instance (s : String) : Decidable (Countable s) := inferInstanceAs (Decidable (_ < _))

namespace Legible

variable {α : Type} {P : α → Prop}

/-- A form of fixed width. -/
theorem of_length {write : α → List UInt8} (width : Nat) (hwidth : ∀ a, (write a).length = width)
    (hinjective : ∀ a b, P a → P b → write a = write b → a = b) : Legible P write := by
  intro a b rest rest' ha hb h
  obtain ⟨hwritten, hrest⟩ := List.append_inj h ((hwidth a).trans (hwidth b).symm)
  exact ⟨hinjective a b ha hb hwritten, hrest⟩

theorem flatMap {write : α → List UInt8} (h : Legible P write) {xs ys : List α} {rest rest' : List UInt8}
    (hlength : xs.length = ys.length) (hxs : ∀ x ∈ xs, P x) (hys : ∀ y ∈ ys, P y)
    (heq : xs.flatMap write ++ rest = ys.flatMap write ++ rest') : xs = ys ∧ rest = rest' := by
  induction xs generalizing ys with
  | nil =>
    cases ys with
    | nil => exact ⟨rfl, heq⟩
    | cons y ys => cases hlength
  | cons x xs ih =>
    cases ys with
    | nil => cases hlength
    | cons y ys =>
      simp only [List.flatMap_cons, List.append_assoc] at heq
      obtain ⟨rfl, htail⟩ := h (hxs x (by simp)) (hys y (by simp)) heq
      obtain ⟨rfl, hrest⟩ := ih (Nat.succ.inj hlength) (fun z hz => hxs z (by simp [hz]))
        (fun z hz => hys z (by simp [hz])) htail
      exact ⟨rfl, hrest⟩

end Legible

theorem toList_eq_data (bytes : ByteArray) : bytes.toList = bytes.data.toList := by
  have hloop : ∀ (n i : Nat) (r : List UInt8), bytes.size - i = n →
      ByteArray.toList.loop bytes i r = r.reverse ++ bytes.data.toList.drop i := by
    intro n
    induction n with
    | zero =>
      intro i r hi
      have hsize : bytes.size ≤ i := Nat.le_of_sub_eq_zero hi
      rw [ByteArray.toList.loop, if_neg (Nat.not_lt.2 hsize), List.drop_eq_nil_of_le (by simpa using hsize),
        List.append_nil]
    | succ n ih =>
      intro i r hi
      have hsize : i < bytes.size := by omega
      have hget : bytes.get! i = bytes.data[i] := getElem!_pos bytes.data i hsize
      have hdrop : bytes.data.toList.drop i = bytes.data[i] :: bytes.data.toList.drop (i + 1) :=
        List.drop_eq_getElem_cons (by simpa using hsize)
      rw [ByteArray.toList.loop, if_pos hsize, ih (i + 1) _ (by omega), hdrop, hget]
      simp
  exact hloop _ 0 [] rfl

theorem legible_countBytes : Legible (· < UInt32.size) countBytes := by
  refine Legible.of_length 4 (fun _ => rfl) fun a b ha hb h => ?_
  simp only [countBytes, Digest.bytesOfWord, List.cons.injEq, ← UInt8.toNat_inj] at h
  simp [Nat.shiftRight_eq_div_pow] at h
  simp only [UInt32.size] at ha hb
  omega

theorem legible_flagBytes : Legible (fun _ => True) flagBytes := by
  refine Legible.of_length 2 (fun _ => rfl) fun a b _ _ h => ?_
  have hbits : a.bits.toNat = b.bits.toNat := by
    simp only [flagBytes, List.cons.injEq, ← UInt8.toNat_inj] at h
    simp [Nat.shiftRight_eq_div_pow] at h
    have ha := a.bits.toNat_lt
    have hb := b.bits.toNat_lt
    omega
  cases a
  cases b
  exact congrArg AccessFlags.mk (UInt16.toNat_inj.1 hbits)

theorem legible_textBytes : Legible Countable textBytes := by
  intro s s' rest rest' hs hs' heq
  unfold textBytes at heq
  simp only [List.append_assoc] at heq
  obtain ⟨hsize, htail⟩ := legible_countBytes hs hs' heq
  rw [toList_eq_data, toList_eq_data] at htail
  obtain ⟨hbytes, hrest⟩ := List.append_inj htail (by simpa using hsize)
  refine ⟨String.toByteArray_inj.1 ?_, hrest⟩
  simpa [ByteArray.ext_iff, Array.toList_inj] using hbytes

theorem Legible.counted {α : Type} {P : α → Prop} {write : α → List UInt8} (h : Legible P write) :
    Legible (fun xs : List α => xs.length < UInt32.size ∧ ∀ x ∈ xs, P x) (countedBytes write) := by
  rintro xs ys rest rest' ⟨hcount, hxs⟩ ⟨hcount', hys⟩ heq
  simp only [countedBytes, List.append_assoc] at heq
  obtain ⟨hlength, htail⟩ := legible_countBytes hcount hcount' heq
  exact h.flatMap hlength hxs hys htail

/-- A field or method as its class declares it: name, descriptor and flags. -/
abbrev Member := String × String × AccessFlags

def Member.bytes (m : Member) : List UInt8 := memberBytes m.1 m.2.1 m.2.2

theorem Member.legible_bytes : Legible (fun m : Member => Countable m.1 ∧ Countable m.2.1) bytes := by
  rintro ⟨name, descriptor, flags⟩ ⟨name', descriptor', flags'⟩ rest rest' ⟨hname, hdescriptor⟩
    ⟨hname', hdescriptor'⟩ heq
  simp only [bytes, memberBytes, List.append_assoc] at heq
  obtain ⟨rfl, hafter⟩ := legible_textBytes hname hname' heq
  obtain ⟨rfl, hend⟩ := legible_textBytes hdescriptor hdescriptor' hafter
  obtain ⟨rfl, hrest⟩ := legible_flagBytes trivial trivial hend
  exact ⟨rfl, hrest⟩

/-- What the hash of a class is taken of. A class without a superclass extends the one without a
name. -/
structure ClassShape where
  name : String
  superName : String
  interfaces : List String
  flags : AccessFlags
  fields : List Member
  methods : List Member
  deriving DecidableEq

def ClassInfo.shape (c : ClassInfo) : ClassShape where
  name := c.name
  superName := c.superName.getD ""
  interfaces := c.interfaceNames
  flags := c.flags
  fields := c.fields.toList.map fun f => (f.name, f.descriptor, f.flags)
  methods := c.methods.toList.map fun m => (m.name, m.descriptor, m.flags)

namespace ClassShape

def bytes (s : ClassShape) : List UInt8 :=
  textBytes s.name ++ (textBytes s.superName ++ (countedBytes textBytes s.interfaces ++
    (flagBytes s.flags ++ (countedBytes Member.bytes s.fields ++ countedBytes Member.bytes s.methods))))

/-- A shape whose texts and lists fit their counts. -/
structure Measured (s : ClassShape) : Prop where
  name : Countable s.name
  superName : Countable s.superName
  interfaces : s.interfaces.length < UInt32.size ∧ ∀ name ∈ s.interfaces, Countable name
  fields : s.fields.length < UInt32.size ∧ ∀ f ∈ s.fields, Countable f.1 ∧ Countable f.2.1
  methods : s.methods.length < UInt32.size ∧ ∀ m ∈ s.methods, Countable m.1 ∧ Countable m.2.1

instance (s : ClassShape) : Decidable s.Measured :=
  decidable_of_iff
    (Countable s.name ∧ Countable s.superName ∧
      (s.interfaces.length < UInt32.size ∧ ∀ name ∈ s.interfaces, Countable name) ∧
      (s.fields.length < UInt32.size ∧ ∀ f ∈ s.fields, Countable f.1 ∧ Countable f.2.1) ∧
      (s.methods.length < UInt32.size ∧ ∀ m ∈ s.methods, Countable m.1 ∧ Countable m.2.1))
    ⟨fun ⟨hname, hsuper, hinterfaces, hfields, hmethods⟩ =>
      ⟨hname, hsuper, hinterfaces, hfields, hmethods⟩,
      fun h => ⟨h.name, h.superName, h.interfaces, h.fields, h.methods⟩⟩

theorem legible_bytes : Legible Measured bytes := by
  intro s s' rest rest' hs hs' heq
  simp only [bytes, List.append_assoc] at heq
  obtain ⟨hname, heq⟩ := legible_textBytes hs.name hs'.name heq
  obtain ⟨hsuper, heq⟩ := legible_textBytes hs.superName hs'.superName heq
  obtain ⟨hinterfaces, heq⟩ := legible_textBytes.counted hs.interfaces hs'.interfaces heq
  obtain ⟨hflags, heq⟩ := legible_flagBytes trivial trivial heq
  obtain ⟨hfields, heq⟩ := Member.legible_bytes.counted hs.fields hs'.fields heq
  obtain ⟨hmethods, hrest⟩ := Member.legible_bytes.counted hs.methods hs'.methods heq
  cases s
  cases s'
  simp_all

end ClassShape

namespace ClassInfo

theorem shapeBytes_eq (c : ClassInfo) : c.shapeBytes = c.shape.bytes := by
  simp only [shapeBytes, ClassShape.bytes, shape, countedBytes, List.append_assoc, List.flatMap_map,
    List.length_map, Array.length_toList]
  rfl

/-- The byte string stands for one shape only. -/
theorem shape_of_bytes {c c' : ClassInfo} (hc : c.shape.Measured) (hc' : c'.shape.Measured)
    (h : c'.shapeBytes = c.shapeBytes) : c'.shape = c.shape := by
  rw [shapeBytes_eq, shapeBytes_eq] at h
  have heq : c'.shape.bytes ++ [] = c.shape.bytes ++ [] := by rw [h]
  exact (ClassShape.legible_bytes hc' hc heq).1

/-- The class with other constants and other method bodies. -/
def recoded (c : ClassInfo) (pool : ConstantPool) (body : Method → MethodBody) : ClassInfo :=
  { c with pool := pool, methods := c.methods.map fun m => { m with body := body m } }

theorem shape_recoded (c : ClassInfo) (pool : ConstantPool) (body : Method → MethodBody) :
    (c.recoded pool body).shape = c.shape := by
  simp [recoded, shape, Function.comp_def]

/-- Two classes whose texts and lists fit their counts have the same bytes exactly when they agree on
name, superclass, interfaces, flags and the declared members in their order. Constants and bodies are no
part of the bytes of any class. -/
theorem shapeBytes_eq_iff (c c' : ClassInfo) :
    (c.shape.Measured → c'.shape.Measured → (c'.shapeBytes = c.shapeBytes ↔ c'.shape = c.shape)) ∧
      ∀ (pool : ConstantPool) (body : Method → MethodBody), (c.recoded pool body).shapeBytes = c.shapeBytes := by
  refine ⟨fun hc hc' => ⟨shape_of_bytes hc hc', fun h => ?_⟩, fun pool body => ?_⟩
  · rw [shapeBytes_eq, shapeBytes_eq, h]
  · rw [shapeBytes_eq, shapeBytes_eq, shape_recoded]

/-- A class under a name, extending another one, with one method. -/
def derived (name : String) (superName : Option String) : ClassInfo :=
  { id := 0, name, superName
    methods := #[{ (default : Method) with name := "run", descriptor := "()V" }] }

/-- The letters of two names alone do not tell where the one ends; a missing superclass and one without a
name are told alike. -/
theorem shapeBytes_eq_iff_derived :
    ((derived "ab" (some "c")).shape.Measured ∧ (derived "a" (some "bc")).shape.Measured ∧
      (derived "a" (some "bc")).shapeBytes ≠ (derived "ab" (some "c")).shapeBytes) ∧
      (derived "a" none).shape.Measured ∧ (derived "a" (some "")).shape.Measured ∧
        (derived "a" (some "")).shapeBytes = (derived "a" none).shapeBytes := by
  have hsplit : (derived "ab" (some "c")).shape.Measured := by decide
  have hsplit' : (derived "a" (some "bc")).shape.Measured := by decide
  have hnone : (derived "a" none).shape.Measured := by decide
  have hempty : (derived "a" (some "")).shape.Measured := by decide
  refine ⟨⟨hsplit, hsplit', fun h => ?_⟩, hnone, hempty, ?_⟩
  · exact absurd (((shapeBytes_eq_iff _ _).1 hsplit hsplit').1 h) (by decide)
  · exact ((shapeBytes_eq_iff _ _).1 hnone hempty).2 (by decide)

end ClassInfo

/-- What a kind becomes on the operand stack. -/
def Kind.onStack : Kind → Kind
  | .boolean | .byte | .char | .short => .int
  | kind => kind

def Value.kind : Value → Kind
  | .int _ => .int
  | .long _ => .long
  | .float _ => .float
  | .double _ => .double
  | .ref _ => .reference

/-- One value for each slot, of the type the slot has on the stack. -/
def Layout.Holds (layout : Layout) (values : List Value) : Prop :=
  values.map Value.kind = layout.kinds.map Kind.onStack

instance (layout : Layout) (values : List Value) : Decidable (layout.Holds values) :=
  inferInstanceAs (Decidable (_ = _))

/-- Kind of a declared member, by its descriptor. -/
def Member.kind (m : Member) : Kind :=
  match FieldType.parse m.2.1 with
  | .ok type => type.kind
  | .error _ => .int

theorem Linker.extendLayout_shape (inherited : List Kind) (c : ClassInfo) :
    extendLayout inherited c =
      ⟨inherited ++ (c.shape.fields.filter (!·.2.2.isStatic)).map Member.kind⟩ := by
  have hkind : ∀ f : Field, Member.kind (f.name, f.descriptor, f.flags) = f.kind := by
    intro f
    simp only [Member.kind, f.typed]
    rfl
  simp only [extendLayout, ClassInfo.shape, List.filter_map, List.map_map, Function.comp_def, hkind]
  rfl

/-- A class adds the same to what it inherits wherever it has the same shape. -/
theorem Linker.extendLayout_congr {c c' : ClassInfo} (h : c'.shape = c.shape) (inherited : List Kind) :
    extendLayout inherited c' = extendLayout inherited c := by
  rw [extendLayout_shape, extendLayout_shape, h]

namespace ClassTable

/-- The layout of a class as the names of its superclasses give it. -/
inductive LaysOut (t : ClassTable) : ClassId → Layout → Prop
  | root {id : ClassId} {c : ClassInfo} (hc : t.get? id = some c) (hsuper : c.superName = none) :
      LaysOut t id (Linker.extendLayout [] c)
  | sub {id parent : ClassId} {c : ClassInfo} {name : String} {layout : Layout}
      (hc : t.get? id = some c) (hsuper : c.superName = some name) (hparent : t.lookup? name = some parent)
      (h : LaysOut t parent layout) : LaysOut t id (Linker.extendLayout layout.kinds c)

/-- A class and the superclasses that are found by name. -/
inductive Ancestor (t : ClassTable) : ClassId → ClassId → Prop
  | self (id : ClassId) : Ancestor t id id
  | super {id parent ancestor : ClassId} {c : ClassInfo} {name : String} (hc : t.get? id = some c)
      (hsuper : c.superName = some name) (hparent : t.lookup? name = some parent)
      (h : Ancestor t parent ancestor) : Ancestor t id ancestor

variable {t t' : ClassTable} {id id' : ClassId} {layout layout' : Layout}

theorem LaysOut.unique (h : t.LaysOut id layout) (h' : t.LaysOut id layout') : layout' = layout := by
  induction h generalizing layout' with
  | root hc hsuper =>
    cases h' with
    | root hc' _ =>
      cases hc.symm.trans hc'
      rfl
    | sub hc' hsuper' _ _ =>
      cases hc.symm.trans hc'
      cases hsuper.symm.trans hsuper'
  | sub hc hsuper hparent _ ih =>
    cases h' with
    | root hc' hsuper' =>
      cases hc.symm.trans hc'
      cases hsuper.symm.trans hsuper'
    | sub hc' hsuper' hparent' hrest =>
      cases hc.symm.trans hc'
      cases hsuper.symm.trans hsuper'
      cases hparent.symm.trans hparent'
      rw [ih hrest]

/-- A class of another table under the same name and with the same shape. -/
def Reshapes (t t' : ClassTable) (id id' : ClassId) : Prop :=
  ∃ c c', t.get? id = some c ∧ t'.get? id' = some c' ∧ t'.lookup? c.name = some id' ∧ c'.shape = c.shape ∧
    c'.superName = c.superName

/-- A class has the same layout where it and all its superclasses have the same shape. -/
theorem LaysOut.reshape (hnamed : ∀ name id, t.lookup? name = some id → ∃ c, t.get? id = some c ∧ c.name = name)
    (h : t.LaysOut id layout) (hshape : ∀ ancestor, t.Ancestor id ancestor → ∃ id', t.Reshapes t' ancestor id')
    (hid : t.Reshapes t' id id') : t'.LaysOut id' layout := by
  induction h generalizing id' with
  | root hc hsuper =>
    obtain ⟨d, d', hd, hd', _, hshape', hsuper'⟩ := hid
    cases hc.symm.trans hd
    rw [← Linker.extendLayout_congr hshape']
    exact .root hd' (hsuper'.trans hsuper)
  | @sub id parent c name layout hc hsuper hparent h ih =>
    obtain ⟨d, d', hd, hd', _, hshape', hsuper'⟩ := hid
    cases hc.symm.trans hd
    obtain ⟨parent', hreshapes⟩ := hshape parent (.super hc hsuper hparent (.self parent))
    have hrest := ih (fun a ha => hshape a (.super hc hsuper hparent ha)) hreshapes
    obtain ⟨e, e', he, he', hlookup, _, _⟩ := hreshapes
    obtain ⟨e₀, he₀, hname⟩ := hnamed name parent hparent
    cases he.symm.trans he₀
    rw [← Linker.extendLayout_congr hshape']
    exact .sub hd' (hsuper'.trans hsuper) (hname ▸ hlookup) hrest

/-- Layouts are those the names of the superclasses give: no superclass was looked for before it was
loaded. So it is, whatever was asked of a table, where superclasses are loaded first (`Orderly.laidByName`). -/
def LaidByName (t : ClassTable) : Prop :=
  ∀ id c layout, t.get? id = some c → c.layout = some layout → t.LaysOut id layout

/-- The layout of a class extends that of the superclass it names, which was loaded before it. -/
def extendsNamed (t : ClassTable) (c : ClassInfo) (layout : Layout) : Bool :=
  match c.superName with
  | none => layout = Linker.extendLayout [] c
  | some name =>
    match t.lookup? name with
    | none => false
    | some parent =>
      match (t.get? parent).bind ClassInfo.layout with
      | none => false
      | some inherited => parent < c.id && layout = Linker.extendLayout inherited.kinds c

/-- Layouts that are right one by one are right. -/
theorem laidByName_of_extendsNamed (ht : t.Regular)
    (h : ∀ c ∈ t.classes.toList, c.layout.all (t.extendsNamed c) = true) : t.LaidByName := by
  intro id
  induction id using Nat.strongRecOn with
  | ind id ih =>
    intro c layout hc hlayout
    have hstep := h c (mem_toList.2 ⟨id, hc⟩)
    rw [hlayout, Option.all_some] at hstep
    unfold extendsNamed at hstep
    split at hstep
    · next hsuper =>
      rw [of_decide_eq_true hstep]
      exact .root hc hsuper
    · next name hsuper =>
      split at hstep
      · cases hstep
      · next parent hparent =>
        split at hstep
        · cases hstep
        · next inherited hinherited =>
          simp only [Bool.and_eq_true, decide_eq_true_eq] at hstep
          obtain ⟨p, hp, hlaid⟩ := Option.bind_eq_some_iff.1 hinherited
          have hlt : parent < id := (ht.listed id c hc).1.numbered ▸ hstep.1
          rw [hstep.2]
          exact .sub hc hsuper hparent (ih parent hlt p inherited hp hlaid)

/-- Every class was loaded after the superclass it names. -/
def ParentsFirst (t : ClassTable) : Prop :=
  ∀ id c name, t.get? id = some c → c.superName = some name → ∃ parent < id, t.lookup? name = some parent

/-- Where superclasses were loaded first, the links that classes were laid out along are those the names give. -/
theorem Orderly.laidByName (ht : t.Orderly) (htimely : t.Timely) (hfirst : t.ParentsFirst) : t.LaidByName := by
  have hchain : ∀ id c, t.get? id = some c → c.layout.isSome →
      ∃ ids kinds, t.Line id ids kinds ∧ t.LaysOut id (Linker.extendLayout kinds c) := by
    intro id
    induction id using Nat.strongRecOn with
    | ind id ih =>
      intro c hc hlaid
      obtain ⟨c', link, hc', hlink, hparent⟩ := ht.upward id ⟨c, hc, hlaid⟩
      cases hc.symm.trans hc'
      have hgiven := htimely id c link hc hlink
      cases hsuper : c.superName with
      | none =>
        rw [hsuper] at hgiven
        have hnone : link = none := hgiven.elim (fun h => h) And.left
        subst hnone
        exact ⟨[], [], .last hc hlink, .root hc hsuper⟩
      | some name =>
        obtain ⟨parent, hlt, hlookup⟩ := hfirst id c name hc hsuper
        rw [hsuper, Option.bind_some, hlookup] at hgiven
        have hlinked : link = some parent := by
          rcases hgiven with heq | ⟨-, later, hlater, hle⟩
          · exact heq
          · cases hlater
            exact absurd hlt (Nat.not_lt.2 hle)
        subst hlinked
        obtain ⟨p, hp, hlaid'⟩ := hparent parent rfl
        obtain ⟨ids, kinds, hline, hlays⟩ := ih parent hlt p hp hlaid'
        exact ⟨_, _, .next hc hlink hp hline, .sub hc hsuper hlookup hlays⟩
  intro id c layout hc hlayout
  have hlaid : c.layout.isSome := by
    rw [hlayout]
    rfl
  obtain ⟨ids, kinds, hline, hlays⟩ := hchain id c hc hlaid
  rwa [Option.some.inj (hlayout.symm.trans (ht.inLine id c ids kinds hc hlaid hline).1)]

/-- Superclasses stay within classes that are closed under naming a superclass. -/
theorem Ancestor.mem {ids : List ClassId} {ancestor : ClassId} (h : t.Ancestor id ancestor)
    (hclosed : ∀ id ∈ ids, ∀ parent ∈ ((t.get? id).bind ClassInfo.superName).bind t.lookup?, parent ∈ ids)
    (hid : id ∈ ids) : ancestor ∈ ids := by
  induction h with
  | self => exact hid
  | super hc hsuper hparent _ ih => exact ih (hclosed _ hid _ (by simp [hc, hsuper, hparent]))

end ClassTable

end ClassMachine
