import ClassMachine.Class.Descriptor
import ClassMachine.Proofs.Stateful

/-!
The language of descriptors. Reading a descriptor accepts exactly what the grammar spells and gives back the
one type that is written so: a class name ends at the first semicolon whatever else it holds, so no
descriptor goes on into another, and the parameters of a method can be split in one way only.
-/
namespace ClassMachine
open Stateful

namespace FieldType

/-- Types with a descriptor of their own: primitive ones, classes whose names are not empty and end at the
semicolon, and arrays of them. -/
def Spellable : FieldType → Prop
  | primitive kind => kind ≠ .reference
  | object name => name ≠ "" ∧ ';' ∉ name.toList
  | array component => component.Spellable

theorem descriptorChar_of {c : Char} {kind : Kind} (h : Kind.ofDescriptorChar? c = some kind)
    (hkind : kind.isReference = false) : kind.descriptorChar = c := by
  unfold Kind.ofDescriptorChar? at h
  split at h <;> cases h <;> first | rfl | cases hkind

/-- What stands before the first semicolon, and behind it. -/
theorem split_semicolon {cs after : List Char} {semicolon : Char}
    (h : cs.dropWhile (· != ';') = semicolon :: after) :
    cs = cs.takeWhile (· != ';') ++ ';' :: after ∧ ';' ∉ cs.takeWhile (· != ';') := by
  have hsemicolon : semicolon = ';' := by
    have hhead := List.head?_dropWhile_not (· != ';') cs
    rw [h] at hhead
    simpa using hhead
  have hsplit := List.takeWhile_append_dropWhile (p := (· != ';')) (l := cs)
  rw [h, hsemicolon] at hsplit
  exact ⟨hsplit.symm, fun hmem => by
    simpa using List.all_eq_true.1 (List.all_takeWhile (p := (· != ';')) (l := cs)) _ hmem⟩

/-- How a type is read, by its outermost form. -/
def ReadAs (total : Nat) (cs rest : List Char) : FieldType → Prop
  | primitive kind => kind ≠ .reference ∧ cs = kind.descriptorChar :: rest
  | object name => (name ≠ "" ∧ ';' ∉ name.toList) ∧ cs = 'L' :: (name.toList ++ ';' :: rest)
  | array component => ∃ tail, cs = '[' :: tail ∧ read total tail = .ok (component, rest)

theorem readAs_of_read {total : Nat} {cs rest : List Char} {t : FieldType}
    (h : read total cs = .ok (t, rest)) : ReadAs total cs rest t := by
  unfold read at h
  split at h
  · cases h
  · next tail =>
    split at h
    · cases h
    · next semicolon after hdrop =>
      obtain ⟨hsplit, hfree⟩ := split_semicolon hdrop
      split at h
      · cases h
      · next hhead =>
        cases h
        refine ⟨⟨fun hempty => hhead ?_, by rwa [String.toList_ofList]⟩, ?_⟩
        · have htaken : tail.takeWhile (· != ';') = [] := by simpa using congrArg String.toList hempty
          rw [hsplit, htaken]
          rfl
        · rw [String.toList_ofList, ← hsplit]
  · next tail =>
    split at h
    · next component after hread =>
      cases h
      exact ⟨tail, rfl, hread⟩
    · cases h
  · split at h
    · next kind hkind =>
      split at h
      · cases h
      · next hreference =>
        cases h
        rw [← descriptorChar_of hkind (by simpa using hreference)]
        exact ⟨by simpa [Kind.isReference] using hreference, rfl⟩
    · cases h

/-- What was read stands at the front of the text, as it is written. -/
theorem render_of_read {total : Nat} {cs rest : List Char} {t : FieldType}
    (h : read total cs = .ok (t, rest)) : cs = t.render ++ rest := by
  induction t generalizing cs with
  | primitive kind =>
    obtain ⟨-, rfl⟩ := readAs_of_read h
    rfl
  | object name =>
    obtain ⟨-, rfl⟩ := readAs_of_read h
    simp [render]
  | array component ih =>
    obtain ⟨tail, rfl, htail⟩ := readAs_of_read h
    rw [ih htail]
    rfl

theorem text_of_parse {descriptor : String} {t : FieldType} (h : parse descriptor = .ok t) :
    t.text = descriptor := by
  unfold parse at h
  dsimp only at h
  split at h
  · next hread =>
    cases h
    rw [text, ← String.ofList_toList (s := descriptor), render_of_read hread, List.append_nil]
  · cases h
  · cases h

theorem length_text (t : FieldType) : t.text.length = t.render.length := String.length_ofList ..

theorem spellable_of_read {total : Nat} {cs rest : List Char} {t : FieldType}
    (h : read total cs = .ok (t, rest)) : t.Spellable := by
  induction t generalizing cs with
  | primitive kind => exact (readAs_of_read h).1
  | object name => exact (readAs_of_read h).1
  | array component ih =>
    obtain ⟨tail, -, htail⟩ := readAs_of_read h
    exact ih htail

/-- A type is read off its own text, whatever stands behind it. -/
theorem read_render {t : FieldType} (ht : t.Spellable) (total : Nat) (rest : List Char) :
    read total (t.render ++ rest) = .ok (t, rest) := by
  induction t with
  | primitive kind => cases kind <;> first | rfl | exact absurd rfl ht
  | object name =>
    obtain ⟨hne, hfree⟩ := ht
    have hchars : ∀ c ∈ name.toList, (c != ';') = true := fun c hc =>
      bne_iff_ne.2 fun heq => hfree (heq ▸ hc)
    have hdrop : (name.toList ++ ';' :: rest).dropWhile (· != ';') = ';' :: rest := by
      rw [List.dropWhile_append_of_pos hchars]
      rfl
    have htake : (name.toList ++ ';' :: rest).takeWhile (· != ';') = name.toList := by
      rw [List.takeWhile_append_of_pos hchars]
      simp
    have hhead : (name.toList ++ ';' :: rest).head? ≠ some ';' := by
      cases hname : name.toList with
      | nil => exact absurd (by simpa using hname) hne
      | cons c cs =>
        rw [hname] at hfree
        simpa using fun heq : c = ';' => hfree (by simp [heq])
    rw [render, List.cons_append, List.append_assoc, List.singleton_append, read, hdrop]
    dsimp only
    rw [if_neg hhead, htake, String.ofList_toList]
  | array component ih =>
    rw [render, List.cons_append, read, ih ht]

theorem parse_text {t : FieldType} (ht : t.Spellable) : parse t.text = .ok t := by
  have hread := read_render ht t.render.length []
  rw [List.append_nil] at hread
  unfold parse
  rw [text, String.toList_ofList]
  dsimp only
  rw [hread]

theorem spellable_of_parse {descriptor : String} {t : FieldType} (h : parse descriptor = .ok t) :
    t.Spellable := by
  unfold parse at h
  dsimp only at h
  split at h
  · next hread =>
    cases h
    exact spellable_of_read hread
  · cases h
  · cases h

/-- No type begins with what ends the parameters or stands for no result. -/
theorem head?_render (t : FieldType) (rest : List Char) :
    (t.render ++ rest).head? ≠ some ')' ∧ (t.render ++ rest).head? ≠ some 'V' := by
  cases t with
  | primitive kind => cases kind <;> simp [render, Kind.descriptorChar]
  | object name => simp [render]
  | array component => simp [render]

end FieldType

/-- Letters of the primitive types. -/
def primitiveLetters : List Char := ['Z', 'B', 'C', 'S', 'I', 'J', 'F', 'D']

/-- What stands behind the brackets of a field descriptor. -/
inductive DescriptorStem : List Char → Prop
  | letter {c : Char} (h : c ∈ primitiveLetters) : DescriptorStem [c]
  | named {name : List Char} (hne : name ≠ []) (hfree : ';' ∉ name) : DescriptorStem ('L' :: (name ++ [';']))

/-- A field descriptor, as the grammar has it. -/
def IsFieldDescriptor (cs : List Char) : Prop :=
  ∃ brackets stem, DescriptorStem stem ∧ cs = List.replicate brackets '[' ++ stem

/-- A method descriptor, split into its parameters and what it returns. -/
structure SplitsInto (cs : List Char) (params : List (List Char)) (returns : List Char) : Prop where
  text : cs = '(' :: (params.flatten ++ ')' :: returns)
  params : ∀ p ∈ params, IsFieldDescriptor p
  returns : returns = ['V'] ∨ IsFieldDescriptor returns

theorem isFieldDescriptor_iff {cs : List Char} : IsFieldDescriptor cs ↔ ∃ t : FieldType, t.Spellable ∧ t.render = cs := by
  constructor
  · rintro ⟨brackets, stem, hstem, rfl⟩
    induction brackets with
    | zero =>
      cases hstem with
      | letter h =>
        have hkind : ∀ c ∈ primitiveLetters, ∃ kind : Kind, kind ≠ .reference ∧ kind.descriptorChar = c := by
          simp only [primitiveLetters, List.forall_mem_cons]
          exact ⟨⟨.boolean, by decide⟩, ⟨.byte, by decide⟩, ⟨.char, by decide⟩, ⟨.short, by decide⟩,
            ⟨.int, by decide⟩, ⟨.long, by decide⟩, ⟨.float, by decide⟩, ⟨.double, by decide⟩, by simp⟩
        obtain ⟨kind, hkind, rfl⟩ := hkind _ h
        exact ⟨.primitive kind, hkind, rfl⟩
      | @named name hne hfree =>
        refine ⟨.object (String.ofList name), ⟨fun hempty => hne ?_, ?_⟩, ?_⟩
        · simpa using congrArg String.toList hempty
        · rwa [String.toList_ofList]
        · simp [FieldType.render]
    | succ brackets ih =>
      obtain ⟨t, ht, hrender⟩ := ih
      exact ⟨.array t, ht, congrArg ('[' :: ·) hrender⟩
  · rintro ⟨t, ht, rfl⟩
    induction t with
    | primitive kind =>
      refine ⟨0, _, .letter (c := kind.descriptorChar) ?_, rfl⟩
      cases kind <;> first | decide | exact absurd rfl ht
    | object name =>
      refine ⟨0, 'L' :: (name.toList ++ [';']), .named (fun hempty => ht.1 ?_) ht.2, rfl⟩
      simpa using hempty
    | array component ih =>
      obtain ⟨brackets, stem, hstem, hrender⟩ := ih ht
      exact ⟨brackets + 1, stem, hstem, congrArg ('[' :: ·) hrender⟩

namespace MethodDescriptor

/-- Descriptors whose parameters and result have descriptors of their own. -/
structure Spellable (d : MethodDescriptor) : Prop where
  params : ∀ t ∈ d.params, t.Spellable
  returns : ∀ t, d.returns = some t → t.Spellable

/-- The result as it is written. -/
def returnText (d : MethodDescriptor) : List Char :=
  match d.returns with
  | some t => t.render
  | none => ['V']

theorem render_eq (d : MethodDescriptor) :
    d.render = '(' :: ((d.params.map FieldType.render).flatten ++ ')' :: d.returnText) := by
  rw [render, List.flatMap_def]
  rfl

theorem readParams_render {ts : List FieldType} (hts : ∀ t ∈ ts, t.Spellable) (total : Nat) (rest : List Char) :
    readParams total ((ts.map FieldType.render).flatten ++ ')' :: rest) = .ok (ts, rest) := by
  induction ts with
  | nil =>
    rw [readParams]
    rfl
  | cons t ts ih =>
    have hread := FieldType.read_render (hts t (by simp)) total
      ((ts.map FieldType.render).flatten ++ ')' :: rest)
    rw [List.map_cons, List.flatten_cons, List.append_assoc, readParams, if_neg (t.head?_render _).1]
    split
    · next fault hfault =>
      cases hread.symm.trans hfault
    · next t' rest' hread' =>
      cases hread.symm.trans hread'
      rw [ih fun t ht => hts t (by simp [ht])]

/-- Parameters are read up to the parenthesis that closes them. -/
theorem render_of_readParams {total : Nat} {cs rest : List Char} {ts : List FieldType}
    (h : readParams total cs = .ok (ts, rest)) :
    cs = (ts.map FieldType.render).flatten ++ ')' :: rest ∧ ∀ t ∈ ts, t.Spellable := by
  fun_induction readParams total cs generalizing ts rest with
  | case1 cs hhead =>
    cases h
    cases cs with
    | nil => cases hhead
    | cons c cs =>
      cases hhead
      simp
  | case2 => cases h
  | case3 cs hhead t rest' hread ts' rest'' hrest ih =>
    cases h
    obtain ⟨htext, hspellable⟩ := ih hrest
    refine ⟨?_, List.forall_mem_cons.2 ⟨FieldType.spellable_of_read hread, hspellable⟩⟩
    rw [FieldType.render_of_read hread, htext, List.map_cons, List.flatten_cons, List.append_assoc]
  | case4 => cases h

theorem readReturn_render {d : MethodDescriptor} (hd : d.Spellable) (total : Nat) :
    readReturn total d.returnText = .ok (d.returns, []) := by
  unfold readReturn returnText
  cases hreturns : d.returns with
  | none => rfl
  | some t =>
    have hread := FieldType.read_render (hd.returns t hreturns) total []
    have hhead := (t.head?_render []).2
    rw [List.append_nil] at hread hhead
    dsimp only
    rw [if_neg hhead, hread]

theorem render_of_readReturn {total : Nat} {cs : List Char} {returns : Option FieldType}
    (params : List FieldType) (h : readReturn total cs = .ok (returns, [])) :
    cs = returnText ⟨params, returns⟩ ∧ ∀ t, returns = some t → t.Spellable := by
  unfold readReturn at h
  split at h
  · next hhead =>
    cases cs with
    | nil => cases hhead
    | cons c cs =>
      cases hhead
      cases h
      exact ⟨rfl, fun t ht => by cases ht⟩
  · split at h
    · next t rest hread =>
      cases h
      refine ⟨by simpa [returnText] using FieldType.render_of_read hread, fun t' ht' => ?_⟩
      cases ht'
      exact FieldType.spellable_of_read hread
    · cases h

theorem parse_text {d : MethodDescriptor} (hd : d.Spellable) : parse d.text = .ok d := by
  have hparams := readParams_render hd.params
  have hreturns := readReturn_render hd
  unfold parse
  rw [text, String.toList_ofList, render_eq]
  unfold read
  dsimp only
  rw [if_neg (by simp), hparams]
  dsimp only [bind, Except.bind]
  rw [hreturns]
  rfl

/-- What was read is what is written there. -/
theorem render_of_read {total : Nat} {cs : List Char} {d : MethodDescriptor} (h : read total cs = .ok d) :
    d.render = cs ∧ d.Spellable := by
  unfold read at h
  split at h
  · cases h
  · next c rest =>
    split at h
    · cases h
    · next hopen =>
      obtain ⟨⟨params, rest'⟩, hparams, h⟩ := except_bind_ok.1 h
      obtain ⟨⟨returns, rest''⟩, hreturns, h⟩ := except_bind_ok.1 h
      dsimp only at hreturns h
      split at h
      · next hend =>
        obtain rfl : rest'' = [] := List.isEmpty_iff.1 hend
        cases h
        obtain ⟨htext, hspellable⟩ := render_of_readParams hparams
        obtain ⟨hreturned, hresult⟩ := render_of_readReturn params hreturns
        refine ⟨?_, hspellable, hresult⟩
        rw [render_eq, ← hreturned, ← htext, ← Classical.not_not.1 hopen]
      · cases h

theorem text_of_parse {descriptor : String} {d : MethodDescriptor} (h : parse descriptor = .ok d) :
    d.text = descriptor ∧ d.Spellable := by
  unfold parse at h
  dsimp only at h
  cases hread : read descriptor.toList.length descriptor.toList with
  | error fault =>
    rw [hread] at h
    cases h
  | ok d' =>
    rw [hread] at h
    cases h
    obtain ⟨hrender, hspellable⟩ := render_of_read hread
    exact ⟨by rw [text, hrender, String.ofList_toList], hspellable⟩

/-- The split that reading a descriptor comes to. -/
theorem splitsInto_render {d : MethodDescriptor} (hd : d.Spellable) :
    SplitsInto d.render (d.params.map FieldType.render) d.returnText := by
  refine ⟨d.render_eq, fun p hp => ?_, ?_⟩
  · obtain ⟨t, ht, rfl⟩ := List.mem_map.1 hp
    exact isFieldDescriptor_iff.2 ⟨t, hd.params t ht, rfl⟩
  · unfold returnText
    cases hreturns : d.returns with
    | none => exact .inl rfl
    | some t => exact .inr (isFieldDescriptor_iff.2 ⟨t, hd.returns t hreturns, rfl⟩)

/-- Every split is that of a descriptor which can be read. -/
theorem exists_of_splitsInto {cs : List Char} {params : List (List Char)} {returns : List Char}
    (h : SplitsInto cs params returns) : ∃ d : MethodDescriptor, d.Spellable ∧ d.render = cs ∧
      d.params.map FieldType.render = params ∧ d.returnText = returns := by
  obtain ⟨ts, hts, rfl⟩ : ∃ ts : List FieldType, (∀ t ∈ ts, t.Spellable) ∧ ts.map FieldType.render = params := by
    have hparams := h.params
    clear h
    induction params with
    | nil => exact ⟨[], by simp, rfl⟩
    | cons p params ih =>
      obtain ⟨t, ht, rfl⟩ := isFieldDescriptor_iff.1 (hparams p (by simp))
      obtain ⟨ts, hts, rfl⟩ := ih fun p hp => hparams p (by simp [hp])
      exact ⟨t :: ts, List.forall_mem_cons.2 ⟨ht, hts⟩, rfl⟩
  obtain ⟨result, hresult, rfl⟩ : ∃ result : Option FieldType, (∀ t, result = some t → t.Spellable) ∧
      returnText ⟨ts, result⟩ = returns := by
    rcases h.returns with rfl | hreturns
    · exact ⟨none, nofun, rfl⟩
    · obtain ⟨t, ht, rfl⟩ := isFieldDescriptor_iff.1 hreturns
      exact ⟨some t, fun _ heq => Option.some.inj heq ▸ ht, rfl⟩
  exact ⟨⟨ts, result⟩, ⟨hts, hresult⟩, by rw [render_eq, h.text], rfl, rfl⟩

end MethodDescriptor

theorem FieldType.exists_parse_iff (s : String) : (∃ t, parse s = .ok t) ↔ IsFieldDescriptor s.toList := by
  constructor
  · rintro ⟨t, ht⟩
    refine isFieldDescriptor_iff.2 ⟨t, spellable_of_parse ht, ?_⟩
    rw [← text_of_parse ht, text, String.toList_ofList]
  · intro h
    obtain ⟨t, ht, hrender⟩ := isFieldDescriptor_iff.1 h
    refine ⟨t, ?_⟩
    rw [← parse_text ht, text, hrender, String.ofList_toList]

theorem MethodDescriptor.splitsInto_of_parse {s : String} {d : MethodDescriptor} (h : parse s = .ok d) :
    SplitsInto s.toList (d.params.map FieldType.render) d.returnText := by
  obtain ⟨htext, hd⟩ := text_of_parse h
  rw [← htext, text, String.toList_ofList]
  exact splitsInto_render hd

theorem MethodDescriptor.exists_parse_iff (s : String) :
    (∃ d, parse s = .ok d) ↔ ∃ params returns, SplitsInto s.toList params returns := by
  constructor
  · rintro ⟨d, hd⟩
    exact ⟨_, _, splitsInto_of_parse hd⟩
  · rintro ⟨params, returns, h⟩
    obtain ⟨d, hd, hrender, -, -⟩ := exists_of_splitsInto h
    refine ⟨d, ?_⟩
    rw [← parse_text hd, text, hrender, String.ofList_toList]

/-- Two splits of a text come from the one descriptor that is read off it. -/
theorem SplitsInto.unique {cs : List Char} {params params' : List (List Char)} {returns returns' : List Char}
    (h : SplitsInto cs params returns) (h' : SplitsInto cs params' returns') :
    params = params' ∧ returns = returns' := by
  obtain ⟨d, hd, hrender, rfl, rfl⟩ := MethodDescriptor.exists_of_splitsInto h
  obtain ⟨d', hd', hrender', rfl, rfl⟩ := MethodDescriptor.exists_of_splitsInto h'
  have htext : d.text = d'.text := congrArg String.ofList (hrender.trans hrender'.symm)
  have hparse := MethodDescriptor.parse_text hd
  rw [htext, MethodDescriptor.parse_text hd'] at hparse
  cases hparse
  exact ⟨rfl, rfl⟩

/-- Reading ends in a type or an error. -/
theorem exists_error_iff {ε α : Type} (x : Except ε α) : (∃ e, x = .error e) ↔ ¬ ∃ a, x = .ok a := by
  cases x <;> simp

/-- A text is read as a field descriptor exactly if the grammar spells it, and as a method descriptor exactly
if it can be split into descriptors of parameters and a result; any other text is refused. What is read is
written as the text was, every type that has a descriptor is read off it, and there is one split only. -/
theorem descriptors_readBack :
    (∀ s, (∃ t, FieldType.parse s = .ok t) ↔ IsFieldDescriptor s.toList) ∧
    (∀ s t, FieldType.parse s = .ok t → t.text = s) ∧
    (∀ t : FieldType, t.Spellable → FieldType.parse t.text = .ok t) ∧
    (∀ s, (∃ e, FieldType.parse s = .error e) ↔ ¬ IsFieldDescriptor s.toList) ∧
    (∀ s, (∃ d, MethodDescriptor.parse s = .ok d) ↔ ∃ params returns, SplitsInto s.toList params returns) ∧
    (∀ s d, MethodDescriptor.parse s = .ok d →
      d.text = s ∧ SplitsInto s.toList (d.params.map FieldType.render) d.returnText) ∧
    (∀ cs params returns params' returns', SplitsInto cs params returns → SplitsInto cs params' returns' →
      params = params' ∧ returns = returns') ∧
    ∀ s, (∃ e, MethodDescriptor.parse s = .error e) ↔ ¬ ∃ params returns, SplitsInto s.toList params returns := by
  refine ⟨FieldType.exists_parse_iff, fun s t => FieldType.text_of_parse, fun t => FieldType.parse_text,
    fun s => ?_, MethodDescriptor.exists_parse_iff, fun s d h => ?_, fun _ _ _ _ _ => SplitsInto.unique,
    fun s => ?_⟩
  · rw [exists_error_iff, FieldType.exists_parse_iff]
  · exact ⟨(MethodDescriptor.text_of_parse h).1, MethodDescriptor.splitsInto_of_parse h⟩
  · rw [exists_error_iff, MethodDescriptor.exists_parse_iff]

/-- A class name with brackets and parentheses of its own. -/
theorem descriptors_readBack_bracketed :
    SplitsInto "([L(a)[;J)V".toList ["[L(a)[;".toList, "J".toList] "V".toList ∧
    (∃ d, MethodDescriptor.parse "([L(a)[;J)V" = .ok d ∧ d.text = "([L(a)[;J)V") ∧
    FieldType.parse (FieldType.array (.object "(a)[")).text = .ok (.array (.object "(a)[")) := by
  obtain ⟨-, -, hfield, -, hmethod, hread, -, -⟩ := descriptors_readBack
  have hsplits : SplitsInto "([L(a)[;J)V".toList ["[L(a)[;".toList, "J".toList] "V".toList := by
    refine ⟨by decide, fun p hp => ?_, .inl (by decide)⟩
    rcases List.mem_cons.1 hp with rfl | hp
    · exact ⟨1, 'L' :: (['(', 'a', ')', '['] ++ [';']), .named (by decide) (by decide), by decide⟩
    · obtain rfl := List.mem_singleton.1 hp
      exact ⟨0, _, .letter (c := 'J') (by decide), by decide⟩
  obtain ⟨d, hd⟩ := (hmethod _).2 ⟨_, _, hsplits⟩
  exact ⟨hsplits, ⟨d, hd, (hread _ d hd).1⟩, hfield _ ⟨by decide, by decide⟩⟩

end ClassMachine
