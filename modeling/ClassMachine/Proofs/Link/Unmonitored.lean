import ClassMachine.Class.Core
import ClassMachine.Proofs.Link.Forms
import ClassMachine.Proofs.Link.Loading
import ClassMachine.Proofs.Link.Operations

/-!
Programs without instructions for monitors. Whether a body has any is read off its bytes; linking
turns a body that has none into one that has none, so a class table keeps to such bodies whatever is
asked of it, and the core classes do no harm to it.
-/
namespace ClassMachine
open Stateful

/-- No instruction enters or leaves a monitor. Bytes that do not split into instructions hold none. -/
def RawCode.isUnmonitored (raw : RawCode) : Bool :=
  match Decoding.starts raw.code with
  | .ok pcs => pcs.all fun pc => raw.code[pc]? != some 0xc2 && raw.code[pc]? != some 0xc3
  | .error _ => true

def LinkedCode.isUnmonitored (code : LinkedCode) : Bool := code.instructions.all (!·.isMonitor)

/-- The bodies a class brings have no instructions for monitors. -/
def ClassDefinition.isUnmonitored (d : ClassDefinition) : Bool :=
  d.methods.all fun m => (m.code.map RawCode.isUnmonitored).getD true

/-- Neither the bytes of a method nor what they were linked to have instructions for monitors. -/
def Method.Unmonitored (m : Method) : Prop :=
  ∀ raw linked, m.body = .bytecode raw linked → raw.isUnmonitored = true ∧
    ∀ code, linked = some (.ok code) → code.isUnmonitored = true

def ClassTable.Unmonitored (t : ClassTable) : Prop :=
  ∀ id c, t.get? id = some c → ∀ (i : Nat) (m : Method), c.methods[i]? = some m → m.Unmonitored

/-- What an operation that is no instruction for monitors stands for is none either. -/
theorem Operation.Form.isMonitor {pool : ConstantPool} {op : Operation} {i : Instruction}
    (h : op.Form pool i) (hi : i.isMonitor = true) : op.isMonitor = true := by
  have hplaceholder : ¬ i.IsPlaceholder := by
    rintro ⟨symbol, rfl⟩
    cases hi
  cases op with
  | plain j => exact h ▸ hi
  | loadConstant index wide =>
    obtain ⟨c, _, hloads⟩ := h
    unfold Constant.Loads at hloads
    split at hloads
    all_goals first | (subst hloads; cases hi) | skip
    · obtain ⟨id, rfl⟩ := hloads.resolve_right hplaceholder
      cases hi
    · exact hloads.elim
  | staticField index put =>
    obtain ⟨_, _, _, hform⟩ := h
    obtain ⟨owner, slot, rfl⟩ := hform.resolve_right hplaceholder
    cases put <;> cases hi
  | instanceField index put =>
    obtain ⟨_, _, _, hform⟩ := h
    rcases hform with rfl | ⟨slot, rfl⟩ | hform
    · cases put <;> cases hi
    · cases put <;> cases hi
    · exact absurd hform hplaceholder
  | invoke kind index =>
    obtain ⟨_, d, _, hform⟩ := h
    have hcalls := hform.resolve_right hplaceholder
    cases kind with
    | static => obtain ⟨method, rfl⟩ := hcalls; cases hi
    | special => obtain ⟨method, rfl⟩ := hcalls; cases hi
    | interface => obtain ⟨signature, rfl⟩ := hcalls; cases hi
    | virtual =>
      obtain ⟨signature, rfl⟩ := hcalls
      split at hi <;> cases hi
  | classUse use index =>
    obtain ⟨_, _, hform⟩ := h
    obtain ⟨id, rfl⟩ := hform.resolve_right hplaceholder
    cases use <;> cases hi

namespace Decoding

/-- A body that has no instructions for monitors is decoded to one that has none. -/
theorem Decoded.isUnmonitored {pool : ConstantPool} {raw : RawCode} {pcs : List Nat} {linked : LinkedCode}
    (h : Decoded pool raw pcs linked) (hraw : raw.isUnmonitored = true) : linked.isUnmonitored = true := by
  have hbytes : ∀ pc ∈ pcs, raw.code[pc]? ≠ some 0xc2 ∧ raw.code[pc]? ≠ some 0xc3 := by
    unfold RawCode.isUnmonitored at hraw
    simpa [h.split] using hraw
  have hplain : ∀ {pcs' : List Nat} {is : List Instruction},
      List.Forall₂ (Rendered pool (.ofStarts raw.code pcs)) pcs' is → (∀ pc ∈ pcs', pc ∈ pcs) →
        ∀ i ∈ is, i.isMonitor = false := by
    intro pcs' is hrendered
    induction hrendered with
    | nil => simp
    | @cons pc i pcs' is hhead _ ih =>
      intro hsub j hj
      rcases List.mem_cons.1 hj with rfl | hj
      · obtain ⟨op, hop, hform⟩ := hhead
        by_contra hmonitor
        have hyes := hform.isMonitor (by simpa using hmonitor)
        obtain ⟨hne, hne'⟩ := hbytes pc (hsub pc List.mem_cons_self)
        exact (operation_monitor hop hyes).elim hne hne'
      · exact ih (fun pc' hmem => hsub pc' (List.mem_cons_of_mem _ hmem)) j hj
  unfold LinkedCode.isUnmonitored
  rw [Array.all_eq_true_iff_forall_mem]
  intro i hi
  rw [hplain h.instructions (fun _ hmem => hmem) i (Array.mem_toList_iff.2 hi)]
  rfl

end Decoding

theorem Linker.Gives.isUnmonitored {pool : ConstantPool} {raw : RawCode} {code : LinkedCode}
    (h : Gives pool raw (.ok code)) (hraw : raw.isUnmonitored = true) : code.isUnmonitored = true := by
  obtain ⟨subject, l, hends⟩ := h
  have hdecoded := linkBody_decoded pool subject raw l
  cases hrun : linkBody pool subject raw l with
  | error e l' => cases hends.of_error hrun
  | ok linked l' =>
    cases hends.of_ok hrun
    obtain ⟨⟨pcs, hsplit⟩, _⟩ := hdecoded.of_ok hrun
    exact hsplit.isUnmonitored hraw

theorem Method.Links.unmonitored {pool : ConstantPool} {m m' : Method} (h : m.Links pool m')
    (hm : m.Unmonitored) : m'.Unmonitored := by
  cases h with
  | same => exact hm
  | linked hbody hgives =>
    rintro raw linked hbody'
    cases hbody'
    have hraw := (hm _ _ hbody).1
    refine ⟨hraw, fun code hcode => ?_⟩
    cases hcode
    exact hgives.isUnmonitored hraw

namespace ClassTable

variable {t t' : ClassTable}

theorem Grows.unmonitored (h : t.Grows t') (ht : t.Unmonitored) : t'.Unmonitored := by
  intro id c' hc' i m' hm'
  cases hc : t.get? id with
  | none =>
    obtain ⟨hmade, _⟩ := h.added id c' hc hc'
    rw [hmade.methods] at hm'
    simp at hm'
  | some c =>
    obtain ⟨c'', hc'', hp⟩ := h.known id c hc
    cases hc'.symm.trans hc''
    obtain ⟨m, hm, hlinks⟩ := hp.methods.of_some' hm'
    exact hlinks.unmonitored (ht id c hc i m hm)

theorem Unmonitored.of_get?_eq (ht : t.Unmonitored) (h : ∀ id, t'.get? id = t.get? id) :
    t'.Unmonitored := by
  intro id c hc
  rw [h] at hc
  exact ht id c hc

theorem Unmonitored.update (ht : t.Unmonitored) (id : ClassId) {f : ClassInfo → ClassInfo}
    (hf : ∀ c : ClassInfo, (∀ (i : Nat) (m : Method), c.methods[i]? = some m → m.Unmonitored) →
      ∀ (i : Nat) (m : Method), (f c).methods[i]? = some m → m.Unmonitored) :
    (t.update id f).Unmonitored := by
  intro id' c' hc'
  rw [get?_update] at hc'
  split at hc'
  · obtain ⟨c, hc, rfl⟩ := Option.map_eq_some_iff.1 hc'
    exact hf c (ht id' c hc)
  · exact ht id' c' hc'

theorem Unmonitored.takePendingInit (ht : t.Unmonitored) (id : ClassId) :
    (ClassTable.takePendingInit id t).2.Unmonitored := ht.update id fun _ h => h

/-- A class without instructions for monitors is loaded. -/
theorem Unmonitored.load (ht : t.Unmonitored) {d : ClassDefinition} (hd : d.isUnmonitored = true)
    {id : ClassId} (hload : t.load d = .ok (id, t')) : t'.Unmonitored := by
  obtain ⟨_, _, c, hdeclared, _, _, hsound, hclasses, _⟩ := load_eq hload
  intro id' c' hc' i m hm
  rw [get?_push hclasses] at hc'
  split at hc'
  · cases hc'
    intro raw linked hbody
    have hmem : m.declaration ∈ d.loaded.methods := by
      rw [← hdeclared]
      exact List.mem_map_of_mem (Array.mem_toList_iff.2 (Array.mem_of_getElem? hm))
    obtain ⟨source, hsource, heq⟩ := List.mem_map.1 hmem
    have hcode : source.code = some raw := by
      have hraw := congrArg MethodDefinition.code heq
      simp only [Method.declaration, Method.code?, hbody] at hraw
      split at hraw
      · cases hraw
      · exact hraw
    have hraw : raw.isUnmonitored = true := by
      have hall := List.all_eq_true.1 hd source hsource
      rwa [hcode] at hall
    refine ⟨hraw, fun code hlinked => ?_⟩
    rw [hlinked] at hbody
    exact (hsound.genuine i m raw _ hm hbody).isUnmonitored hraw
  · exact ht id' c' hc' i m hm

theorem Unmonitored.register (ht : t.Unmonitored) {d : ClassDefinition} (hd : d.isUnmonitored = true) :
    (ClassTable.register d t).2.Unmonitored := by
  unfold ClassTable.register
  cases hload : t.load d with
  | ok pair => exact ht.load hd hload
  | error e => exact ht.of_get?_eq fun _ => rfl

end ClassTable

namespace Linker

variable {l : Linker}

/-- What a method is linked to. -/
theorem link_isUnmonitored (h : l.classes.Unmonitored) {id : MethodId} {code : LinkedCode}
    (hlink : (link id l).1 = .ok code) : code.isUnmonitored = true := by
  rw [link, state_get] at hlink
  cases hc : l.classes.get? id.owner with
  | none => rw [hc] at hlink; cases hlink
  | some c =>
    rw [hc] at hlink
    dsimp only at hlink
    cases hm : c.methods[id.index]? with
    | none => rw [hm] at hlink; cases hlink
    | some m =>
      rw [hm] at hlink
      dsimp only at hlink
      have hmethod := h id.owner c hc id.index m hm
      cases hbody : m.body with
      | native binding => rw [hbody] at hlink; cases hlink
      | abstract => rw [hbody] at hlink; cases hlink
      | bytecode raw linked =>
        rw [hbody] at hlink
        obtain ⟨hraw, hlinked⟩ := hmethod raw linked hbody
        cases linked with
        | some result => exact hlinked code (congrArg some hlink)
        | none =>
          dsimp only at hlink
          rw [linkFresh_fst] at hlink
          have hgives := gives_outcome c.pool m.text raw (prepare c.id l).2
          rw [hlink] at hgives
          exact hgives.isUnmonitored hraw

theorem bindNative_unmonitored (h : l.classes.Unmonitored)
    (resolve : String → String → String → Option NativeId) (id : MethodId) :
    (bindNative resolve id l).2.classes.Unmonitored := by
  have hbound : ∀ (t : ClassTable) (binding : NativeBinding), t.Unmonitored →
      (t.updateMethod id fun m => { m with body := .native (some binding) }).Unmonitored := by
    intro t binding ht
    refine ht.update id.owner fun c hc i m hm => ?_
    dsimp only at hm
    rw [Array.getElem?_modify] at hm
    split at hm
    · obtain ⟨m', _, rfl⟩ := Option.map_eq_some_iff.1 hm
      rintro raw linked hbody
      cases hbody
    · exact hc i m hm
  have hrest : ∀ (m : Method) (binding : NativeBinding), ((do
      if binding = .unbound then record .warning m.text "no native implementation registered"
      modify fun l =>
        { l with classes := l.classes.updateMethod id fun m => { m with body := .native (some binding) } }
      return some binding : StateM Linker (Option NativeBinding)) l).2.classes.Unmonitored := by
    intro m binding
    split
    · exact hbound _ binding ((ClassTable.grows_record l.classes _ _ _).unmonitored h)
    · exact hbound _ binding h
  rw [bindNative, state_get]
  cases l.classes.method? id with
  | none => exact h
  | some m =>
    dsimp only
    cases m.body with
    | abstract => exact h
    | bytecode raw linked => exact h
    | native binding =>
      cases binding with
      | some binding => exact h
      | none => exact hrest m _

end Linker

namespace Core

theorem definitions_unmonitored {ds : List ClassDefinition} (h : definitions = .ok ds) :
    ∀ d ∈ ds, d.isUnmonitored = true := by
  have hall : definitions.toOption.all (·.all ClassDefinition.isUnmonitored) = true := by decide
  rw [h] at hall
  exact List.all_eq_true.1 hall

theorem installOne_unmonitored {t : ClassTable} (ht : t.Unmonitored) {d : ClassDefinition}
    (hd : d.isUnmonitored = true) (installed : Nat) : (installOne installed d t).2.Unmonitored := by
  rw [installOne, state_get]
  split
  · exact ht
  · have hregister := ht.register hd
    rw [state_bind]
    cases (ClassTable.register d t).1 with
    | ok id => exact (ClassTable.grows_record _ _ _ _).unmonitored hregister
    | error e => exact hregister

/-- Core classes bring no instructions for monitors. -/
theorem install_unmonitored {t : ClassTable} (ht : t.Unmonitored) : (install t).2.Unmonitored := by
  have hfold : ∀ (ds : List ClassDefinition) (installed : Nat) (t : ClassTable), t.Unmonitored →
      (∀ d ∈ ds, d.isUnmonitored = true) → (ds.foldlM installOne installed t).2.Unmonitored := by
    intro ds
    induction ds with
    | nil => exact fun _ _ ht _ => ht
    | cons d ds ih =>
      intro installed t ht hds
      rw [List.foldlM_cons, state_bind]
      exact ih _ _ (installOne_unmonitored ht (hds d List.mem_cons_self) installed) fun d' hd' =>
        hds d' (List.mem_cons_of_mem _ hd')
  unfold install
  cases hdefs : definitions with
  | error e => exact ht
  | ok ds => exact hfold ds 0 t ht (definitions_unmonitored hdefs)

end Core

end ClassMachine
