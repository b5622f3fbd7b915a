import ClassMachine.Proofs.Heap.Sweep

/-!
Heaps without dangling references. In a closed heap everything that is held names a live object, and
a collection that starts from enough roots leaves the heap closed: what survives holds on to what it
refers to.
-/
namespace ClassMachine

/-- What a value refers to, if anything, lies in `S`. -/
def Value.Within (S : Ref → Prop) : Value → Prop
  | .ref r => S r
  | _ => True

@[simp] theorem Value.within_int (S : Ref → Prop) (v : Int32) : (Value.int v).Within S := trivial

@[simp] theorem Value.within_long (S : Ref → Prop) (v : Int64) : (Value.long v).Within S := trivial

@[simp] theorem Value.within_float (S : Ref → Prop) (b : UInt32) : (Value.float b).Within S := trivial

@[simp] theorem Value.within_double (S : Ref → Prop) (b : UInt64) : (Value.double b).Within S := trivial

@[simp] theorem Value.within_ref (S : Ref → Prop) (r : Ref) : (Value.ref r).Within S ↔ S r := Iff.rfl

theorem Value.Within.mono {S T : Ref → Prop} (h : ∀ r, S r → T r) {v : Value} (hv : v.Within S) :
    v.Within T := by
  cases v with
  | ref r => exact h r hv
  | _ => trivial

theorem Value.within_zeroOf {S : Ref → Prop} (hnull : S .null) (kind : Kind) :
    (Value.zeroOf kind).Within S := by
  cases kind with
  | reference => exact hnull
  | _ => trivial

theorem Value.within_narrowTo {S : Ref → Prop} {v : Value} (hv : v.Within S) (kind : Kind) :
    (v.narrowTo kind).Within S := by
  cases v <;> cases kind <;> exact hv

theorem Value.within_iff_ref? {S : Ref → Prop} {v : Value} :
    v.Within S ↔ ∀ r, v.ref? = some r → S r := by
  cases v <;> simp [Value.Within, Value.ref?]

/-- References in elements of an array and those a companion hides. -/
def Payload.Within (S : Ref → Prop) : Payload → Prop
  | .array _ elements => ∀ v ∈ elements, v.Within S
  | .companion c => ∀ r ∈ c.hiddenRefs, S r
  | _ => True

/-- Fields, elements and what a companion hides lie in `S`. -/
structure Object.Within (S : Ref → Prop) (o : Object) : Prop where
  fields : ∀ v ∈ o.fields, v.Within S
  payload : o.payload.Within S

theorem Payload.within_iff_refs {S : Ref → Prop} {p : Payload} :
    p.Within S ↔ ∀ r ∈ p.refs, S r := by
  cases p with
  | array kind elements =>
    simp only [Payload.Within, Payload.refs, List.mem_filterMap, Array.mem_toList_iff]
    constructor
    · rintro h r ⟨v, hv, hr⟩
      exact Value.within_iff_ref?.1 (h v hv) r hr
    · intro h v hv
      exact Value.within_iff_ref?.2 fun r hr => h r ⟨v, hv, hr⟩
  | companion c => rfl
  | none => simp [Payload.Within, Payload.refs]
  | str text => simp [Payload.Within, Payload.refs]
  | mirror id => simp [Payload.Within, Payload.refs]

/-- The references a collection follows are all that count, null ones apart. -/
theorem Object.within_iff_references {S : Ref → Prop} (hnull : ∀ r : Ref, r.isNull = true → S r)
    {o : Object} : o.Within S ↔ ∀ r ∈ o.references, S r := by
  unfold Object.references
  simp only [List.mem_filter, List.mem_append, List.mem_filterMap, Array.mem_toList_iff,
    Bool.not_eq_true']
  constructor
  · rintro ⟨hf, hp⟩ r ⟨⟨v, hv, hr⟩ | hr, _⟩
    · exact Value.within_iff_ref?.1 (hf v hv) r hr
    · exact Payload.within_iff_refs.1 hp r hr
  · intro h
    constructor
    · intro v hv
      refine Value.within_iff_ref?.2 fun r hr => ?_
      cases hn : r.isNull with
      | true => exact hnull r hn
      | false => exact h r ⟨.inl ⟨v, hv, hr⟩, hn⟩
    · refine Payload.within_iff_refs.2 fun r hr => ?_
      cases hn : r.isNull with
      | true => exact hnull r hn
      | false => exact h r ⟨.inr hr, hn⟩

theorem Object.Within.mono {S T : Ref → Prop} (h : ∀ r, S r → T r) {o : Object} (ho : o.Within S) :
    o.Within T := by
  refine ⟨fun v hv => (ho.fields v hv).mono h, Payload.within_iff_refs.2 fun r hr => ?_⟩
  exact h r (Payload.within_iff_refs.1 ho.payload r hr)

namespace Heap

/-- A reference is null or names a live object. -/
def Names (h : Heap) (r : Ref) : Prop := r.isNull = false → r.handle ∈ h.objects

theorem names_of_isNull (h : Heap) {r : Ref} (hr : r.isNull = true) : h.Names r := by
  intro hf
  rw [hr] at hf
  cases hf

theorem names_null (h : Heap) : h.Names .null := h.names_of_isNull rfl

/-- Everything a heap holds by itself names live objects. -/
structure Closed (h : Heap) : Prop where
  objects : ∀ r o, h.get? r = some o → o.Within h.Names
  pinned : ∀ r ∈ h.pinned, h.Names r
  interned : ∀ text r, h.interned? text = some r → h.Names r
  mirrors : ∀ id r, h.mirror? id = some r → h.Names r

theorem Closed.ownRoots {h : Heap} (hc : h.Closed) : ∀ r ∈ h.ownRoots, h.Names r := by
  intro r hr
  unfold Heap.ownRoots at hr
  simp only [List.mem_append, List.mem_flatMap, Maps.mem_values] at hr
  rcases hr with ((hr | ⟨text, hr⟩) | ⟨id, hr⟩) | ⟨o, ⟨handle, ho⟩, hr⟩
  · exact hc.pinned r hr
  · exact hc.interned text r hr
  · exact hc.mirrors id r hr
  · have hw := (hc.objects ⟨handle⟩ o ho).payload
    unfold Object.hiddenRefs Object.companion? at hr
    cases hp : o.payload with
    | companion c =>
      rw [hp] at hr hw
      exact hw r hr
    | none => rw [hp] at hr; cases hr
    | array kind elements => rw [hp] at hr; cases hr
    | str text => rw [hp] at hr; cases hr
    | mirror id => rw [hp] at hr; cases hr

section Collection

variable {h : Heap} {roots : List Ref}

/-- An object that refers to the same ones. -/
def SameReferences (o o' : Object) : Prop := o'.references = o.references

theorem onDelete_references {o : Object} {c : Companion} (h : o.payload = .companion c) :
    SameReferences o { o with payload := .companion c.onDelete.2 } := by
  unfold SameReferences Object.references
  rw [h]
  simp only [Payload.refs, Companion.hiddenRefs_onDelete]

/-- Companions that answer for themselves change no references. -/
theorem sameReferences_leftBy {unreached : ObjectMap} {r : Ref} {o : Object}
    (ho : unreached[r.handle]? = some o) :
    SameReferences o
      (leftBy (interview (fun _ c => return c.onDelete) (questions unreached) ()).1 r o) := by
  unfold leftBy
  split
  · next a hfind =>
    obtain ⟨c, _, hc, hask⟩ := mem_interview (List.mem_of_find?_eq_some hfind)
    obtain ⟨o', ho', hcompanion⟩ := mem_questions.1 hc
    have hr : a.ref = r := by simpa using List.find?_some hfind
    rw [hr, ho] at ho'
    cases ho'
    rw [← show c.onDelete.2 = a.companion from congrArg Prod.snd hask]
    exact onDelete_references (Object.companion?_eq_some.1 hcompanion)
  · rfl

/-- A collection frees part of the heap. Roots are not in it, and what survives refers to nothing
in it. -/
structure Swept (h : Heap) (roots : List Ref) (doomed : ObjectMap) (h' : Heap) : Prop where
  get? : ∀ r, Option.Rel SameReferences (if r.handle ∈ doomed then none else h.get? r) (h'.get? r)
  roots : ∀ r ∈ roots ++ h.ownRoots, r.handle ∉ doomed
  survivors : ∀ r o, h.get? r = some o → r.handle ∉ doomed → ∀ r' ∈ o.references, r'.handle ∉ doomed

theorem collect_swept (h : Heap) (roots : List Ref) :
    ∃ doomed, Swept h roots doomed (h.collect roots).2 := by
  let unreached := h.unreached roots
  let answers := (interview (fun _ c => return c.onDelete) (questions unreached) ()).1
  let asked := afterwards unreached answers
  let doomed := doomed unreached answers
  have hrefs : answers.map (·.ref) = (questions unreached).map (·.1) := map_ref_interview _ _
  have hnodup : (answers.map (·.ref)).Nodup := hrefs ▸ nodup_questions unreached
  have hasked : ∀ r : Ref, asked[r.handle]? = unreached[r.handle]?.map (leftBy answers r) :=
    getElem?_afterwards hnodup unreached
  have hfirst : Walked h.objects (roots ++ h.ownRoots) (h.unreached roots) := by
    rw [unreached_eq]
    exact unreachedFrom_walked _ _
  have hsecond := unreachedFrom_walked asked (refusals answers)
  have hdoomed : ∀ r : Ref, r.handle ∉ unreached → r.handle ∉ doomed := by
    intro r hu
    rw [not_mem_iff] at hu ⊢
    cases hd : doomed[r.handle]? with
    | none => rfl
    | some o =>
      have h := hsecond.sub _ o hd
      rw [hasked, hu] at h
      cases h
  refine ⟨doomed, fun r => ?_, fun r hr => hdoomed _ (hfirst.started r hr), ?_⟩
  · rw [show (h.collect roots).2.get? r = _ from get?_sweep hnodup r]
    split
    · exact .none
    · cases ho : h.get? r with
      | none => exact .none
      | some o =>
        refine .some ?_
        cases hu : unreached[r.handle]? with
        | none =>
          -- a companion that was asked is of an object that was not reached
          have hunasked : r ∉ answers.map (·.ref) := by
            rw [hrefs]
            intro hmem
            obtain ⟨⟨r', c⟩, hq, rfl⟩ := List.mem_map.1 hmem
            obtain ⟨u, hu', -⟩ := mem_questions.1 hq
            rw [hu] at hu'
            cases hu'
          exact congrArg _ (leftBy_of_not_mem hunasked o)
        | some u =>
          have huo := hfirst.sub _ _ hu
          rw [show h.objects[r.handle]? = some o from ho] at huo
          cases huo
          exact sameReferences_leftBy hu
  · intro r o ho hnot r' hr'
    cases hu : unreached[r.handle]? with
    | some u =>
      -- the object was kept because of one whose companion refused
      have huo := hfirst.sub _ _ hu
      rw [show h.objects[r.handle]? = some o from ho] at huo
      cases huo
      refine hsecond.followed _ (leftBy answers r o) ?_ hnot r' ?_
      · rw [hasked, hu]
        rfl
      · rw [sameReferences_leftBy hu]
        exact hr'
    | none => exact hdoomed _ (hfirst.followed _ o ho (not_mem_iff.2 hu) r' hr')

theorem names_iff_get? {r : Ref} : h.Names r ↔ (r.isNull = false → (h.get? r).isSome) := by
  unfold Names Heap.get?
  rw [Std.ExtTreeMap.mem_iff_isSome_getElem?]

/-- A heap that has been collected from some roots, or needed not to be. -/
structure Collected (h : Heap) (roots : List Ref) (h' : Heap) : Prop where
  closed : h'.Closed
  pinned : h'.pinned = h.pinned
  roots : ∀ r ∈ roots, h'.Names r

theorem collect_collected (hc : h.Closed) (hroots : ∀ r ∈ roots, h.Names r) :
    Collected h roots (h.collect roots).2 := by
  obtain ⟨doomed, hs⟩ := collect_swept h roots
  have hnames : ∀ r, h.Names r → r.handle ∉ doomed → (h.collect roots).2.Names r := by
    intro r hr hd
    rw [names_iff_get?] at hr ⊢
    intro hnull
    obtain ⟨o, ho⟩ := Option.isSome_iff_exists.1 (hr hnull)
    have hrel := hs.get? r
    rw [if_neg hd, ho] at hrel
    generalize (h.collect roots).2.get? r = after at *
    cases hrel with
    | some _ => rfl
  have hown : ∀ r ∈ h.ownRoots, (h.collect roots).2.Names r := fun r hr =>
    hnames r (hc.ownRoots r hr) (hs.roots r (List.mem_append_right _ hr))
  refine ⟨⟨fun r o ho => ?_, fun r hr => ?_, fun text r hr => ?_, fun id r hr => ?_⟩, rfl, ?_⟩
  · -- what survives keeps its references, and they survive with it
    have hrel := hs.get? r
    rw [ho] at hrel
    split at hrel
    · cases hrel
    · next hd =>
      cases hbefore : h.get? r with
      | none => rw [hbefore] at hrel; cases hrel
      | some before =>
        rw [hbefore] at hrel
        have hsame : SameReferences before o := by cases hrel with | some hsame => exact hsame
        refine (Object.within_iff_references fun r hr => names_of_isNull _ hr).2 fun r' hr' => ?_
        rw [hsame] at hr'
        have hwithin := hc.objects r before hbefore
        have hlive := (Object.within_iff_references fun r hr => h.names_of_isNull hr).1 hwithin r' hr'
        exact hnames r' hlive (hs.survivors r before hbefore hd r' hr')
  · refine hown r ?_
    simp only [Heap.ownRoots, List.mem_append]
    exact .inl (.inl (.inl hr))
  · refine hown r ?_
    simp only [Heap.ownRoots, List.mem_append, Maps.mem_values]
    exact .inl (.inl (.inr ⟨text, hr⟩))
  · refine hown r ?_
    simp only [Heap.ownRoots, List.mem_append, Maps.mem_values]
    exact .inl (.inr ⟨id, hr⟩)
  · exact fun r hr => hnames r (hroots r hr) (hs.roots r (List.mem_append_left _ hr))

/-- More room changes nothing else. -/
theorem Collected.of_objects_eq {h' h'' : Heap} (hc : Collected h roots h')
    (ho : h''.objects = h'.objects) (hp : h''.pinned = h'.pinned) (hi : h''.interned = h'.interned)
    (hm : h''.mirrors = h'.mirrors) : Collected h roots h'' := by
  have hnames : h''.Names = h'.Names := by
    unfold Names
    rw [ho]
  refine ⟨⟨fun r o hr => ?_, fun r hr => ?_, fun text r hr => ?_, fun id r hr => ?_⟩, ?_, ?_⟩
  · rw [hnames]
    unfold Heap.get? at hr
    rw [ho] at hr
    exact hc.closed.objects r o hr
  · rw [hnames]
    rw [hp] at hr
    exact hc.closed.pinned r hr
  · rw [hnames]
    unfold interned? at hr
    rw [hi] at hr
    exact hc.closed.interned text r hr
  · rw [hnames]
    unfold mirror? at hr
    rw [hm] at hr
    exact hc.closed.mirrors id r hr
  · exact hp.trans hc.pinned
  · rw [hnames]
    exact hc.roots

/-- Making room, whether it comes to that or not, leaves everything the roots hold on to. -/
theorem reserve_collected (hc : h.Closed) (hroots : ∀ r ∈ roots, h.Names r) (units : Nat) :
    Collected h roots (h.reserve roots units).2 := by
  have hcollect := collect_collected hc hroots
  unfold reserve
  split
  · exact ⟨hc, rfl, hroots⟩
  · dsimp only
    split
    · exact hcollect
    · cases ho : (h.collect roots).2.overflowed units with
      | error e => exact hcollect
      | ok h' =>
        unfold overflowed at ho
        cases hp : (h.collect roots).2.overflow with
        | expand =>
          rw [hp] at ho
          dsimp only at ho
          split at ho
          · cases ho
            exact hcollect.of_objects_eq rfl rfl rfl rfl
          · cases ho
        | throw => rw [hp] at ho; cases ho
        | abort => rw [hp] at ho; cases ho

end Collection

section Changes

variable {h h' : Heap}

/-- A heap in which everything live before is live, and which holds on to the same things itself. -/
structure Grown (h h' : Heap) : Prop where
  closed : h'.Closed
  names : ∀ r, h.Names r → h'.Names r
  pinned : h'.pinned = h.pinned

theorem closed_ofConfig (c : Config) : (Heap.ofConfig c).Closed := by
  refine ⟨fun r o ho => ?_, (fun r hr => by cases hr), fun text r hr => ?_, fun id r hr => ?_⟩
  · simp [Heap.ofConfig, Heap.get?] at ho
  · simp [Heap.ofConfig, Heap.interned?] at hr
  · simp [Heap.ofConfig, Heap.mirror?] at hr

theorem Grown.refl (hc : h.Closed) : Grown h h := ⟨hc, fun _ hr => hr, rfl⟩

theorem insert_grown (hc : h.Closed) {o : Object} (ho : o.Within h.Names) :
    Grown h (h.insert o).2 ∧ (h.insert o).2.Names (h.insert o).1 := by
  let handle := seekHandle h.objects h.size h.nextHandle
  have hnames : ∀ r, h.Names r → (h.insert o).2.Names r := by
    intro r hr hnull
    exact Std.ExtTreeMap.mem_insert.2 (.inr (hr hnull))
  refine ⟨⟨⟨fun r o' ho' => ?_, fun r hr => ?_, fun text r hr => ?_, fun id r hr => ?_⟩, hnames, rfl⟩,
    ?_⟩
  · have hget : (h.insert o).2.get? r = if handle = r.handle then some o else h.get? r :=
      Maps.getElem?_insert_eq _ _ _ _
    rw [hget] at ho'
    split at ho'
    · cases ho'
      exact ho.mono hnames
    · exact (hc.objects r o' ho').mono hnames
  · exact hnames r (hc.pinned r hr)
  · exact hnames r (hc.interned text r hr)
  · exact hnames r (hc.mirrors id r hr)
  · exact fun _ => Std.ExtTreeMap.mem_insert_self

theorem update_grown (hc : h.Closed) (r : Ref) {f : Object → Object}
    (hf : ∀ o, h.get? r = some o → o.Within h.Names → (f o).Within h.Names) :
    Grown h (h.update r f) := by
  have hmem : ∀ handle : UInt32, handle ∈ (h.update r f).objects ↔ handle ∈ h.objects :=
    fun handle => Std.ExtTreeMap.mem_modify
  have hnames : (h.update r f).Names = h.Names := by
    funext r'
    unfold Names
    rw [hmem]
  refine ⟨⟨fun r' o ho => ?_, ?_, ?_, ?_⟩, fun _ hr => by rw [hnames]; exact hr, rfl⟩
  · rw [hnames]
    have hget : (h.update r f).get? r' = if r.handle = r'.handle then (h.get? r').map f else h.get? r' :=
      Maps.getElem?_modify_eq _ _ _ _
    rw [hget] at ho
    split at ho
    · next heq =>
      have hrr : r = r' := by
        cases r
        cases r'
        simpa using heq
      subst hrr
      obtain ⟨before, hbefore, rfl⟩ := Option.map_eq_some_iff.1 ho
      exact hf before hbefore (hc.objects r before hbefore)
    · exact hc.objects r' o ho
  · rw [hnames]
    exact hc.pinned
  · rw [hnames]
    exact hc.interned
  · rw [hnames]
    exact hc.mirrors

theorem intern_grown (hc : h.Closed) (text : String) {r : Ref} (hr : h.Names r) :
    Grown h (h.intern text r) := by
  refine ⟨⟨hc.objects, hc.pinned, fun text' r' hr' => ?_, hc.mirrors⟩, fun _ hr => hr, rfl⟩
  have hget : (h.intern text r).interned? text' = if text = text' then some r else h.interned? text' :=
    Maps.getElem?_insert_eq _ _ _ _
  rw [hget] at hr'
  split at hr'
  · cases hr'
    exact hr
  · exact hc.interned text' r' hr'

theorem registerMirror_grown (hc : h.Closed) (id : ClassId) {r : Ref} (hr : h.Names r) :
    Grown h (h.registerMirror id r) := by
  refine ⟨⟨hc.objects, hc.pinned, hc.interned, fun id' r' hr' => ?_⟩, fun _ hr => hr, rfl⟩
  have hget : (h.registerMirror id r).mirror? id' = if id = id' then some r else h.mirror? id' :=
    Maps.getElem?_insert_eq _ _ _ _
  rw [hget] at hr'
  split at hr'
  · cases hr'
    exact hr
  · exact hc.mirrors id' r' hr'

/-- Pins taken off again leave none behind. -/
theorem pin_closed (hc : h.Closed) {r : Ref} (hr : h.Names r) : (h.pin r).Closed := by
  unfold pin
  split
  · exact hc
  · refine ⟨hc.objects, fun r' hr' => ?_, hc.interned, hc.mirrors⟩
    rcases List.mem_cons.1 hr' with rfl | hr'
    · exact hr
    · exact hc.pinned r' hr'

theorem unpin_closed (hc : h.Closed) (r : Ref) : (h.unpin r).Closed :=
  ⟨hc.objects, fun r' hr' => hc.pinned r' (List.mem_of_mem_erase hr'), hc.interned, hc.mirrors⟩

end Changes

end Heap

end ClassMachine
