import ClassMachine.Proofs.Class.Shape
import ClassMachine.Proofs.Snapshot.Roundtrip

/-!
What the hashes of an image protect. A class is accepted under its name when its hash is the listed
one; an object fits the layout of its class where every superclass is listed as well.
-/
namespace ClassMachine.Snapshot
open Stateful ClassMachine.Lists

section Classes

/-- A class with the name and the hash of a record. -/
def Accepted (t : ClassTable) (record : ClassRecord) (id : ClassId) : Prop :=
  ∃ c, t.get? id = some c ∧ c.name = record.name ∧ c.structuralHash = record.hash

theorem Accepted.keeps {t t' : ClassTable} {record : ClassRecord} {id : ClassId}
    (h : Accepted t record id) (hkeeps : t.Keeps t') : Accepted t' record id := by
  obtain ⟨c, hc, hname, hhash⟩ := h
  obtain ⟨c', hc', hdeclared⟩ := hkeeps id c hc
  exact ⟨c', hc', (congrArg ClassDefinition.name hdeclared).trans hname,
    (ClassInfo.structuralHash_congr hdeclared).trans hhash⟩

/-- A class that is found is the one of that name. -/
theorem findClass_some {name : String} {l l' : Linker} {c : ClassInfo} (hl : l.classes.Regular)
    (h : findClass name l = .ok (some c) l') : l.Grows l' ∧ l'.classes.get? c.id = some c ∧ c.name = name := by
  have hgrows := ClassTable.resolveName_grows name l.classes
  have hregular := hl.grows hgrows
  obtain ⟨hfound, rfl⟩ := EStateM.Result.ok.inj h
  obtain ⟨id, hid, hc⟩ := Option.bind_eq_some_iff.1 hfound
  obtain ⟨c', hc', hname⟩ := hregular.named name id (ClassTable.lookup?_resolveName hid)
  cases hc.symm.trans hc'
  refine ⟨Linker.grows_classes hgrows, ?_, hname⟩
  rw [(hregular.listed id c hc).1.numbered]
  exact hc

theorem resolveClass_accepted {record : ClassRecord} {l l' : Linker} {p : String × ClassId}
    (hl : l.classes.Regular) (h : resolveClass record l = .ok p l') :
    l.Grows l' ∧ p.1 = record.name ∧ Accepted l'.classes record p.2 := by
  obtain ⟨found, l₁, hfind, h⟩ := bind_ok.1 h
  cases found with
  | none => cases h
  | some c =>
    obtain ⟨hgrows, hc, hname⟩ := findClass_some hl hfind
    dsimp only at h
    split at h
    · cases h
    · next hhash =>
      cases h
      exact ⟨hgrows, rfl, c, hc, hname, not_not.1 hhash⟩

/-- The classes of an image that are found are those that are accepted. -/
theorem resolveClasses_accepted {records : List ClassRecord} {l l' : Linker} {classes : Resolved}
    (hl : l.classes.Regular) (h : records.mapM resolveClass l = .ok classes l') :
    l.Grows l' ∧
      List.Forall₂ (fun record p => p.1 = record.name ∧ Accepted l'.classes record p.2) records classes := by
  induction records generalizing l classes with
  | nil =>
    cases h
    exact ⟨.refl _, .nil⟩
  | cons record records ih =>
    rw [List.mapM_cons] at h
    obtain ⟨p, l₁, hfirst, h⟩ := bind_ok.1 h
    obtain ⟨rest, l₂, hrest, h⟩ := bind_ok.1 h
    cases h
    obtain ⟨hgrows₁, hname, haccepted⟩ := resolveClass_accepted hl hfirst
    obtain ⟨hgrows₂, haccepts⟩ := ih (hl.grows hgrows₁.classes) hrest
    exact ⟨hgrows₁.trans hgrows₂, .cons ⟨hname, haccepted.keeps hgrows₂.classes.keeps⟩ haccepts⟩

theorem resolve_accepted {i : Image} {l l' : Linker} {classes : Resolved} (hl : l.classes.Regular)
    (h : resolve i l = .ok classes l') :
    l.Grows l' ∧
      List.Forall₂ (fun record p => p.1 = record.name ∧ Accepted l'.classes record p.2) i.classes classes := by
  obtain ⟨found, l₁, hfound, h⟩ := bind_ok.1 h
  rw [bind_get] at h
  obtain ⟨_, l₂, hframes, h⟩ := bind_ok.1 h
  cases h
  obtain ⟨_, rfl⟩ := ofExcept_ok.1 hframes
  exact resolveClasses_accepted hl hfound

theorem mem_of_find {classes : Resolved} {name : String} {id : ClassId} (h : classes.find name = .ok id) :
    (name, id) ∈ classes := by
  unfold Resolved.find at h
  split at h
  · next hlookup =>
    cases h
    obtain ⟨_, _, hsplit, _⟩ := List.lookup_eq_some_iff.1 hlookup
    simp [hsplit]
  · cases h

/-- What a class is listed as, where it is listed. -/
theorem classRecord_eq {t : ClassTable} {ids : List ClassId} {record : ClassRecord} {id : ClassId}
    {c : ClassInfo} (ht : t.Regular) (h : record ∈ classRecords t ids) (hc : t.get? id = some c)
    (hname : record.name = c.name) : record = ⟨c.name, c.structuralHash⟩ := by
  obtain ⟨id', _, c', hc', rfl⟩ := mem_classRecords h
  have hid : id' = id := ht.eq_of_name hc hc' hname
  subst hid
  cases hc.symm.trans hc'
  rfl

end Classes

section Objects

variable {classes : Resolved} {codecs : CodecRegistry}

/-- An object made of its record. -/
structure Recorded (classes : Resolved) (codecs : CodecRegistry) (record : ObjectRecord) (o : Object) : Prop where
  type : classes.find record.className = .ok o.type
  fields : o.fields = record.fields.toArray
  payload : payload classes codecs record.className record.payload = .ok o.payload

/-- An object of a record is inserted under its handle, and the heap is told if it stands for a class. -/
theorem insertObject_makes {h h' : Heap} {record : ObjectRecord}
    (hrun : insertObject classes codecs h record = .ok h') :
    ∃ o h₁, Recorded classes codecs record o ∧
      o.weight = headerWeight + total Object.valueWeight record.fields + o.payload.weight ∧
      h.insertAt? record.ref o = some h₁ ∧ (h' = h₁ ∨ ∃ id, h' = h₁.registerMirror id record.ref) := by
  obtain ⟨id, hfind, hrun⟩ := except_bind_ok.1 hrun
  obtain ⟨p, hpayload, hrun⟩ := except_bind_ok.1 hrun
  dsimp only at hrun
  split at hrun
  · cases hrun
  · next h₁ hinsert =>
    refine ⟨{ Object.ofPayload id record.fields p with monitor := record.monitor }, h₁, ⟨hfind, rfl, hpayload⟩, rfl,
      hinsert, ?_⟩
    split at hrun
    · next mirrored _ =>
      cases hrun
      exact .inr ⟨mirrored, rfl⟩
    · cases hrun
      exact .inl rfl

theorem insertObject_recorded {h h' : Heap} {record : ObjectRecord}
    (hrun : insertObject classes codecs h record = .ok h') :
    ∃ o, Recorded classes codecs record o ∧ h'.objects = h.objects.insert record.ref.handle o := by
  obtain ⟨o, h₁, hrecorded, -, hinsert, hafter⟩ := insertObject_makes hrun
  have hobjects : h'.objects = h₁.objects := by
    rcases hafter with rfl | ⟨id, rfl⟩ <;> rfl
  unfold Heap.insertAt? at hinsert
  split at hinsert
  · cases hinsert
  · cases hinsert
    exact ⟨o, hrecorded, hobjects⟩

/-- The objects of a heap that was filled from records. -/
theorem insertObjects_recorded {records : List ObjectRecord} {h h' : Heap}
    (hrun : records.foldlM (insertObject classes codecs) h = .ok h') {r : Ref} {o : Object}
    (ho : h'.get? r = some o) :
    h.get? r = some o ∨ ∃ record ∈ records, record.ref = r ∧ Recorded classes codecs record o := by
  induction records generalizing h with
  | nil =>
    cases hrun
    exact .inl ho
  | cons record records ih =>
    obtain ⟨h₁, hfirst, hrest⟩ := except_bind_ok.1 hrun
    rcases ih hrest with hold | ⟨record', hmem, hrecorded⟩
    · obtain ⟨o', hrecorded, hobjects⟩ := insertObject_recorded hfirst
      unfold Heap.get? at hold
      rw [hobjects, Maps.getElem?_insert_eq] at hold
      split at hold
      · next heq =>
        cases hold
        refine .inr ⟨record, by simp, ?_, hrecorded⟩
        cases hr : record.ref
        simp_all
      · exact .inl hold
    · exact .inr ⟨record', by simp [hmem], hrecorded⟩

theorem heap_recorded {config : Config} {i : Image} {h : Heap} (hrun : heap classes codecs config i = .ok h)
    {r : Ref} {o : Object} (ho : h.get? r = some o) :
    ∃ record ∈ i.objects, record.ref = r ∧ Recorded classes codecs record o := by
  obtain ⟨h₁, hobjects, heq⟩ := except_bind_ok.1 hrun
  cases heq
  rw [Heap.get?, (foldl_intern i.interned h₁).2.1] at ho
  rcases insertObjects_recorded hobjects ho with hempty | hrecorded
  · simp [Heap.get?] at hempty
  · exact hrecorded

end Objects

section Restoration

variable {codecs : CodecRegistry} {i : Image} {m m' : Machine}

theorem state_heap {classes : Resolved} {config : Config} {now : UInt64} {l l' : Linker} {s : State}
    (h : state classes codecs config now i l = .ok s l') :
    l.Grows l' ∧ heap classes codecs config i = .ok s.heap := by
  refine ⟨(state_links classes codecs config now i l).of_ok h, ?_⟩
  obtain ⟨built, l₁, hheap, h⟩ := bind_ok.1 h
  obtain ⟨_, l₂, _, h⟩ := bind_ok.1 h
  obtain ⟨_, l₃, _, h⟩ := bind_ok.1 h
  cases h
  exact (ofExcept_ok.1 hheap).1

theorem markAll_loaded {ds : List ClassDefinition} (fields : List (ClassId × List Value)) (l : Linker)
    (h : ClassTable.Loaded ds l.classes) :
    ClassTable.Loaded ds ((fields.forM fun (id, _) => markInitialized id).run l).2.classes := by
  induction fields generalizing l with
  | nil => exact h
  | cons p fields ih =>
    refine ih (markInitialized p.1 l).2 ?_
    rw [markInitialized, state_bind]
    have hprepared := h.grows (Linker.prepare_grows p.1 l).classes
    split
    · exact hprepared.initialized p.1
    · exact hprepared

/-- The stages a restoration goes through where it succeeds. -/
theorem restore_ok (h : restore codecs i m = .ok () m') : ∃ classes s l₁ l₂,
    resolve i m.linker = .ok classes l₁ ∧ state classes codecs m.config m.scheduler.now i l₁ = .ok s l₂ ∧
      m' = install { m with linker := l₂ } s := by
  obtain ⟨classes, m₁, hvalidate, h⟩ := bind_ok.1 h
  obtain ⟨l₁, hresolve, rfl⟩ := onLinker_ok.1 hvalidate
  rw [bind_get] at h
  split at h
  · cases h
  · obtain ⟨s, m₂, hstate, h⟩ := bind_ok.1 h
    obtain ⟨l₂, hbuild, rfl⟩ := onLinker_ok.1 hstate
    rw [bind_get] at h
    obtain ⟨_, m₃, hcheck, h⟩ := bind_ok.1 h
    obtain ⟨_, rfl⟩ := ofExcept_ok.1 hcheck
    cases h
    exact ⟨classes, s, l₁, l₂, hresolve, hbuild, rfl⟩

/-- What a machine that was restored goes on with: accepted classes and recorded objects. -/
theorem restore_recorded {ds : List ClassDefinition} (hm : ClassTable.Loaded ds m.classes)
    (h : restore codecs i m = .ok () m') : ClassTable.Loaded ds m'.classes ∧ ∃ classes : Resolved,
      List.Forall₂ (fun record p => p.1 = record.name ∧ Accepted m'.classes record p.2) i.classes classes ∧
      ∀ r o, m'.heap.get? r = some o →
        ∃ record ∈ i.objects, record.ref = r ∧ Recorded classes codecs record o := by
  obtain ⟨classes, s, l₁, l₂, hresolve, hbuild, rfl⟩ := restore_ok h
  obtain ⟨hgrows₁, haccepted⟩ := resolve_accepted hm.regular hresolve
  obtain ⟨hgrows₂, hheap⟩ := state_heap hbuild
  have hloaded : ClassTable.Loaded ds l₂.classes := (hm.grows hgrows₁.classes).grows hgrows₂.classes
  have hkeeps : l₁.classes.Keeps (install { m with linker := l₂ } s).classes :=
    hgrows₂.classes.keeps.trans (markAll_keeps s.statics l₂)
  refine ⟨markAll_loaded s.statics l₂ hloaded, classes, ?_, fun r o ho => ?_⟩
  · exact haccepted.imp fun _ _ hp => ⟨hp.1, hp.2.keeps hkeeps⟩
  · have hpin : (s.heap.pin s.outOfMemory).get? r = s.heap.get? r := by
      unfold Heap.pin
      split <;> rfl
    exact heap_recorded hheap (hpin.symm.trans ho)

end Restoration

section Names

variable {codecs : CodecRegistry} {i : Image} {classes : Resolved} {l l' : Linker}

/-- Finds a listed class, whatever hash it has. -/
def locateClass (record : ClassRecord) : RestoreM (String × ClassId) := do
  match ← findClass record.name with
  | none => throw (.missingClass record.name)
  | some c => return (record.name, c.id)

/-- What is left of a restoration once the listed classes are found. -/
def restoreWith (codecs : CodecRegistry) (i : Image) (classes : Resolved) : EStateM SnapshotError Machine Unit := do
  let m ← get
  if !m.scheduler.toList.isEmpty then throw (.busy .threadsPresent)
  let s ← onLinker (state classes codecs m.config m.scheduler.now i)
  ofExcept (checkOutOfMemory (← get).classes s)
  modify (install · s)

/-- A class that is accepted under the name of a record is the one that is found. -/
theorem resolveClass_of_located {record : ClassRecord} {p : String × ClassId} (hl : l.classes.Regular)
    (haccepted : ∃ id, Accepted l.classes record id) (h : locateClass record l = .ok p l') :
    resolveClass record l = .ok p l' := by
  obtain ⟨found, l₁, hfind, h⟩ := bind_ok.1 h
  cases found with
  | none => cases h
  | some c =>
    cases h
    obtain ⟨hgrows, hc, hname⟩ := findClass_some hl hfind
    obtain ⟨id, hid⟩ := haccepted
    obtain ⟨c', hc', hname', hhash⟩ := hid.keeps hgrows.classes.keeps
    cases (hl.grows hgrows.classes).eq_of_name hc hc' (hname'.trans hname.symm)
    have heq : c' = c := Option.some.inj (hc'.symm.trans hc)
    unfold resolveClass
    rw [bind_of_ok hfind]
    dsimp only
    rw [if_neg (not_not.2 (heq ▸ hhash))]
    rfl

theorem resolveClasses_of_located {records : List ClassRecord} (hl : l.classes.Regular)
    (haccepted : ∀ record ∈ records, ∃ id, Accepted l.classes record id)
    (h : records.mapM locateClass l = .ok classes l') : records.mapM resolveClass l = .ok classes l' := by
  induction records generalizing l classes l' with
  | nil =>
    rw [List.mapM_nil] at h ⊢
    exact h
  | cons record records ih =>
    rw [List.mapM_cons] at h ⊢
    obtain ⟨p, l₁, hfirst, h⟩ := bind_ok.1 h
    obtain ⟨rest, l₂, hrest, h⟩ := bind_ok.1 h
    have hfirst' := resolveClass_of_located hl (haccepted record (by simp)) hfirst
    have hgrows := (resolveClass_accepted hl hfirst').1
    have hrest' := ih (hl.grows hgrows.classes) (fun record' hmem => by
      obtain ⟨id, hid⟩ := haccepted record' (List.mem_cons_of_mem record hmem)
      exact ⟨id, hid.keeps hgrows.classes.keeps⟩) hrest
    cases h
    rw [bind_of_ok hfirst', bind_of_ok hrest']
    rfl

/-- An image without frames is restored where its classes are, with no need to compute a hash. -/
theorem restore_of_located {m m₁ : Machine} (hm : m.classes.Regular)
    (haccepted : ∀ record ∈ i.classes, ∃ id, Accepted m.classes record id) (hframes : i.frames = [])
    (hlocate : onLinker (i.classes.mapM locateClass) m = .ok classes m₁) :
    restore codecs i m = restoreWith codecs i classes m₁ := by
  obtain ⟨l₁, hfound, rfl⟩ := onLinker_ok.1 hlocate
  have hresolve : resolve i m.linker = .ok classes l₁ := by
    unfold resolve
    rw [bind_of_ok (resolveClasses_of_located hm haccepted hfound), bind_get, hframes]
    rfl
  have hvalidate : validate i m = .ok classes { m with linker := l₁ } := onLinker_ok.2 ⟨l₁, hresolve, rfl⟩
  show (validate i >>= restoreWith codecs i) m = _
  rw [bind_of_ok hvalidate]

/-- Whether the classes an image of `source` lists are in `target` and have the shapes they had. -/
def reshaped (source target : Machine) : Bool :=
  (mentionedClasses source).all fun id => (source.classes.get? id).all fun c =>
    ((target.classes.lookup? c.name).bind target.classes.get?).any fun c' => c'.shape = c.shape

theorem accepted_of_reshaped {source target : Machine} (htarget : target.classes.Regular)
    (hi : Captures codecs source i) (h : reshaped source target = true) :
    ∀ record ∈ i.classes, ∃ id, Accepted target.classes record id := by
  intro record hrecord
  rw [hi.classes] at hrecord
  obtain ⟨id, hid, c, hc, rfl⟩ := mem_classRecords hrecord
  have hclass := List.all_eq_true.1 h id hid
  rw [hc] at hclass
  obtain ⟨c', hfound, hshape⟩ := (Option.any_eq_true ..).1 hclass
  obtain ⟨id', hlookup, hc'⟩ := Option.bind_eq_some_iff.1 hfound
  obtain ⟨c'', hc'', hname⟩ := htarget.named c.name id' hlookup
  cases hc'.symm.trans hc''
  refine ⟨id', c', hc', hname, ?_⟩
  unfold ClassInfo.structuralHash
  rw [ClassInfo.shapeBytes_eq, ClassInfo.shapeBytes_eq, of_decide_eq_true hshape]

/-- Whether the image of one machine, which has no frames, can be restored into another one, and `P` holds then. -/
def restoresTo (source target : Machine) (P : Machine → Bool) : Bool :=
  reshaped source target &&
    match capture [] source with
    | .error _ => false
    | .ok i =>
      i.frames.isEmpty &&
        match onLinker (i.classes.mapM locateClass) target with
        | .error _ _ => false
        | .ok classes m₁ =>
          match restoreWith [] i classes m₁ with
          | .error _ _ => false
          | .ok _ m' => P m'

theorem exists_of_restoresTo {source target : Machine} {P : Machine → Bool} (htarget : target.classes.Regular)
    (h : restoresTo source target P = true) :
    ∃ i m', capture [] source = .ok i ∧ restore [] i target = .ok () m' ∧ P m' = true := by
  obtain ⟨hshapes, h⟩ := Bool.and_eq_true_iff.1 h
  split at h
  · cases h
  · next i hi =>
    obtain ⟨hframes, h⟩ := Bool.and_eq_true_iff.1 h
    have haccepted := accepted_of_reshaped htarget (capture_ok.1 hi) hshapes
    split at h
    · cases h
    · next classes m₁ hlocate =>
      have hrestore : restore [] i target = restoreWith [] i classes m₁ :=
        restore_of_located htarget haccepted (List.isEmpty_iff.1 hframes) hlocate
      split at h
      · cases h
      · next m' hm' => exact ⟨i, m', hi, hrestore.trans hm', h⟩

end Names

section Layouts

/-- Classes whose shapes can be told from the bytes they are hashed by. -/
def Describable (t : ClassTable) : Prop :=
  ∀ id c, t.get? id = some c → c.shape.Measured ∧ c.superName ≠ some ""

/-- Hashes tell classes of one name apart when their shapes differ. -/
def Collisionless (t t' : ClassTable) : Prop :=
  ∀ id id' c c', t.get? id = some c → t'.get? id' = some c' → c'.name = c.name →
    c'.structuralHash = c.structuralHash → c'.shapeBytes = c.shapeBytes

variable {t t' : ClassTable} {id id' : ClassId} {c : ClassInfo}

/-- A table that went on from another has no other class of a name. -/
theorem collisionless_of_keeps (ht' : t'.Regular) (hkeeps : t.Keeps t') : Collisionless t t' := by
  intro id id' c c' hc hc' hname _
  obtain ⟨k, hk, hdeclared⟩ := hkeeps id c hc
  cases ht'.eq_of_name hk hc' (hname.trans (congrArg ClassDefinition.name hdeclared).symm)
  cases hk.symm.trans hc'
  exact ClassInfo.shapeBytes_congr hdeclared

/-- An accepted class has the shape of the class that was listed. -/
theorem reshapes_of_accepted (ht' : t'.Regular) (hshapes : Describable t) (hshapes' : Describable t')
    (hhash : Collisionless t t') (hc : t.get? id = some c)
    (h : Accepted t' ⟨c.name, c.structuralHash⟩ id') : t.Reshapes t' id id' := by
  obtain ⟨c', hc', hname, hequal⟩ := h
  obtain ⟨hmeasured, hnamed⟩ := hshapes id c hc
  obtain ⟨hmeasured', hnamed'⟩ := hshapes' id' c' hc'
  have hshape := ClassInfo.shape_of_bytes hmeasured hmeasured' (hhash id id' c c' hc hc' hname hequal)
  have hsuper : c'.superName.getD "" = c.superName.getD "" := congrArg ClassShape.superName hshape
  have hlookup : t'.lookup? c.name = some id' := by
    rw [← ht'.lookup? hc', hname]
  refine ⟨c, c', hc, hc', hlookup, hshape, ?_⟩
  cases hs : c.superName <;> cases hs' : c'.superName <;> simp_all

/-- What an object is recorded as. -/
theorem objectRecord_ok {codecs : CodecRegistry} {r : Ref} {o : Object} {record : ObjectRecord}
    (h : objectRecord t codecs r o = .ok record) :
    record.ref = r ∧ className t o.type = .ok record.className ∧ record.fields = o.fields.toList ∧
      payloadRecord t codecs record.className o.payload = .ok record.payload := by
  obtain ⟨owner, howner, h⟩ := except_bind_ok.1 h
  obtain ⟨written, hwritten, h⟩ := except_bind_ok.1 h
  cases h
  exact ⟨rfl, howner, rfl, hwritten⟩

/-- An array is recorded as one and comes back as one. -/
theorem elements?_of_recorded {codecs : CodecRegistry} {classes : Resolved} {owner : String} {o o' : Object}
    {written : PayloadRecord} (hwritten : payloadRecord t codecs owner o.payload = .ok written)
    (hread : payload classes codecs owner written = .ok o'.payload) (h : o'.elements? = none) :
    o.elements? = none := by
  unfold Object.elements? at h ⊢
  cases hpayload : o.payload with
  | array kind elements =>
    rw [hpayload] at hwritten
    cases hwritten
    simp only [payload, Except.ok.injEq] at hread
    rw [← hread] at h
    cases h
  | _ => rfl

/-- The objects of a machine have the fields their classes give them. They are made so; but when a field is written
nobody asks for the class of the object, so they stay so as far as bodies write fields of what has them. -/
def Fitted (m : Machine) : Prop :=
  ∀ r o, m.heap.get? r = some o → o.elements? = none →
    ∃ layout, m.classes.LaysOut o.type layout ∧ layout.Holds o.fields.toList

/-- Where a host has loaded superclasses first, layouts are those the names of the superclasses give, wherever it
has come to. -/
theorem performed_laidByName {l : Linker} (hl : l.Reachable) {config : Config} {now : UInt64} {m : Machine}
    (h : Machine.create l.classes config now = .ok m) (acts : List HostAct)
    (hfirst : (HostAct.performed .silent acts m).classes.ParentsFirst) :
    (HostAct.performed .silent acts m).classes.LaidByName := by
  have hbecomes := (Machine.becomes_of_create hl h).trans (Machine.road_rests.performed acts m).classes
  exact (hbecomes.orderly ClassTable.orderly_empty).laidByName (hbecomes.timely ClassTable.timely_empty) hfirst

/-- The image of a machine lists the classes of its objects with all their superclasses. -/
def ListsAncestors (m : Machine) : Prop :=
  ∀ r o, m.heap.get? r = some o → o.elements? = none →
    ∀ id, m.classes.Ancestor o.type id → id ∈ mentionedClasses m

/-- Where an image is restored, and at any time after, an object has the fields of the layout it had
where the image was made, provided the superclasses of its class were listed. -/
theorem restore_fitted {codecs : CodecRegistry} {source target m' : Machine} {i : Image}
    {ds ds' : List ClassDefinition} (hsource : ClassTable.Loaded ds source.classes)
    (htarget : ClassTable.Loaded ds' target.classes) (hcapture : capture codecs source = .ok i)
    (hrestore : restore codecs i target = .ok () m') (hlater : m'.classes.Grows t')
    (hshapes : Describable source.classes) (hshapes' : Describable t')
    (hhash : Collisionless source.classes t') (hfitted : Fitted source)
    (hlisted : ListsAncestors source) (hlaid : t'.LaidByName) {r : Ref} {o : Object}
    (ho : m'.heap.get? r = some o) (hplain : o.elements? = none) :
    ∃ c, t'.get? o.type = some c ∧ ∀ layout, c.layout = some layout → layout.Holds o.fields.toList ∧
      ∃ o₀, source.heap.get? r = some o₀ ∧ source.classes.LaysOut o₀.type layout := by
  have hi := capture_ok.1 hcapture
  obtain ⟨hloaded, classes, haccepted, hrecorded⟩ := restore_recorded htarget hrestore
  have ht' : t'.Regular := hloaded.regular.grows hlater
  obtain ⟨record, hrecord, rfl, hmade⟩ := hrecorded r o ho
  obtain ⟨⟨r₀, o₀⟩, hp, hwritten⟩ := exists_left hi.objects hrecord
  obtain ⟨href, howner, hfields, hpayload⟩ := objectRecord_ok hwritten
  have ho₀ : source.heap.get? record.ref = some o₀ := href ▸ mem_heap_toList.1 hp
  have hplain₀ : o₀.elements? = none := elements?_of_recorded hpayload hmade.payload hplain
  obtain ⟨layout₀, hlays, hholds⟩ := hfitted _ o₀ ho₀ hplain₀
  have hreshape : ∀ id c, id ∈ mentionedClasses source → source.classes.get? id = some c →
      ∀ p ∈ classes, p.1 = c.name → source.classes.Reshapes t' id p.2 := by
    intro id c hid hc p hp hname
    obtain ⟨record', hrecord', hname', haccept⟩ := exists_left haccepted hp
    rw [hi.classes] at hrecord'
    have heq := classRecord_eq hsource.regular hrecord' hc (hname'.symm.trans hname)
    exact reshapes_of_accepted ht' hshapes hshapes' hhash hc (heq ▸ haccept.keeps hlater.keeps)
  have hancestors : ∀ id, source.classes.Ancestor o₀.type id → ∃ id', source.classes.Reshapes t' id id' := by
    intro id hid
    have hmem := hlisted _ o₀ ho₀ hplain₀ id hid
    obtain ⟨c, hc⟩ := mentioned_known hi id hmem
    obtain ⟨record', hrecord', hname⟩ := exists_classRecord hmem hc
    rw [← hi.classes] at hrecord'
    obtain ⟨p, hp, hpname, _⟩ := exists_right haccepted hrecord'
    exact ⟨p.2, hreshape id c hmem hc p hp (hpname.trans hname)⟩
  obtain ⟨c₀, hc₀⟩ := known_of_className howner
  have hname : record.className = c₀.name := by
    simp only [className, hc₀, Except.ok.injEq] at howner
    exact howner.symm
  have hown : source.classes.Reshapes t' o₀.type o.type :=
    hreshape _ c₀ (hlisted _ o₀ ho₀ hplain₀ _ (.self _)) hc₀ _ (mem_of_find hmade.type) hname
  have hlays' : t'.LaysOut o.type layout₀ := hlays.reshape hsource.regular.named hancestors hown
  obtain ⟨_, c', _, hc', _⟩ := hown
  refine ⟨c', hc', fun layout hlayout => ?_⟩
  have heq : layout = layout₀ := hlays'.unique (hlaid _ c' layout hc' hlayout)
  subst heq
  refine ⟨?_, o₀, ho₀, hlays⟩
  rw [hmade.fields, hfields]
  exact hholds

/-- Superclass of the exception for a full heap, with the given fields. -/
def failureClass (fields : List FieldDefinition) : ClassDefinition := { name := "Failure", fields := fields }

def memoryFailure : ClassDefinition := { name := CoreName.outOfMemory, superName := some "Failure" }

/-- A machine with both classes and the given objects. -/
def failures (fields : List FieldDefinition) (objects : List (UInt32 × Object)) : Machine where
  config := {}
  linker := (Linker.prepare 1
    { classes := (ClassTable.register memoryFailure (ClassTable.register (failureClass fields) {}).2).2 }).2
  core := default
  heap := { (Heap.ofConfig {}) with objects := Maps.ofEntries objects }
  outOfMemory := ⟨1⟩

theorem loaded_failures {fields : List FieldDefinition} {objects : List (UInt32 × Object)}
    (h : (ClassTable.register (failureClass fields) {}).1.isOk = true)
    (h' : (ClassTable.register memoryFailure (ClassTable.register (failureClass fields) {}).2).1.isOk = true) :
    ClassTable.Loaded [failureClass fields, memoryFailure] (failures fields objects).classes :=
  ((ClassTable.Loaded.empty.register h).register h').grows
    (Linker.prepare_grows 1 { classes := _ }).classes

def coded : List FieldDefinition := [⟨"code", "J", {}⟩]

/-- An instance of either class. -/
def bothFailures : Machine :=
  failures coded [(1, Object.instanceOf 1 [.long]), (2, Object.instanceOf 0 [.long])]

/-- Classes with shapes that fit their counts and layouts that extend each other. -/
def wellShaped (t : ClassTable) : Bool :=
  t.classes.toList.all fun c =>
    c.shape.Measured && c.superName ≠ some "" && c.layout.all (t.extendsNamed c)

theorem of_wellShaped (ht : t.Regular) (h : wellShaped t = true) : Describable t ∧ t.LaidByName := by
  have hclass : ∀ c ∈ t.classes.toList, (c.shape.Measured ∧ c.superName ≠ some "") ∧
      c.layout.all (t.extendsNamed c) = true := by
    intro c hc
    simpa only [Bool.and_eq_true, decide_eq_true_eq] using List.all_eq_true.1 h c hc
  exact ⟨fun id c hc => (hclass c (ClassTable.mem_toList.2 ⟨id, hc⟩)).1,
    ClassTable.laidByName_of_extendsNamed ht fun c hc => (hclass c hc).2⟩

/-- Classes of one name have one shape. -/
def shapedAlike (t t' : ClassTable) : Bool :=
  t.classes.toList.all fun c => t'.classes.toList.all fun c' => c'.name ≠ c.name || c'.shape = c.shape

theorem collisionless_of_shapedAlike (h : shapedAlike t t' = true) : Collisionless t t' := by
  intro id id' c c' hc hc' hname _
  have hpair := List.all_eq_true.1 (List.all_eq_true.1 h c (ClassTable.mem_toList.2 ⟨id, hc⟩)) c'
    (ClassTable.mem_toList.2 ⟨id', hc'⟩)
  rw [ClassInfo.shapeBytes_eq, ClassInfo.shapeBytes_eq]
  simp_all

theorem fitted_bothFailures : Fitted bothFailures := by
  have hloaded : ClassTable.Loaded _ bothFailures.classes :=
    loaded_failures (by decide) (by decide)
  have hlaid := (of_wellShaped hloaded.regular (by decide)).2
  have hobjects : ∀ p ∈ bothFailures.heap.toList, ((bothFailures.classes.get? p.2.type).bind
      ClassInfo.layout).any (fun layout => layout.Holds p.2.fields.toList) = true := by decide
  intro r o ho _
  obtain ⟨layout, hlayout, hholds⟩ := (Option.any_eq_true ..).1 (hobjects (r, o) (mem_heap_toList.2 ho))
  obtain ⟨c, hc, hlayout⟩ := Option.bind_eq_some_iff.1 hlayout
  exact ⟨layout, hlaid _ c layout hc hlayout, of_decide_eq_true hholds⟩

theorem listsAncestors_bothFailures : ListsAncestors bothFailures := by
  have hclosed : ∀ id ∈ mentionedClasses bothFailures, ∀ parent ∈
      ((bothFailures.classes.get? id).bind ClassInfo.superName).bind bothFailures.classes.lookup?,
      parent ∈ mentionedClasses bothFailures := by decide
  intro r o ho _ id hid
  refine hid.mem hclosed (List.mem_append_left _ (List.mem_append_left _ ?_))
  exact List.mem_flatMap.2 ⟨(r, o), mem_heap_toList.2 ho, .head _⟩

theorem restore_fitted_failures : ∃ i m' o c, capture [] bothFailures = .ok i ∧
    restore [] i (failures coded []) = .ok () m' ∧ m'.heap.get? ⟨1⟩ = some o ∧
    m'.classes.get? o.type = some c ∧ c.layout = some ⟨[.long]⟩ ∧
    Layout.Holds ⟨[.long]⟩ o.fields.toList := by
  have hsource : ClassTable.Loaded _ bothFailures.classes :=
    loaded_failures (by decide) (by decide)
  have htarget : ClassTable.Loaded _ (failures coded []).classes :=
    loaded_failures (by decide) (by decide)
  have hrun : restoresTo bothFailures (failures coded []) (fun m' => wellShaped m'.classes &&
      shapedAlike bothFailures.classes m'.classes && (m'.heap.get? ⟨1⟩).any fun o => o.elements? = none &&
        (m'.classes.get? o.type).bind ClassInfo.layout = some ⟨[.long]⟩) = true := by decide +kernel
  obtain ⟨i, m', hcapture, hrestore, hresult⟩ := exists_of_restoresTo htarget.regular hrun
  simp only [Bool.and_eq_true] at hresult
  obtain ⟨⟨hshaped, halike⟩, hobject⟩ := hresult
  obtain ⟨o, ho, hobject⟩ := (Option.any_eq_true ..).1 hobject
  simp only [Bool.and_eq_true, decide_eq_true_eq] at hobject
  obtain ⟨c, hc, hlayout⟩ := Option.bind_eq_some_iff.1 hobject.2
  have hregular := (restore_recorded htarget hrestore).1.regular
  obtain ⟨hshapes, hlaid⟩ := of_wellShaped hregular hshaped
  obtain ⟨c', hc', hfits⟩ := restore_fitted hsource htarget hcapture hrestore (.refl _)
    (of_wellShaped hsource.regular (by decide)).1 hshapes (collisionless_of_shapedAlike halike)
    fitted_bothFailures listsAncestors_bothFailures hlaid ho hobject.1
  cases hc.symm.trans hc'
  exact ⟨i, m', o, c, hcapture, hrestore, ho, hc, hlayout, (hfits _ hlayout).1⟩

/-- Where a superclass is not listed, an object comes to a class that has other fields. -/
theorem restore_unfitted : ∃ i m' o c layout, capture [] (failures [] [(1, Object.instanceOf 1 [])]) = .ok i ∧
    restore [] i (failures coded []) = .ok () m' ∧ m'.heap.get? ⟨1⟩ = some o ∧ o.elements? = none ∧
    m'.classes.get? o.type = some c ∧ c.layout = some layout ∧ ¬ layout.Holds o.fields.toList := by
  have hrun : restoresTo (failures [] [(1, Object.instanceOf 1 [])]) (failures coded []) (fun m' =>
      (m'.heap.get? ⟨1⟩).any fun o => o.elements? = none &&
        ((m'.classes.get? o.type).bind ClassInfo.layout).any fun layout =>
          !decide (layout.Holds o.fields.toList)) = true := by decide +kernel
  have htarget : ClassTable.Loaded _ (failures coded []).classes :=
    loaded_failures (by decide) (by decide)
  obtain ⟨i, m', hcapture, hrestore, hresult⟩ := exists_of_restoresTo htarget.regular hrun
  obtain ⟨o, ho, hobject⟩ := (Option.any_eq_true ..).1 hresult
  simp only [Bool.and_eq_true, decide_eq_true_eq] at hobject
  obtain ⟨layout, hlayout, hunfit⟩ := (Option.any_eq_true ..).1 hobject.2
  obtain ⟨c, hc, hlayout⟩ := Option.bind_eq_some_iff.1 hlayout
  exact ⟨i, m', o, c, layout, hcapture, hrestore, ho, hobject.1, hc, hlayout, by simpa using hunfit⟩

end Layouts

end ClassMachine.Snapshot
