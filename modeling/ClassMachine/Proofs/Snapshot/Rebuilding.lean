import ClassMachine.Proofs.Scheduler.Rotation
import ClassMachine.Proofs.Snapshot.Counterparts

/-!
Threads of an image where they go on. The method of every frame is found and links to as many
instructions as it had, so each frame stands at the instruction it stood at.
-/
namespace ClassMachine.Snapshot
open Stateful ClassMachine.Lists

/-- A frame at an instruction of a body of its class, which declares one method of its name and
descriptor. -/
structure Stands (t : ClassTable) (f : Frame) (c : ClassInfo) (m : Method) (raw : RawCode) : Prop where
  owner : t.get? f.method.owner = some c
  method : c.methods[f.method.index]? = some m
  single : c.methodPosition? m.name m.descriptor = some f.method.index
  code : m.code? = some raw
  linked : Linker.Gives c.pool raw (.ok f.code)
  pc : f.pc < f.code.length

variable {t t' : ClassTable} {classes : Resolved}

theorem frameRecord_ok {f : Frame} {r : FrameRecord} {c : ClassInfo} {m : Method} {raw : RawCode}
    (h : Stands t f c m raw) (hr : frameRecord t f = .ok r) :
    r = { className := c.name, name := m.name, descriptor := m.descriptor
          methodHash := m.structuralHash, pc := UInt32.ofNat f.pc
          locals := f.locals.toList, stack := f.stack.reverse, monitor := f.monitor } := by
  have hmethod : t.method? f.method = some m := by simp [ClassTable.method?, h.owner, h.method]
  have hname : className t f.method.owner = .ok c.name := by simp [className, h.owner]
  unfold frameRecord at hr
  rw [hname, hmethod] at hr
  exact (Except.ok.inj hr).symm

/-- The method of a frame where the image is restored. -/
structure Relocated (t t' : ClassTable) (f : Frame) (c : ClassInfo) (m m' : Method) (c' : ClassInfo)
    (id' : ClassId) : Prop where
  found : t'.get? id' = some c'
  declared : c'.declaration = c.declaration
  method : c'.methods[f.method.index]? = some m'
  alike : m'.declaration = m.declaration
  numbered : m'.id = ⟨id', f.method.index⟩

theorem frameMethod_ok {f : Frame} {r : FrameRecord} {c : ClassInfo} {m : Method} {raw : RawCode}
    (hregular : t'.Regular) (h : Stands t f c m raw) (hresolves : Resolves t t' classes f.method.owner)
    (hr : frameRecord t f = .ok r) :
    ∃ id' c' m', frameMethod t' classes r = .ok m' ∧ Relocated t t' f c m m' c' id' := by
  obtain ⟨d, id', hd, hfind, d', c', hd', hc', hdeclared⟩ := hresolves
  cases hd.symm.trans h.owner
  cases hd'.symm.trans h.owner
  have hmethods := ClassInfo.getElem?_methods hdeclared f.method.index
  rw [h.method] at hmethods
  obtain ⟨m', hm', halike⟩ := Option.map_eq_some_iff.1 hmethods
  have hnumber := (hregular.listed id' c' hc').2.numbered _ _ hm'
  refine ⟨id', c', m', ?_, hc', hdeclared, hm', halike, hnumber⟩
  rw [frameRecord_ok h hr]
  have hposition : c'.methodPosition? m.name m.descriptor = some f.method.index :=
    (ClassInfo.methodPosition?_congr hdeclared _ _).trans h.single
  have hdeclaredMethod : t'.declaredMethod? m.name m.descriptor id' = some ⟨id', f.method.index⟩ := by
    simp [ClassTable.declaredMethod?, ClassInfo.method?, hc', hposition, hm', hnumber]
  have hmethod : (t'.declaredMethod? m.name m.descriptor id').bind t'.method? = some m' := by
    rw [hdeclaredMethod]
    simp [ClassTable.method?, hc', hm']
  refine (except_bind_of_ok hfind).trans ?_
  rw [hmethod]
  rfl

theorem checkFrame_ok {f : Frame} {r : FrameRecord} {c : ClassInfo} {m : Method} {raw : RawCode}
    (hregular : t'.Regular) (h : Stands t f c m raw) (hresolves : Resolves t t' classes f.method.owner)
    (hr : frameRecord t f = .ok r) : checkFrame t' classes r = .ok () := by
  obtain ⟨id', c', m', hfound, hrelocated⟩ := frameMethod_ok hregular h hresolves hr
  have hhash := Method.structuralHash_congr hrelocated.alike
  have hrecord := congrArg FrameRecord.methodHash (frameRecord_ok h hr)
  refine except_bind_ok.2 ⟨m', hfound, ?_⟩
  rw [if_neg (not_not.2 (hhash.trans hrecord.symm))]
  rfl

/-- A frame of an image goes on where it stood. -/
theorem frame_ok {f : Frame} {r : FrameRecord} {c : ClassInfo} {m : Method} {raw : RawCode} {l : Linker}
    (hregular : l.classes.Regular) (h : Stands t f c m raw)
    (hresolves : Resolves t l.classes classes f.method.owner) (hr : frameRecord t f = .ok r) :
    ∃ f' l', frame classes r l = .ok f' l' ∧ l.Grows l' ∧ FrameAlike t l'.classes f f' := by
  obtain ⟨id', c', m', hfound, hrelocated⟩ := frameMethod_ok hregular h hresolves hr
  have hcode : m'.code? = some raw :=
    (congrArg MethodDefinition.code hrelocated.alike).trans h.code
  have hgives : Linker.Gives c.pool raw (Linker.link m'.id l).1 := by
    have hlink : Linker.Gives c'.pool raw (Linker.link m'.id l).1 :=
      Linker.link_gives hregular (by rw [hrelocated.numbered]; exact hrelocated.found)
        (by rw [hrelocated.numbered]; exact hrelocated.method) hcode
    rwa [ClassInfo.pool_congr hrelocated.declared] at hlink
  have hagrees := h.linked.agrees hgives
  cases hlinked : Linker.link m'.id l with
  | mk result l' =>
    rw [hlinked] at hagrees
    have hgrows : l.Grows l' := by
      have := Linker.link_grows m'.id l
      rwa [hlinked] at this
    cases hagrees with
    | @ok _ code halike =>
      have hrecord := frameRecord_ok h hr
      have hpc : r.pc.toNat < code.instructions.size := by
        have hlength := halike.length
        have hmod := Nat.mod_le f.pc (2 ^ 32)
        have hstands := h.pc
        simp only [hrecord, UInt32.toNat_ofNat', LinkedCode.length] at hlength hstands ⊢
        omega
      have hmethod : (ofExcept (frameMethod l.classes classes r) : RestoreM Method) l = .ok m' l :=
        ofExcept_ok.2 ⟨hfound, rfl⟩
      have hlink : linkMethod m'.id l = .ok (.ok code) l' := by
        unfold linkMethod
        rw [hlinked]
      let f' : Frame :=
        { method := m'.id, code := code, pc := r.pc.toNat, locals := r.locals.toArray
          stack := r.stack.reverse, monitor := r.monitor }
      have hrun : frame classes r l = .ok f' l' := by
        unfold frame
        rw [bind_get, bind_of_ok hmethod, bind_of_ok hlink]
        dsimp only
        rw [if_neg (Nat.not_le.2 hpc)]
        rfl
      have hmatches : Matches t l.classes f.method.owner m'.id.owner :=
        ⟨c, c', h.owner, by rw [hrelocated.numbered]; exact hrelocated.found, hrelocated.declared⟩
      refine ⟨f', l', hrun, hgrows, hmatches.keeps hgrows.classes.keeps, ?_, ?_, ?_, ?_, ?_, ?_⟩
      · simp [ClassTable.method?, h.owner, h.method]
      · show m'.id.index = _
        rw [hrelocated.numbered]
      · show UInt32.ofNat r.pc.toNat = _
        rw [UInt32.ofNat_toNat, hrecord]
      · show r.locals.toArray = _
        simp [hrecord]
      · show r.stack.reverse = _
        simp [hrecord]
      · show r.monitor = _
        simp [hrecord]

/-- A traversal whose steps succeed and keep what the steps before them found. -/
theorem mapM_grows {α β γ : Type} {f : α → RestoreM β} {I : Linker → Prop}
    {P : ClassTable → γ → β → Prop} {R : γ → α → Prop} (hI : ∀ {l l' : Linker}, I l → l.Grows l' → I l')
    (hP : ∀ {t t' : ClassTable} {c b}, P t c b → t.Grows t' → P t' c b)
    (hf : ∀ {l : Linker} {c a}, I l → R c a →
      ∃ b l', f a l = .ok b l' ∧ l.Grows l' ∧ P l'.classes c b)
    {cs : List γ} {as : List α} (h : List.Forall₂ R cs as) {l : Linker} (hl : I l) :
    ∃ bs l', as.mapM f l = .ok bs l' ∧ l.Grows l' ∧ List.Forall₂ (P l'.classes) cs bs := by
  induction h generalizing l with
  | nil => exact ⟨[], l, rfl, .refl l, .nil⟩
  | cons hca _ ih =>
    obtain ⟨b, l₁, hfirst, hgrows₁, hb⟩ := hf hl hca
    obtain ⟨bs, l₂, hrest, hgrows₂, hbs⟩ := ih (hI hl hgrows₁)
    refine ⟨b :: bs, l₂, ?_, hgrows₁.trans hgrows₂, .cons (hP hb hgrows₂.classes) hbs⟩
    rw [List.mapM_cons, bind_of_ok hfirst, bind_of_ok hrest]
    rfl

/-- A linker in which the classes of an image have been found. -/
structure Prepared (t : ClassTable) (ids : List ClassId) (classes : Resolved) (l : Linker) : Prop where
  counterparts : Counterparts t l.classes
  resolves : ∀ id ∈ ids, Resolves t l.classes classes id

theorem Prepared.grows {ids : List ClassId} {l l' : Linker} (h : Prepared t ids classes l)
    (hg : l.Grows l') : Prepared t ids classes l' :=
  ⟨h.counterparts.grows hg.classes, fun id hid => (h.resolves id hid).grows hg.classes⟩

/-- A thread that can be restored: its frames stand in bodies of the mentioned classes, and the time
it has left fits on the clock. -/
structure Resumable (t : ClassTable) (ids : List ClassId) (now now' : UInt64) (a : Thread FrameStack) :
    Prop where
  alive : a.isAlive = true
  frames : ∀ f ∈ a.stack, f.method.owner ∈ ids ∧ ∃ c m raw, Stands t f c m raw
  clock : ∀ millis, stateRecord now a.state = .detachedFor millis →
    now'.toNat + millis.toNat < UInt64.size

/-- A detached thread keeps the time it had left. -/
theorem stateRecord_threadState {now now' : UInt64} {s : ThreadState}
    (hclock : ∀ millis, stateRecord now s = .detachedFor millis → now'.toNat + millis.toNat < UInt64.size) :
    stateRecord now' (threadState now' (stateRecord now s)) = stateRecord now s := by
  cases hrecord : stateRecord now s with
  | ready => rfl
  | detached => rfl
  | detachedFor millis =>
    have hfits := hclock millis hrecord
    have hsum : (now' + millis).toNat = now'.toNat + millis.toNat := by
      rw [UInt64.toNat_add, Nat.mod_eq_of_lt hfits]
    have hle : now' ≤ now' + millis := by
      rw [UInt64.le_iff_toNat_le, hsum]
      exact Nat.le_add_right _ _
    show StateRecord.detachedFor _ = _
    rw [Scheduler.deadlineAfter, if_pos hfits, if_pos hle]
    refine congrArg StateRecord.detachedFor (UInt64.toNat_inj.1 ?_)
    rw [UInt64.toNat_sub_of_le _ _ hle, hsum, Nat.add_sub_cancel_left]

theorem state_of_alive {now now' : UInt64} {a : Thread FrameStack} (h : a.isAlive = true) :
    threadState now' (stateRecord now a.state) = .ready ↔ a.state = .ready := by
  unfold Thread.isAlive at h
  cases hstate : a.state with
  | terminated => simp [hstate] at h
  | ready => exact ⟨fun _ => rfl, fun _ => rfl⟩
  | detached => exact ⟨nofun, nofun⟩
  | detachedUntil deadline => exact ⟨nofun, nofun⟩

theorem isAlive_threadState {now : UInt64} (s : StateRecord) : threadState now s ≠ .terminated := by
  cases s <;> simp [threadState, Scheduler.detachedState]

/-- A thread that goes on as another one did. -/
structure Resumed (t t' : ClassTable) (now now' : UInt64) (a b : Thread FrameStack) : Prop
    extends ThreadAlike t t' now now' a b where
  ordinary : b.synthetic = false
  alive : b.isAlive = true
  ready : b.state = .ready ↔ a.state = .ready

theorem Resumed.grows {t'' : ClassTable} {now now' : UInt64} {a b : Thread FrameStack}
    (h : Resumed t t' now now' a b) (hg : t'.Grows t'') : Resumed t t'' now now' a b :=
  { h with toThreadAlike := h.toThreadAlike.keeps hg.keeps }

theorem thread_ok {ids : List ClassId} {l : Linker} {now now' : UInt64} {a : Thread FrameStack}
    {r : ThreadRecord} (hl : Prepared t ids classes l) (h : Resumable t ids now now' a)
    (hr : threadRecord t now a = .ok r) :
    ∃ b l', thread classes now' r l = .ok b l' ∧ l.Grows l' ∧
      Resumed t l'.classes now now' a b := by
  obtain ⟨records, hrecords, heq⟩ := except_bind_ok.1 hr
  cases heq
  have hframes := forall₂_imp_mem (mapM_ok.1 hrecords)
    (S := fun f r => frameRecord t f = .ok r ∧ f.method.owner ∈ ids ∧ ∃ c m raw, Stands t f c m raw)
    fun f r hf _ hrecord => ⟨hrecord, h.frames f (by simpa using hf)⟩
  obtain ⟨frames, l', hrun, hgrows, halike⟩ := mapM_grows (P := fun t' f f' => FrameAlike t t' f f')
    Prepared.grows (fun hf hg => hf.keeps hg.keeps) (fun {l f r} hl hf => by
      obtain ⟨hrecord, howner, c, m, raw, hstands⟩ := hf
      exact frame_ok hl.counterparts.regular' hstands (hl.resolves _ howner) hrecord) hframes hl
  refine ⟨_, l', (bind_of_ok hrun).trans rfl, hgrows, ⟨rfl, rfl, ?_, ?_, rfl, rfl, rfl, rfl⟩, rfl, ?_, ?_⟩
  · simpa using List.rel_reverse halike
  · exact stateRecord_threadState h.clock
  · simpa [Thread.isAlive] using isAlive_threadState _
  · exact state_of_alive h.alive

theorem threads_ok {ids : List ClassId} {l : Linker} {now now' : UInt64} {as : List (Thread FrameStack)}
    {rs : List ThreadRecord} (hl : Prepared t ids classes l) (h : ∀ a ∈ as, Resumable t ids now now' a)
    (hrs : List.Forall₂ (fun a r => threadRecord t now a = .ok r) as rs) :
    ∃ bs l', rs.mapM (thread classes now') l = .ok bs l' ∧ l.Grows l' ∧
      List.Forall₂ (Resumed t l'.classes now now') as bs := by
  have hresumable := forall₂_imp_mem hrs
    (S := fun a r => threadRecord t now a = .ok r ∧ Resumable t ids now now' a)
    fun a r ha _ hr => ⟨hr, h a ha⟩
  exact mapM_grows (P := fun t' a b => Resumed t t' now now' a b) Prepared.grows Resumed.grows
    (fun hl hr => thread_ok hl hr.2 hr.1) hresumable hl

end ClassMachine.Snapshot

/-!
Heap, static fields and rotation built anew from an image. Listings are in the order of handles,
classes and threads, so what was listed from one machine is listed from the other in the same order.
-/
namespace ClassMachine.Snapshot
open Stateful ClassMachine.Lists

/-- Codecs that give every companion they can write back as it was. -/
def Lawful (codecs : CodecRegistry) : Prop :=
  ∀ owner codec c bytes, codecs.find owner = .ok codec → codec.encode owner c = .ok bytes →
    codec.decode owner bytes = .ok c

section Objects

variable {t t' : ClassTable} {classes : Resolved} {codecs : CodecRegistry}

theorem className_of_resolves {id : ClassId} {name : String} (h : Resolves t t' classes id)
    (hname : className t id = .ok name) :
    ∃ id', classes.find name = .ok id' ∧ Matches t t' id id' := by
  obtain ⟨c, id', hc, hfind, hmatches⟩ := h
  simp only [className, hc, Except.ok.injEq] at hname
  subst hname
  exact ⟨id', hfind, hmatches⟩

theorem payload_ok {owner : String} {p : Payload} {record : PayloadRecord} (hcodecs : Lawful codecs)
    (hmirror : ∀ id, p = .mirror id → Resolves t t' classes id)
    (h : payloadRecord t codecs owner p = .ok record) :
    ∃ p', payload classes codecs owner record = .ok p' ∧ PayloadAlike t t' p p' := by
  cases p with
  | none =>
    cases h
    exact ⟨.none, rfl, .same (by simp)⟩
  | array kind elements =>
    cases h
    exact ⟨.array kind elements, rfl, .same (by simp)⟩
  | str text =>
    cases h
    exact ⟨.str text, rfl, .same (by simp)⟩
  | mirror id =>
    obtain ⟨name, hname, rfl⟩ := except_map_ok.1 h
    obtain ⟨id', hfind, hmatches⟩ := className_of_resolves (hmirror id rfl) hname
    exact ⟨.mirror id', congrArg (Except.map Payload.mirror) hfind, .mirror hmatches⟩
  | companion c =>
    obtain ⟨codec, hcodec, h⟩ := except_bind_ok.1 h
    obtain ⟨bytes, hbytes, heq⟩ := except_bind_ok.1 h
    cases heq
    refine ⟨.companion c, ?_, .same (by simp)⟩
    exact except_bind_ok.2 ⟨codec, hcodec, except_bind_ok.2 ⟨c, hcodecs _ _ _ _ hcodec hbytes, rfl⟩⟩

/-- A recorded object is added under its handle. -/
theorem insertObject_ok {h : Heap} {r : Ref} {o : Object} {record : ObjectRecord} (hcodecs : Lawful codecs)
    (htype : Resolves t t' classes o.type)
    (hmirror : ∀ id, o.payload = .mirror id → Resolves t t' classes id)
    (hrecord : objectRecord t codecs r o = .ok record) (hr : r.isNull = false)
    (hfresh : h.contains r = false) :
    ∃ h' o', insertObject classes codecs h record = .ok h' ∧ ObjectAlike t t' o o' ∧
      h'.objects = h.objects.insert r.handle o' ∧ h'.interned = h.interned ∧ h'.capacity = h.capacity := by
  obtain ⟨owner, howner, hrecord⟩ := except_bind_ok.1 hrecord
  obtain ⟨written, hwritten, heq⟩ := except_bind_ok.1 hrecord
  cases heq
  obtain ⟨id', hfind, hmatches⟩ := className_of_resolves htype howner
  obtain ⟨p', hread, halike⟩ := payload_ok hcodecs hmirror hwritten
  let o' : Object := { Object.ofPayload id' o.fields.toList p' with monitor := o.monitor }
  have ho' : ObjectAlike t t' o o' := ⟨hmatches, rfl, rfl, halike⟩
  let h₁ : Heap :=
    { h with
      objects := h.objects.insert r.handle o'
      nextHandle := if h.nextHandle ≤ r.handle then Heap.successor r.handle else h.nextHandle
      used := h.used + o'.weight }
  have hinsert : h.insertAt? r o' = some h₁ := by
    unfold Heap.insertAt?
    rw [if_neg (by simp [hr, hfresh])]
  have hrun : insertObject classes codecs h ⟨r, owner, o.monitor, o.fields.toList, written⟩ =
      .ok ((o'.mirrored?.map fun mirrored => h₁.registerMirror mirrored r).getD h₁) := by
    refine (except_bind_of_ok hfind).trans ((except_bind_of_ok hread).trans ?_)
    dsimp only
    rw [hinsert]
    cases o'.mirrored? <;> rfl
  rw [hrun]
  cases o'.mirrored? with
  | some mirrored => exact ⟨_, o', rfl, ho', rfl, rfl, rfl⟩
  | none => exact ⟨_, o', rfl, ho', rfl, rfl, rfl⟩

/-- Recorded objects are added one after the other. -/
theorem insertObjects_ok {entries : List (Ref × Object)} {records : List ObjectRecord} {h : Heap}
    (hcodecs : Lawful codecs)
    (hclasses : ∀ p ∈ entries, Resolves t t' classes p.2.type ∧
      ∀ id, p.2.payload = .mirror id → Resolves t t' classes id)
    (hrecords : List.Forall₂ (fun p record => objectRecord t codecs p.1 p.2 = .ok record) entries records)
    (hnull : ∀ p ∈ entries, p.1.isNull = false) (hfresh : ∀ p ∈ entries, h.contains p.1 = false)
    (hdistinct : (entries.map fun p => p.1.handle).Nodup) :
    ∃ (h' : Heap) (entries' : List (Ref × Object)),
      records.foldlM (insertObject classes codecs) h = .ok h' ∧
      List.Forall₂ (EntryAlike t t') entries entries' ∧
      h'.objects = (entries'.map fun p => (p.1.handle, p.2)).foldl (fun m p => m.insert p.1 p.2) h.objects ∧
      h'.interned = h.interned ∧ h'.capacity = h.capacity := by
  induction hrecords generalizing h with
  | nil => exact ⟨h, [], rfl, .nil, rfl, rfl, rfl⟩
  | @cons p record entries records hrecord _ ih =>
    obtain ⟨r, o⟩ := p
    obtain ⟨htype, hmirror⟩ := hclasses (r, o) (by simp)
    obtain ⟨h₁, o', hfirst, ho', hobjects, hinterned, hcapacity⟩ := insertObject_ok hcodecs htype hmirror
      hrecord (hnull (r, o) (by simp)) (hfresh (r, o) (by simp))
    obtain ⟨hnew, hdistinct⟩ := List.nodup_cons.1 hdistinct
    have hfresh₁ : ∀ p ∈ entries, h₁.contains p.1 = false := by
      intro p hp
      have hne : r.handle ≠ p.1.handle := fun heq => hnew (List.mem_map.2 ⟨p, hp, heq.symm⟩)
      have hold : h.objects.contains p.1.handle = false := hfresh p (by simp [hp])
      simp [Heap.contains, hobjects, Std.ExtTreeMap.contains_insert, hold, hne]
    obtain ⟨h₂, entries', hrest, halike, hobjects₂, hinterned₂, hcapacity₂⟩ := ih
      (fun p hp => hclasses p (by simp [hp])) (fun p hp => hnull p (by simp [hp])) hfresh₁ hdistinct
    refine ⟨h₂, (r, o') :: entries', ?_, .cons ⟨rfl, ho'⟩ halike, ?_, hinterned₂.trans hinterned,
      hcapacity₂.trans hcapacity⟩
    · exact (except_bind_of_ok hfirst).trans hrest
    · rw [hobjects₂, hobjects]
      rfl

end Objects

section Interned

/-- Interned strings are listed in the order of their handles. -/
theorem internedStrings_ascending (h : Heap) :
    h.internedStrings.Pairwise fun a b => a.2.handle ≤ b.2.handle := by
  unfold Heap.internedStrings
  refine (List.pairwise_mergeSort ?_ ?_ _).imp ?_
  · intro a b c hab hbc
    simp only [Bool.or_eq_true, Bool.and_eq_true, decide_eq_true_eq, beq_iff_eq] at *
    grind
  · intro a b
    simp only [Bool.or_eq_true, Bool.and_eq_true, decide_eq_true_eq, beq_iff_eq] at *
    grind
  · intro a b hab
    simp only [Bool.or_eq_true, Bool.and_eq_true, decide_eq_true_eq, beq_iff_eq] at *
    grind

/-- The listing is a matter of the strings where no two of them share a handle. -/
theorem internedStrings_congr {h h' : Heap} (heq : h'.interned = h.interned)
    (hdistinct : ∀ (s s' : String) (r : Ref), h.interned[s]? = some r → h.interned[s']? = some r → s = s') :
    h'.internedStrings = h.internedStrings := by
  have hmem : ∀ {k : Heap} {p : String × Ref}, k.interned = h.interned → p ∈ k.internedStrings →
      h.interned[p.1]? = some p.2 := by
    intro k p hk hp
    rw [← hk]
    exact Std.ExtTreeMap.mem_toList_iff_getElem?_eq_some.1 (k.internedStrings_perm.mem_iff.1 hp)
  refine List.Perm.eq_of_pairwise ?_ (internedStrings_ascending h') (internedStrings_ascending h) ?_
  · rintro ⟨s, r⟩ ⟨s', r'⟩ ha hb hab hba
    have hr : r = r' := by
      cases r
      cases r'
      exact congrArg Ref.mk (UInt32.le_antisymm hab hba)
    subst hr
    exact congrArg (·, r) (hdistinct s s' r (hmem heq ha) (hmem rfl hb))
  · exact h'.internedStrings_perm.trans (heq ▸ h.internedStrings_perm.symm)

theorem foldl_intern (strings : List (String × Ref)) (h : Heap) :
    let h' := strings.foldl (fun h (text, r) => h.intern text r) h
    h'.interned = strings.foldl (fun m p => m.insert p.1 p.2) h.interned ∧ h'.objects = h.objects ∧
      h'.capacity = h.capacity := by
  induction strings generalizing h with
  | nil => exact ⟨rfl, rfl, rfl⟩
  | cons p strings ih => exact ih (h.intern p.1 p.2)

/-- Interning what is listed gives the interned strings back. -/
theorem foldl_intern_listed {h₀ h : Heap} (hempty : h₀.interned = ∅) :
    (h.internedStrings.foldl (fun h (text, r) => h.intern text r) h₀).interned = h.interned := by
  have hkeys : (h.internedStrings.map (·.1)).Nodup := by
    rw [(h.internedStrings_perm.map (·.1)).nodup_iff, Std.ExtTreeMap.map_fst_toList_eq_keys]
    exact Std.ExtTreeMap.nodup_keys
  rw [(foldl_intern _ h₀).1, hempty]
  refine Std.ExtTreeMap.ext_getElem? fun k => Option.ext fun r => ?_
  rw [← Std.ExtTreeMap.mem_toList_iff_getElem?_eq_some (t := h.interned),
    ← h.internedStrings_perm.mem_iff]
  exact Maps.getElem?_ofEntries hkeys

end Interned

section Heap

theorem handles_ascending (h : Heap) :
    h.toList.Pairwise fun p q => compare p.1.handle q.1.handle = .lt := by
  unfold Heap.toList
  rw [List.pairwise_map]
  exact Std.ExtTreeMap.ordered_keys_toList

theorem mem_heap_toList {h : Heap} {p : Ref × Object} : p ∈ h.toList ↔ h.get? p.1 = some p.2 := by
  unfold Heap.toList Heap.get?
  rw [List.mem_map, ← Std.ExtTreeMap.mem_toList_iff_getElem?_eq_some]
  constructor
  · rintro ⟨q, hq, rfl⟩
    exact hq
  · exact fun hp => ⟨_, hp, rfl⟩

theorem heap_ok {m : Machine} {t' : ClassTable} {classes : Resolved} {codecs : CodecRegistry} {i : Image}
    (config : Config) (hcodecs : Lawful codecs) (hi : Captures codecs m i)
    (hclasses : ∀ id ∈ mentionedClasses m, Resolves m.classes t' classes id)
    (hnull : ∀ r o, m.heap.get? r = some o → r.isNull = false)
    (hinterned : ∀ (s s' : String) (r : Ref), m.heap.interned[s]? = some r →
      m.heap.interned[s']? = some r → s = s') :
    ∃ h, heap classes codecs config i = .ok h ∧
      List.Forall₂ (EntryAlike m.classes t') m.heap.toList h.toList ∧
      h.internedStrings = m.heap.internedStrings ∧
      h.capacity = (max i.heapCapacity config.heapCapacity).toNat := by
  let empty : Heap :=
    { capacity := (max i.heapCapacity config.heapCapacity).toNat, overflow := config.overflow }
  have hmentioned : ∀ p ∈ m.heap.toList, ∀ id, id = p.2.type ∨ p.2.payload = .mirror id →
      Resolves m.classes t' classes id := by
    intro p hp id hid
    refine hclasses id (List.mem_append_left _ (List.mem_append_left _ (List.mem_flatMap.2 ⟨p, hp, ?_⟩)))
    rcases hid with rfl | hmirror
    · simp
    · simp [Object.mirrored?, hmirror]
  have hdistinct : (m.heap.toList.map fun p => p.1.handle).Nodup := by
    rw [List.Nodup, List.pairwise_map]
    refine (handles_ascending m.heap).imp fun {p q} hpq heq => ?_
    simp [heq] at hpq
  obtain ⟨h, entries, hrun, halike, hobjects, hstrings, hcapacity⟩ := insertObjects_ok (h := empty) hcodecs
    (fun p hp => ⟨hmentioned p hp _ (.inl rfl), fun id hid => hmentioned p hp id (.inr hid)⟩)
    hi.objects (fun p hp => hnull p.1 p.2 (mem_heap_toList.1 hp))
    (fun p _ => Std.ExtTreeMap.contains_empty) hdistinct
  let h' := i.interned.foldl (fun h (text, r) => h.intern text r) h
  have hfold := foldl_intern i.interned h
  have hinterned' : h'.interned = m.heap.interned := by
    show (i.interned.foldl _ h).interned = _
    rw [hi.interned]
    exact foldl_intern_listed hstrings
  have hlist : h'.toList = entries := by
    have hordered : (entries.map fun p => (p.1.handle, p.2)).Pairwise fun a b => compare a.1 b.1 = .lt := by
      refine List.pairwise_map.2 (pairwise_of_forall₂ halike (handles_ascending m.heap) ?_)
      intro p q p' q' _ _ hp hq hlt
      rwa [hp.1, hq.1]
    have htoList : h'.objects.toList = entries.map fun p => (p.1.handle, p.2) := by
      rw [show h'.objects = h.objects from hfold.2.1, hobjects]
      exact Maps.toList_ofEntries hordered
    unfold Heap.toList
    rw [htoList, List.map_map]
    exact List.map_id _
  refine ⟨h', except_bind_of_ok hrun, hlist ▸ halike, internedStrings_congr hinterned' hinterned,
    hfold.2.2.trans hcapacity⟩

end Heap

section Statics

/-- What a class of the source has in its static fields, next to the class it is restored for. -/
def StaticsAlike (t t' : ClassTable) (s : Statics) (id : ClassId) (p : ClassId × List Value) : Prop :=
  Matches t t' id p.1 ∧ s.slots? id = some p.2.toArray

theorem staticFields_ok {m : Machine} {t' : ClassTable} {classes : Resolved} {codecs : CodecRegistry}
    {i : Image} (hi : Captures codecs m i)
    (hclasses : ∀ id ∈ mentionedClasses m, Resolves m.classes t' classes id) :
    ∃ fields, staticFields classes i = .ok fields ∧
      List.Forall₂ (StaticsAlike m.classes t' m.statics) m.statics.classes fields := by
  refine exists_mapM hi.statics fun id record hid hrecord => ?_
  obtain ⟨name, hname, heq⟩ := except_bind_ok.1 hrecord
  cases heq
  have hmentioned : id ∈ mentionedClasses m := List.mem_append_left _ (List.mem_append_right _ hid)
  obtain ⟨id', hfind, hmatches⟩ := className_of_resolves (hclasses id hmentioned) hname
  obtain ⟨values, hvalues⟩ : ∃ values, m.statics.slots? id = some values :=
    Option.isSome_iff_exists.1 (Std.ExtTreeMap.mem_iff_isSome_getElem?.1 (Std.ExtTreeMap.mem_keys.1 hid))
  refine ⟨(id', values.toList), ?_, hmatches, by simpa using hvalues⟩
  refine (except_bind_of_ok hfind).trans ?_
  simp [hvalues]
  rfl

theorem restoreStatics {fields : List (ClassId × List Value)}
    (h : fields.Pairwise fun p q => p.1 < q.1) :
    let s : Statics := fields.foldl (fun s (id, values) => s.restore id values) {}
    s.classes = fields.map (·.1) ∧ ∀ p ∈ fields, s.slots? p.1 = some p.2.toArray := by
  intro s
  let entries := fields.map fun p => (p.1, p.2.toArray)
  have hfold : ∀ (fields : List (ClassId × List Value)) (s : Statics),
      (fields.foldl (fun s (id, values) => s.restore id values) s).slots =
        (fields.map fun p => (p.1, p.2.toArray)).foldl (fun m p => m.insert p.1 p.2) s.slots := by
    intro fields
    induction fields with
    | nil => exact fun _ => rfl
    | cons p fields ih => exact fun s => ih (s.restore p.1 p.2)
  have hordered : entries.Pairwise fun a b => compare a.1 b.1 = .lt :=
    List.pairwise_map.2 (h.imp fun hlt => Nat.compare_eq_lt.2 hlt)
  have htoList : s.slots.toList = entries := by
    rw [show s.slots = _ from hfold fields {}]
    exact Maps.toList_ofEntries hordered
  constructor
  · show s.slots.keys = _
    rw [← Std.ExtTreeMap.map_fst_toList_eq_keys, htoList, List.map_map]
    rfl
  · intro p hp
    refine Std.ExtTreeMap.mem_toList_iff_getElem?_eq_some.1 ?_
    rw [htoList]
    exact List.mem_map.2 ⟨p, hp, rfl⟩

end Statics

section Threads

theorem inRotation_eq (ready : List ThreadId) (threads : List (Thread FrameStack)) :
    let byPlace (ts : List (Thread FrameStack)) :=
      ts.mergeSort fun a b => ready.idxOf a.id ≤ ready.idxOf b.id
    inRotation ready threads = byPlace (threads.filter fun t => ¬t.state = .ready) ++
      byPlace (threads.filter fun t => t.state = .ready) := by
  unfold inRotation
  rw [List.partition_eq_filter_filter]
  simp [Function.comp_def]

theorem inRotation_perm (ready : List ThreadId) (threads : List (Thread FrameStack)) :
    (inRotation ready threads).Perm threads := by
  rw [inRotation_eq]
  refine ((List.mergeSort_perm _ _).append (List.mergeSort_perm _ _)).trans ?_
  have h := List.filter_append_perm (fun t : Thread FrameStack => decide ¬t.state = .ready) threads
  simpa using h

/-- Places in a list without repetitions ascend. -/
theorem pairwise_idxOf {ready : List ThreadId} (h : ready.Nodup) :
    ready.Pairwise fun a b => ready.idxOf a ≤ ready.idxOf b := by
  rw [List.pairwise_iff_getElem]
  intro i j hi hj hij
  rw [h.idxOf_getElem, h.idxOf_getElem]
  exact Nat.le_of_lt hij

/-- The threads that may run stand in the order of the rotation. -/
theorem ready_inRotation {ready : List ThreadId} {threads : List (Thread FrameStack)}
    (hready : ready.Nodup) (hdistinct : (threads.map (·.id)).Nodup)
    (hids : ∀ id, id ∈ ready ↔ ∃ t ∈ threads, t.id = id ∧ t.state = .ready) :
    ((inRotation ready threads).filter fun t => t.state = .ready).map (·.id) = ready := by
  let byPlace (ts : List (Thread FrameStack)) :=
    ts.mergeSort fun a b => ready.idxOf a.id ≤ ready.idxOf b.id
  let running := threads.filter fun t => t.state = .ready
  have hperm : ∀ ts, (byPlace ts).Perm ts := fun ts => List.mergeSort_perm _ _
  have hfilter : (inRotation ready threads).filter (fun t => t.state = .ready) = byPlace running := by
    rw [inRotation_eq, List.filter_append, List.filter_eq_nil_iff.2, List.filter_eq_self.2, List.nil_append]
    · intro t ht
      simpa using (List.mem_filter.1 ((hperm _).mem_iff.1 ht)).2
    · intro t ht
      simpa using (List.mem_filter.1 ((hperm _).mem_iff.1 ht)).2
  rw [hfilter]
  have hordered : ((byPlace running).map (·.id)).Pairwise fun a b => ready.idxOf a ≤ ready.idxOf b := by
    rw [List.pairwise_map]
    refine (List.pairwise_mergeSort ?_ ?_ _).imp (by simp)
    · intro a b c hab hbc
      simp only [decide_eq_true_eq] at *
      omega
    · intro a b
      simp only [Bool.or_eq_true, decide_eq_true_eq]
      omega
  have hmem : ∀ id, id ∈ (byPlace running).map (·.id) ↔ id ∈ ready := by
    intro id
    rw [hids, ((hperm running).map (·.id)).mem_iff]
    simp only [List.mem_map, running, List.mem_filter, decide_eq_true_eq]
    constructor
    · rintro ⟨t, ⟨ht, hstate⟩, rfl⟩
      exact ⟨t, ht, rfl, hstate⟩
    · rintro ⟨t, ht, rfl, hstate⟩
      exact ⟨t, ⟨ht, hstate⟩, rfl⟩
  refine List.Perm.eq_of_pairwise ?_ hordered (pairwise_idxOf hready) ?_
  · intro a b ha _ hab hba
    exact (List.idxOf_inj ((hmem a).1 ha)).1 (Nat.le_antisymm hab hba)
  · refine (List.perm_ext_iff_of_nodup ?_ hready).2 hmem
    rw [((hperm running).map (·.id)).nodup_iff]
    exact hdistinct.sublist (List.filter_sublist.map _)

theorem foldl_insert (threads : List (Thread FrameStack)) (s : Scheduler FrameStack) :
    let s' := threads.foldl Scheduler.insert s
    s'.threads = (threads.map fun t => (t.id, t)).foldl (fun m p => m.insert p.1 p.2) s.threads ∧
      s'.ready = s.ready ++ (threads.filter fun t => t.state = .ready).map (·.id) ∧
      s'.current = s.current ∧ s'.now = s.now := by
  induction threads generalizing s with
  | nil => simp
  | cons t threads ih =>
    obtain ⟨hthreads, hready, hcurrent, hnow⟩ := ih (s.insert t)
    refine ⟨hthreads, hready.trans ?_, hcurrent, hnow⟩
    by_cases hstate : t.state = .ready
    · simp [Scheduler.insert, hstate]
    · simp [Scheduler.insert, hstate]

theorem get?_foldl_insert (threads : List (Thread FrameStack)) (s : Scheduler FrameStack) {t : ThreadId}
    {r : Thread FrameStack} (h : (threads.foldl Scheduler.insert s).get? t = some r) :
    r ∈ threads ∨ s.get? t = some r := by
  induction threads generalizing s with
  | nil => exact .inr h
  | cons u threads ih =>
    rcases ih (s.insert u) h with hmem | hget
    · exact .inl (List.mem_cons_of_mem _ hmem)
    · rw [Scheduler.get?_insert] at hget
      split at hget
      · cases hget
        exact .inl List.mem_cons_self
      · exact .inr hget

/-- Threads that were put in are listed in the order of their numbers. -/
theorem toList_foldl_insert {threads rotated : List (Thread FrameStack)} {s : Scheduler FrameStack}
    (hempty : s.threads = ∅) (hordered : threads.Pairwise fun a b => compare a.id b.id = .lt)
    (hperm : rotated.Perm threads) : (rotated.foldl Scheduler.insert s).toList = threads := by
  have hdistinct : (rotated.map (·.id)).Nodup := by
    rw [(hperm.map _).nodup_iff, List.Nodup, List.pairwise_map]
    refine hordered.imp fun {a b} hab heq => ?_
    simp [heq] at hab
  have hkeys : ((rotated.map fun t => (t.id, t)).map (·.1)).Nodup := by
    rw [List.map_map]
    exact hdistinct
  have htoList : (rotated.foldl Scheduler.insert s).threads.toList = threads.map fun t => (t.id, t) := by
    refine Maps.toList_eq_of_ordered (List.pairwise_map.2 hordered) fun k v => ?_
    rw [(foldl_insert rotated s).1, hempty]
    refine (Maps.getElem?_ofEntries hkeys).trans ?_
    rw [(hperm.map _).mem_iff]
  unfold Scheduler.toList
  rw [Maps.values_eq_map_toList, htoList, List.map_map]
  exact List.map_id _

end Threads

end ClassMachine.Snapshot
