import ClassMachine.Proofs.Link.Declarations
import ClassMachine.Proofs.Lists
import ClassMachine.Snapshot.Capture

/-!
Machines an image cannot tell apart. Two machines may number the same classes in different ways;
where everything else is the same, so are their images.
-/
namespace ClassMachine.Snapshot
open Stateful ClassMachine.Lists

/-- A class of the second table that is declared as one of the first. -/
def Matches (t t' : ClassTable) (id id' : ClassId) : Prop :=
  ∃ c c', t.get? id = some c ∧ t'.get? id' = some c' ∧ c'.declaration = c.declaration

inductive PayloadAlike (t t' : ClassTable) : Payload → Payload → Prop
  | mirror {id id' : ClassId} (h : Matches t t' id id') : PayloadAlike t t' (.mirror id) (.mirror id')
  | same {p : Payload} (h : ∀ id, p ≠ .mirror id) : PayloadAlike t t' p p

structure ObjectAlike (t t' : ClassTable) (o o' : Object) : Prop where
  type : Matches t t' o.type o'.type
  monitor : o'.monitor = o.monitor
  fields : o'.fields = o.fields
  payload : PayloadAlike t t' o.payload o'.payload

/-- The same object under the same handle. -/
def EntryAlike (t t' : ClassTable) (p p' : Ref × Object) : Prop := p'.1 = p.1 ∧ ObjectAlike t t' p.2 p'.2

structure FrameAlike (t t' : ClassTable) (f f' : Frame) : Prop where
  owner : Matches t t' f.method.owner f'.method.owner
  known : (t.method? f.method).isSome
  method : f'.method.index = f.method.index
  pc : UInt32.ofNat f'.pc = UInt32.ofNat f.pc
  locals : f'.locals = f.locals
  stack : f'.stack = f.stack
  monitor : f'.monitor = f.monitor

/-- The same thread on two clocks. -/
structure ThreadAlike (t t' : ClassTable) (now now' : UInt64) (a b : Thread FrameStack) : Prop where
  id : b.id = a.id
  object : b.object = a.object
  stack : List.Forall₂ (FrameAlike t t') a.stack b.stack
  state : stateRecord now' b.state = stateRecord now a.state
  interrupted : b.interrupted = a.interrupted
  interruptible : b.interruptible = a.interruptible
  pending : b.pending = a.pending
  joiners : b.joiners = a.joiners

section Keeps

variable {t t' t'' : ClassTable} (hk : t'.Keeps t'')
include hk

theorem Matches.keeps {id id' : ClassId} (h : Matches t t' id id') : Matches t t'' id id' := by
  obtain ⟨c, c', hc, hc', hd⟩ := h
  obtain ⟨c'', hc'', hd'⟩ := hk id' c' hc'
  exact ⟨c, c'', hc, hc'', hd'.trans hd⟩

theorem EntryAlike.keeps {p p' : Ref × Object} (h : EntryAlike t t' p p') : EntryAlike t t'' p p' := by
  have hpayload := h.2.payload
  refine ⟨h.1, h.2.type.keeps hk, h.2.monitor, h.2.fields, ?_⟩
  generalize p.2.payload = q at hpayload
  generalize p'.2.payload = q' at hpayload
  cases hpayload with
  | mirror hmatches => exact .mirror (hmatches.keeps hk)
  | same hne => exact .same hne

theorem FrameAlike.keeps {f f' : Frame} (h : FrameAlike t t' f f') : FrameAlike t t'' f f' :=
  { h with owner := h.owner.keeps hk }

theorem ThreadAlike.keeps {now now' : UInt64} {a b : Thread FrameStack}
    (h : ThreadAlike t t' now now' a b) : ThreadAlike t t'' now now' a b :=
  { h with stack := h.stack.imp fun _ _ hf => hf.keeps hk }

end Keeps

/-- Between slices, the second machine stands where the first one stands. -/
structure Alike (m m' : Machine) : Prop where
  objects : List.Forall₂ (EntryAlike m.classes m'.classes) m.heap.toList m'.heap.toList
  interned : m'.heap.internedStrings = m.heap.internedStrings
  statics : List.Forall₂ (fun id id' => Matches m.classes m'.classes id id' ∧
    m'.statics.slots? id' = m.statics.slots? id) m.statics.classes m'.statics.classes
  threads : List.Forall₂ (ThreadAlike m.classes m'.classes m.scheduler.now m'.scheduler.now)
    (liveThreads m) (liveThreads m')
  ready : m'.scheduler.ready = m.scheduler.ready
  outOfMemory : m'.outOfMemory = m.outOfMemory
  resting : m'.scheduler.current = none
  ordinary : ∀ t ∈ m'.scheduler.toList, (t.synthetic && t.isAlive) = false

section Records

variable {t t' : ClassTable}

theorem className_congr {id id' : ClassId} (h : Matches t t' id id') :
    className t' id' = className t id := by
  obtain ⟨c, c', hc, hc', hdeclared⟩ := h
  unfold className
  rw [hc, hc']
  exact congrArg (fun d : ClassDefinition => Except.ok d.name) hdeclared

theorem payloadRecord_congr {codecs : CodecRegistry} {owner : String} {p p' : Payload}
    (h : PayloadAlike t t' p p') : payloadRecord t' codecs owner p' = payloadRecord t codecs owner p := by
  cases h with
  | mirror hmatches => exact congrArg (Except.map PayloadRecord.mirror) (className_congr hmatches)
  | same hne =>
    cases p with
    | mirror id => exact absurd rfl (hne id)
    | _ => rfl

theorem objectRecord_congr {codecs : CodecRegistry} {r : Ref} {o o' : Object}
    (h : ObjectAlike t t' o o') : objectRecord t codecs r o = objectRecord t' codecs r o' := by
  unfold objectRecord
  simp only [className_congr h.type, payloadRecord_congr h.payload, h.monitor, h.fields]

theorem frameRecord_congr {f f' : Frame} (h : FrameAlike t t' f f') : frameRecord t f = frameRecord t' f' := by
  have hname := className_congr h.owner
  obtain ⟨c, c', hc, hc', hdeclared⟩ := h.owner
  have hmethods := ClassInfo.getElem?_methods hdeclared f.method.index
  have hmethod : t.method? f.method = c.methods[f.method.index]? := by simp [ClassTable.method?, hc]
  have hmethod' : t'.method? f'.method = c'.methods[f.method.index]? := by
    simp [ClassTable.method?, hc', h.method]
  have hknown := h.known
  unfold frameRecord
  rw [hmethod, hmethod', hname, h.pc, h.locals, h.stack, h.monitor]
  rw [hmethod] at hknown
  obtain ⟨m, hm⟩ := Option.isSome_iff_exists.1 hknown
  rw [hm] at hmethods ⊢
  obtain ⟨m', hm', hdeclared'⟩ := Option.map_eq_some_iff.1 hmethods
  have hhash := Method.structuralHash_congr hdeclared'
  simp only [Method.declaration, MethodDefinition.mk.injEq] at hdeclared'
  rw [hm']
  simp only [hhash, hdeclared']

theorem threadRecord_congr {now now' : UInt64} {a b : Thread FrameStack}
    (h : ThreadAlike t t' now now' a b) : threadRecord t now a = threadRecord t' now' b := by
  have hframes : a.stack.reverse.mapM (frameRecord t) = b.stack.reverse.mapM (frameRecord t') :=
    mapM_congr (List.rel_reverse h.stack) fun _ _ => frameRecord_congr
  unfold threadRecord
  rw [hframes, h.id, h.state, h.interrupted, h.interruptible, h.pending, h.object, h.joiners]

end Records

theorem classes_found {t t' : ClassTable} {ids ids' : List ClassId}
    (h : List.Forall₂ (Matches t t') ids ids') :
    List.Forall₂ (fun c c' => c'.declaration = c.declaration) (ids.filterMap t.get?)
      (ids'.filterMap t'.get?) := by
  induction h with
  | nil => exact .nil
  | cons hmatches _ ih =>
    obtain ⟨c, c', hc, hc', hdeclared⟩ := hmatches
    rw [List.filterMap_cons_some hc, List.filterMap_cons_some hc']
    exact .cons hdeclared ih

/-- Classes that are declared alike, one after the other, give the same listing. -/
theorem classRecords_congr {t t' : ClassTable} {ids ids' : List ClassId}
    (h : List.Forall₂ (Matches t t') ids ids') : classRecords t' ids' = classRecords t ids := by
  let collect (names : Std.ExtTreeMap String ClassInfo) (c : ClassInfo) := names.insertIfNew c.name c
  have hfound := classes_found h
  have hbyName : ∀ (names names' : Std.ExtTreeMap String ClassInfo),
      (∀ k : String, names'[k]?.map ClassInfo.structuralHash = names[k]?.map ClassInfo.structuralHash) →
      ∀ k : String, ((ids'.filterMap t'.get?).foldl collect names')[k]?.map ClassInfo.structuralHash =
        ((ids.filterMap t.get?).foldl collect names)[k]?.map ClassInfo.structuralHash := by
    generalize ids.filterMap t.get? = cs at hfound
    generalize ids'.filterMap t'.get? = cs' at hfound
    induction hfound with
    | nil => exact fun _ _ hnames => hnames
    | @cons c c' cs cs' hdeclared _ ih =>
      intro names names' hnames
      refine ih _ _ fun k => ?_
      have hname : c'.name = c.name := congrArg ClassDefinition.name hdeclared
      have hmem : c.name ∈ names' ↔ c.name ∈ names := by
        have hk := congrArg Option.isSome (hnames c.name)
        rw [Option.isSome_map, Option.isSome_map] at hk
        rw [Std.ExtTreeMap.mem_iff_isSome_getElem?, Std.ExtTreeMap.mem_iff_isSome_getElem?, hk]
      simp only [collect, Std.ExtTreeMap.getElem?_insertIfNew, hname, hmem]
      split
      · exact congrArg some (ClassInfo.structuralHash_congr hdeclared)
      · exact hnames k
  have hlists := Maps.map_toList_congr (hbyName ∅ ∅ fun _ => rfl)
  unfold classRecords
  have hrecords := congrArg (List.map fun p : String × String => (⟨p.1, p.2⟩ : ClassRecord)) hlists
  simpa [List.map_map, Function.comp_def] using hrecords

theorem Alike.mentionedClasses {m m' : Machine} (h : Alike m m') :
    List.Forall₂ (Matches m.classes m'.classes) (mentionedClasses m) (mentionedClasses m') := by
  unfold Snapshot.mentionedClasses
  refine List.rel_append (List.rel_append ?_ ?_) ?_
  · refine List.rel_flatMap h.objects ?_
    rintro ⟨r, o⟩ ⟨r', o'⟩ ⟨_, ho⟩
    refine .cons ho.type ?_
    have hpayload := ho.payload
    unfold Object.mirrored?
    dsimp only at hpayload ⊢
    generalize o.payload = p at hpayload
    generalize o'.payload = p' at hpayload
    cases hpayload with
    | mirror hmatches => exact .cons hmatches .nil
    | same hne =>
      cases p with
      | mirror id => exact absurd rfl (hne id)
      | _ => exact .nil
  · exact h.statics.imp fun _ _ h => h.1
  · refine List.rel_flatMap h.threads fun a b hthread => ?_
    exact List.rel_map (fun f f' hf => hf.owner) hthread.stack

/-- What an image holds of a machine. -/
structure Captures (codecs : CodecRegistry) (m : Machine) (i : Image) : Prop where
  resting : m.scheduler.current = none
  ordinary : ∀ t ∈ m.scheduler.toList, (t.synthetic && t.isAlive) = false
  capturedAt : i.capturedAt = m.scheduler.now
  heapCapacity : i.heapCapacity = UInt64.ofNat m.heap.capacity
  outOfMemory : i.outOfMemory = m.outOfMemory
  classes : i.classes = classRecords m.classes (Snapshot.mentionedClasses m)
  objects : List.Forall₂ (fun p o => objectRecord m.classes codecs p.1 p.2 = .ok o) m.heap.toList i.objects
  interned : i.interned = m.heap.internedStrings
  statics : List.Forall₂ (fun id s => staticsRecord m.classes m.statics id = .ok s)
    m.statics.classes i.statics
  threads : List.Forall₂ (fun t r => threadRecord m.classes m.scheduler.now t = .ok r)
    (liveThreads m) i.threads
  ready : i.ready = m.scheduler.ready

theorem capture_ok {codecs : CodecRegistry} {m : Machine} {i : Image} :
    capture codecs m = .ok i ↔ Captures codecs m i := by
  unfold capture
  dsimp only
  split
  · next hbusy =>
    constructor
    · intro h
      cases h
    · intro h
      rw [h.resting] at hbusy
      cases hbusy
  · next hresting =>
    split
    · next hsynthetic =>
      constructor
      · intro h
        cases h
      · intro h
        obtain ⟨t, ht, hlive⟩ := List.any_eq_true.1 hsynthetic
        rw [h.ordinary t ht] at hlive
        cases hlive
    · next hordinary =>
      constructor
      · intro h
        obtain ⟨objects, hobjects, h⟩ := except_bind_ok.1 h
        obtain ⟨statics, hstatics, h⟩ := except_bind_ok.1 h
        obtain ⟨threads, hthreads, h⟩ := except_bind_ok.1 h
        cases h
        exact ⟨by simpa using hresting, by simpa using hordinary, rfl, rfl, rfl, rfl, mapM_ok.1 hobjects,
          rfl, mapM_ok.1 hstatics, mapM_ok.1 hthreads, rfl⟩
      · intro h
        refine except_bind_ok.2 ⟨_, mapM_ok.2 h.objects, ?_⟩
        refine except_bind_ok.2 ⟨_, mapM_ok.2 h.statics, ?_⟩
        refine except_bind_ok.2 ⟨_, mapM_ok.2 h.threads, ?_⟩
        rw [← h.capturedAt, ← h.heapCapacity, ← h.outOfMemory, ← h.classes, ← h.interned, ← h.ready]
        rfl

/-- Machines that stand alike have one image, but for the clock and the room for objects. -/
theorem capture_congr {codecs : CodecRegistry} {m m' : Machine} {i : Image} (h : Alike m m')
    (hi : capture codecs m = .ok i) :
    capture codecs m' = .ok { i with
      capturedAt := m'.scheduler.now, heapCapacity := UInt64.ofNat m'.heap.capacity } := by
  rw [capture_ok] at hi ⊢
  have hobjects : m.heap.toList.mapM (fun p => objectRecord m.classes codecs p.1 p.2) =
      m'.heap.toList.mapM fun p => objectRecord m'.classes codecs p.1 p.2 :=
    mapM_congr h.objects fun p p' hp => by rw [hp.1, objectRecord_congr hp.2]
  have hstatics : m.statics.classes.mapM (staticsRecord m.classes m.statics) =
      m'.statics.classes.mapM (staticsRecord m'.classes m'.statics) :=
    mapM_congr h.statics fun id id' hid => by
      unfold staticsRecord
      rw [hid.2, className_congr hid.1]
  have hthreads : (liveThreads m).mapM (threadRecord m.classes m.scheduler.now) =
      (liveThreads m').mapM (threadRecord m'.classes m'.scheduler.now) :=
    mapM_congr h.threads fun _ _ => threadRecord_congr
  exact
    { resting := h.resting, ordinary := h.ordinary, capturedAt := rfl, heapCapacity := rfl
      outOfMemory := hi.outOfMemory.trans h.outOfMemory.symm
      classes := hi.classes.trans (classRecords_congr h.mentionedClasses).symm
      objects := mapM_ok.1 (hobjects ▸ mapM_ok.2 hi.objects)
      interned := hi.interned.trans h.interned.symm
      statics := mapM_ok.1 (hstatics ▸ mapM_ok.2 hi.statics)
      threads := mapM_ok.1 (hthreads ▸ mapM_ok.2 hi.threads)
      ready := hi.ready.trans h.ready.symm }

end ClassMachine.Snapshot
