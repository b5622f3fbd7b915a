import ClassMachine.Proofs.Machine.HeapEdits
import ClassMachine.Proofs.Snapshot.Rebuilding

/-!
Capture after restoration. A machine that goes on from an image is captured in the same image again,
but for the clock and the room for objects.
-/
namespace ClassMachine.Snapshot
open Stateful ClassMachine.Lists

/-- A frame at an instruction of the body of its method. -/
structure Linked (t : ClassTable) (f : Frame) (c : ClassInfo) (m : Method) (raw : RawCode) : Prop where
  owner : t.get? f.method.owner = some c
  method : c.methods[f.method.index]? = some m
  code : m.code? = some raw
  linked : Linker.Gives c.pool raw (.ok f.code)
  pc : f.pc < f.code.length

/-- A machine between slices, as far as its image depends on it. Wherever a host has come to, all of it but the
frames is so (`atRest_iff_linked`). Frames are not where a fatal error has left one behind the end of its body. -/
structure AtRest (m : Machine) : Prop where
  handles : ∀ r o, m.heap.get? r = some o → r.isNull = false
  strings : ∀ (s s' : String) (r : Ref), m.heap.interned[s]? = some r →
    m.heap.interned[s']? = some r → s = s'
  outOfMemory : ∃ o, m.heap.get? m.outOfMemory = some o ∧
    m.classes.lookup? CoreName.outOfMemory = some o.type
  initialized : ∀ id ∈ m.statics.classes, ∀ c, m.classes.get? id = some c → c.isArray = false
  numbered : ∀ id t, m.scheduler.get? id = some t → t.id = id
  rotation : m.scheduler.ready.Nodup
  ready : ∀ id, id ∈ m.scheduler.ready ↔ ∃ t, m.scheduler.get? id = some t ∧ t.state = .ready
  frames : ∀ t ∈ liveThreads m, ∀ f ∈ t.stack, ∃ c method raw, Linked m.classes f c method raw

section Performed
open Machine

variable {l : Linker} {config : Config} {now : UInt64} {m : Machine}

/-- What is asked of handles, threads, literals, static fields and the exception for a full heap holds of every
machine a host has come to; so such a machine is at rest once its frames are at instructions. -/
theorem atRest_iff_linked (hl : l.Reachable) (h : create l.classes config now = .ok m) (acts : List HostAct) :
    AtRest (HostAct.performed .silent acts m) ↔
      ∀ t ∈ liveThreads (HostAct.performed .silent acts m), ∀ f ∈ t.stack,
        ∃ c method raw, Linked (HostAct.performed .silent acts m).classes f c method raw := by
  have hrests : Rests m (HostAct.performed .silent acts m) := road_rests.performed acts m
  have hweighed := (road_edited.performed acts m).weighed (create_weighed h)
  have hscheduler : m.scheduler = { now := now } := by
    obtain ⟨core, linker, id, object, -, -, rfl⟩ := create_eq h
    rfl
  have hrostered : Rostered m := by
    constructor <;> intro t u hu <;> rw [hscheduler] at hu <;> simp [Scheduler.get?] at hu
  have hexact : m.scheduler.Exact := by
    rw [hscheduler]
    exact ⟨.nil, fun id => by simp [Scheduler.MayRun, Scheduler.get?]⟩
  have hacts := performed_acts acts hrostered
  have hrotation := hacts.exact hrostered hexact
  obtain ⟨hspelt, hpinned, hnull, o, ho, hlookup⟩ := spare_of_create h
  have hliterals := hrests.heap.literals hspelt
  refine ⟨AtRest.frames, fun hframes => ⟨?handles, ?strings, ?outOfMemory, ?initialized,
    (hacts.rostered hrostered).keyed, hrotation.nodup, hrotation.mem_ready, hframes⟩⟩
  case handles =>
    refine fun r o ho => Bool.eq_false_iff.2 fun hnull => ?_
    have hnone : (HostAct.performed .silent acts m).heap.get? .null = none := hweighed.sound.addressed.null
    rw [show r = .null from congrArg Ref.mk (eq_of_beq hnull), hnone] at ho
    cases ho
  case strings =>
    intro s s' r hs hs'
    exact Option.some.inj ((hliterals s r hs).symm.trans (hliterals s' r hs'))
  case outOfMemory =>
    obtain ⟨o', ho', htype⟩ := hrests.heap.held m.outOfMemory hpinned hnull o ho
    refine ⟨o', by rw [hrests.spare]; exact ho', ?_⟩
    rw [htype]
    exact hrests.classes.names _ _ hlookup
  case initialized =>
    intro id hid c hc
    obtain ⟨values, hvalues⟩ :=
      Option.isSome_iff_exists.1 (Std.ExtTreeMap.mem_iff_isSome_getElem?.1 (Std.ExtTreeMap.mem_keys.1 hid))
    obtain ⟨c', hc', helement⟩ := (hrests.statics (unarrayed_of_create hl h)).stored id values hvalues
    cases hc.symm.trans hc'
    rw [ClassInfo.isArray, helement]
    rfl

end Performed

/-- No class declares two methods of one name and descriptor. -/
def SinglyDeclared (t : ClassTable) : Prop :=
  ∀ id c, t.get? id = some c → (c.methods.toList.map fun m => (m.name, m.descriptor)).Nodup

/-- A machine an image can be restored into in place of the machine it was made of: it has loaded
the same classes in the same order, and has no threads. -/
structure Receives (source target : Machine) : Prop where
  loaded : ∃ ds, ClassTable.Loaded ds source.classes ∧ ClassTable.Loaded ds target.classes
  threads : target.scheduler.threads = ∅
  ready : target.scheduler.ready = []
  current : target.scheduler.current = none

/-- What is left of every timeout fits on the clock of the target. -/
def ClockFits (source target : Machine) : Prop :=
  ∀ t ∈ liveThreads source, ∀ millis, stateRecord source.scheduler.now t.state = .detachedFor millis →
    target.scheduler.now.toNat + millis.toNat < UInt64.size

theorem position_of_single {c : ClassInfo} {i : Nat} {m : Method}
    (h : (c.methods.toList.map fun m => (m.name, m.descriptor)).Nodup) (hm : c.methods[i]? = some m) :
    c.methodPosition? m.name m.descriptor = some i := by
  have hi : i < c.methods.size := (Array.getElem?_eq_some_iff.1 hm).1
  cases hposition : c.methodPosition? m.name m.descriptor with
  | none =>
    have hnone := List.find?_eq_none.1 hposition i (by simpa using hi)
    simp [hm] at hnone
  | some j =>
    obtain ⟨m', hm', htest⟩ := of_lastIndex? hposition
    simp only [Bool.and_eq_true, beq_iff_eq] at htest
    refine congrArg some ((List.getElem?_inj (by simpa using hi) h).1 ?_).symm
    simp [hm, hm', htest]

theorem known_of_className {t : ClassTable} {id : ClassId} {name : String}
    (h : className t id = .ok name) : ∃ c, t.get? id = some c := by
  unfold className at h
  split at h
  · next c hc => exact ⟨c, hc⟩
  · cases h

/-- A recorded frame is the record of a frame of a live thread. -/
theorem exists_frame {codecs : CodecRegistry} {m : Machine} {i : Image} (hi : Captures codecs m i)
    {r : FrameRecord} (hr : r ∈ i.frames) :
    ∃ t ∈ liveThreads m, ∃ f ∈ t.stack, frameRecord m.classes f = .ok r := by
  obtain ⟨record, hrecord, hr⟩ := List.mem_flatMap.1 hr
  obtain ⟨t, ht, hthread⟩ := exists_left hi.threads hrecord
  obtain ⟨frames, hframes, heq⟩ := except_bind_ok.1 hthread
  cases heq
  obtain ⟨f, hf, hframe⟩ := exists_left (mapM_ok.1 hframes) hr
  exact ⟨t, ht, f, by simpa using hf, hframe⟩

/-- What was captured mentions known classes only. -/
theorem mentioned_known {codecs : CodecRegistry} {m : Machine} {i : Image} (hi : Captures codecs m i) :
    ∀ id ∈ mentionedClasses m, ∃ c, m.classes.get? id = some c := by
  intro id hid
  rcases List.mem_append.1 hid with hid | hid
  · rcases List.mem_append.1 hid with hid | hid
    · obtain ⟨⟨r, o⟩, hp, hid⟩ := List.mem_flatMap.1 hid
      obtain ⟨record, _, hrecord⟩ := exists_right hi.objects hp
      obtain ⟨owner, howner, hrecord⟩ := except_bind_ok.1 hrecord
      rcases List.mem_cons.1 hid with rfl | hid
      · exact known_of_className howner
      · obtain ⟨written, hwritten, _⟩ := except_bind_ok.1 hrecord
        have hmirror : o.payload = .mirror id := by
          unfold Object.mirrored? at hid
          split at hid
          · next hpayload => simp_all
          · simp at hid
        dsimp only at hwritten
        rw [hmirror] at hwritten
        cases hname : className m.classes id with
        | ok name => exact known_of_className hname
        | error e => simp [payloadRecord, hname, Except.map] at hwritten
    · obtain ⟨record, _, hrecord⟩ := exists_right hi.statics hid
      obtain ⟨name, hname, _⟩ := except_bind_ok.1 hrecord
      exact known_of_className hname
  · obtain ⟨t, ht, hid⟩ := List.mem_flatMap.1 hid
    obtain ⟨f, hf, rfl⟩ := List.mem_map.1 hid
    obtain ⟨record, _, hrecord⟩ := exists_right hi.threads ht
    obtain ⟨frames, hframes, _⟩ := except_bind_ok.1 hrecord
    obtain ⟨written, _, hwritten⟩ := exists_right (mapM_ok.1 hframes) (List.mem_reverse.2 hf)
    obtain ⟨name, hname, _⟩ := except_bind_ok.1 hwritten
    exact known_of_className hname

theorem resumable {source target : Machine} (h : AtRest source) (hsingle : SinglyDeclared source.classes)
    (hclock : ClockFits source target) : ∀ t ∈ liveThreads source, Resumable source.classes
      (mentionedClasses source) source.scheduler.now target.scheduler.now t := by
  intro t ht
  refine ⟨(List.mem_filter.1 ht).2, fun f hf => ⟨?_, ?_⟩, hclock t ht⟩
  · exact List.mem_append_right _ (List.mem_flatMap.2 ⟨t, ht, List.mem_map.2 ⟨f, hf, rfl⟩⟩)
  · obtain ⟨c, m, raw, hlinked⟩ := h.frames t ht f hf
    exact ⟨c, m, raw, hlinked.owner, hlinked.method,
      position_of_single (hsingle _ c hlinked.owner) hlinked.method, hlinked.code, hlinked.linked, hlinked.pc⟩

section Run

variable {codecs : CodecRegistry} {source target : Machine} {i : Image}

/-- The classes of an image are found and the methods of its frames are as they were. -/
theorem resolve_ok (hi : Captures codecs source i) {l : Linker} (h : Counterparts source.classes l.classes)
    (hportable : ∀ id ∈ mentionedClasses source, ∀ c, source.classes.get? id = some c →
      Portable source.classes c)
    (hthreads : ∀ t ∈ liveThreads source, Resumable source.classes (mentionedClasses source)
      source.scheduler.now target.scheduler.now t) :
    ∃ classes l', resolve i l = .ok classes l' ∧ l.Grows l' ∧
      Prepared source.classes (mentionedClasses source) classes l' := by
  have hids : ∀ id ∈ mentionedClasses source, ∃ c, source.classes.get? id = some c ∧
      Portable source.classes c := by
    intro id hid
    obtain ⟨c, hc⟩ := mentioned_known hi id hid
    exact ⟨c, hc, hportable id hid c hc⟩
  obtain ⟨classes, l', hrun, hgrows, hresolves⟩ := resolveMentioned_ok h hids
  have hprepared : Prepared source.classes (mentionedClasses source) classes l' :=
    ⟨h.grows hgrows.classes, hresolves⟩
  refine ⟨classes, l', ?_, hgrows, hprepared⟩
  have hframes : i.frames.forM (checkFrame l'.classes classes) = .ok () := by
    refine forM_ok fun r hr => ?_
    obtain ⟨t, ht, f, hf, hrecord⟩ := exists_frame hi hr
    obtain ⟨howner, c, m, raw, hstands⟩ := (hthreads t ht).frames f hf
    exact checkFrame_ok hprepared.counterparts.regular' hstands (hresolves _ howner) hrecord
  unfold resolve
  rw [hi.classes, bind_of_ok hrun, bind_get, hframes]
  rfl

/-- What a machine goes on from, built of the image of another one. -/
structure Rebuilt (source : Machine) (t' : ClassTable) (now : UInt64) (capacity : Nat) (s : State) : Prop where
  objects : List.Forall₂ (EntryAlike source.classes t') source.heap.toList s.heap.toList
  interned : s.heap.internedStrings = source.heap.internedStrings
  capacity : s.heap.capacity = capacity
  statics : List.Forall₂ (StaticsAlike source.classes t' source.statics) source.statics.classes s.statics
  threads : ∃ threads, s.threads = inRotation source.scheduler.ready threads ∧
    List.Forall₂ (Resumed source.classes t' source.scheduler.now now) (liveThreads source) threads
  outOfMemory : s.outOfMemory = source.outOfMemory

theorem state_ok (hcodecs : Lawful codecs) (hsource : AtRest source) (hi : Captures codecs source i)
    {l : Linker} {classes : Resolved}
    (hl : Prepared source.classes (mentionedClasses source) classes l)
    (hthreads : ∀ t ∈ liveThreads source, Resumable source.classes (mentionedClasses source)
      source.scheduler.now target.scheduler.now t) :
    ∃ s l', state classes codecs target.config target.scheduler.now i l = .ok s l' ∧ l.Grows l' ∧
      Rebuilt source l'.classes target.scheduler.now (max i.heapCapacity target.config.heapCapacity).toNat s := by
  obtain ⟨h, hheap, hobjects, hinterned, hcapacity⟩ :=
    heap_ok target.config hcodecs hi hl.resolves hsource.handles hsource.strings
  obtain ⟨fields, hfields, hstatics⟩ := staticFields_ok hi hl.resolves
  obtain ⟨threads, l', hrun, hgrows, hresumed⟩ := threads_ok hl hthreads hi.threads
  have hheapRun : (ofExcept (heap classes codecs target.config i) : RestoreM Heap) l = .ok h l :=
    ofExcept_ok.2 ⟨hheap, rfl⟩
  have hstaticsRun : (ofExcept (staticFields classes i) : RestoreM _) l = .ok fields l :=
    ofExcept_ok.2 ⟨hfields, rfl⟩
  refine ⟨⟨h, fields, inRotation i.ready threads, i.outOfMemory⟩, l', ?_, hgrows, ?_⟩
  · unfold state
    rw [bind_of_ok hheapRun, bind_of_ok hstaticsRun, bind_of_ok hrun]
    rfl
  · have hkeeps := hgrows.classes.keeps
    exact
      { objects := hobjects.imp fun _ _ hp => hp.keeps hkeeps
        interned := hinterned
        capacity := hcapacity
        statics := hstatics.imp fun _ _ hp => ⟨hp.1.keeps hkeeps, hp.2⟩
        threads := ⟨threads, by rw [hi.ready], hresumed⟩
        outOfMemory := hi.outOfMemory }

/-- The exception for a full heap is one where the image is restored as well. -/
theorem checkOutOfMemory_ok {t' : ClassTable} {now : UInt64} {capacity : Nat} {s : State}
    (hsource : AtRest source) (hcounter : Counterparts source.classes t')
    (h : Rebuilt source t' now capacity s) : checkOutOfMemory t' s = .ok () := by
  obtain ⟨o, ho, hlookup⟩ := hsource.outOfMemory
  obtain ⟨⟨r, o'⟩, hp, halike⟩ := exists_right h.objects (mem_heap_toList.2 ho : (source.outOfMemory, o) ∈ _)
  obtain ⟨c, c', hc, hc', hdeclared⟩ := halike.2.type
  obtain ⟨d, hd, hname⟩ := hcounter.regular.named _ _ hlookup
  cases hc.symm.trans hd
  have hname' : c'.name = CoreName.outOfMemory := (congrArg ClassDefinition.name hdeclared).trans hname
  have hget : s.heap.get? s.outOfMemory = some o' := by
    rw [h.outOfMemory, ← show r = source.outOfMemory from halike.1]
    exact mem_heap_toList.1 hp
  unfold checkOutOfMemory
  rw [hget, if_pos]
  rw [← hname', hcounter.regular'.lookup? hc']
  rfl

/-- Marking classes as initialized changes nothing they are declared as. -/
theorem markInitialized_keeps (id : ClassId) (l : Linker) :
    l.classes.Keeps (markInitialized id l).2.classes := by
  have hprepare := (Linker.prepare_grows id l).classes.keeps
  rw [markInitialized, state_bind]
  split
  · exact hprepare.trans (ClassTable.takePendingInit_keeps id _)
  · exact hprepare

theorem markAll_keeps (fields : List (ClassId × List Value)) (l : Linker) :
    l.classes.Keeps ((fields.forM fun (id, _) => markInitialized id).run l).2.classes := by
  induction fields generalizing l with
  | nil => exact fun id c hc => ⟨c, hc, rfl⟩
  | cons p fields ih => exact (markInitialized_keeps p.1 l).trans (ih (markInitialized p.1 l).2)

theorem pin_listed (h : Heap) (r : Ref) :
    (h.pin r).toList = h.toList ∧ (h.pin r).internedStrings = h.internedStrings ∧
      (h.pin r).capacity = h.capacity := by
  unfold Heap.pin
  split <;> exact ⟨rfl, rfl, rfl⟩

theorem ids_of_numbered {s : Scheduler FrameStack} (h : ∀ id t, s.get? id = some t → t.id = id) :
    s.toList.Pairwise fun a b => compare a.id b.id = .lt := by
  unfold Scheduler.toList
  rw [Maps.values_eq_map_toList, List.pairwise_map]
  refine Std.ExtTreeMap.ordered_keys_toList.imp_of_mem fun {p q} hp hq hlt => ?_
  have hnumber : ∀ p ∈ s.threads.toList, p.2.id = p.1 := fun p hp =>
    h p.1 p.2 (Std.ExtTreeMap.mem_toList_iff_getElem?_eq_some.1 hp)
  rwa [hnumber p hp, hnumber q hq]

/-- Who may run, among the live threads. -/
theorem ready_iff (hsource : AtRest source) (id : ThreadId) :
    id ∈ source.scheduler.ready ↔ ∃ t ∈ liveThreads source, t.id = id ∧ t.state = .ready := by
  rw [hsource.ready]
  constructor
  · rintro ⟨t, ht, hstate⟩
    refine ⟨t, List.mem_filter.2 ⟨Maps.mem_values.2 ⟨id, ht⟩, ?_⟩, hsource.numbered id t ht, hstate⟩
    simp [Thread.isAlive, hstate]
  · rintro ⟨t, ht, rfl, hstate⟩
    obtain ⟨id, hid⟩ := Maps.mem_values.1 (List.mem_filter.1 ht).1
    rw [hsource.numbered id t hid]
    exact ⟨t, hid, hstate⟩

/-- Static fields come back in the order of their classes. -/
theorem statics_ascending {t' : ClassTable} {fields : List (ClassId × List Value)} (hsource : AtRest source)
    (hcounter : Counterparts source.classes t')
    (h : List.Forall₂ (StaticsAlike source.classes t' source.statics) source.statics.classes fields) :
    fields.Pairwise fun p q => p.1 < q.1 := by
  refine pairwise_of_forall₂ h Std.ExtTreeMap.ordered_keys ?_
  intro id₁ id₂ p q hid₁ hid₂ hp hq hlt
  obtain ⟨c₁, c₁', hc₁, hc₁', hd₁⟩ := hp.1
  obtain ⟨c₂, c₂', hc₂, hc₂', hd₂⟩ := hq.1
  exact hcounter.ordered hc₁ hc₂ (hsource.initialized _ hid₁ c₁ hc₁) (hsource.initialized _ hid₂ c₂ hc₂)
    hc₁' hc₂' (congrArg ClassDefinition.name hd₁) (congrArg ClassDefinition.name hd₂)
    (Nat.compare_eq_lt.1 hlt)

theorem install_alike {m : Machine} {capacity : Nat} {s : State} (hsource : AtRest source)
    (hcounter : Counterparts source.classes m.classes)
    (h : Rebuilt source m.classes m.scheduler.now capacity s) (hthreads : m.scheduler.threads = ∅)
    (hready : m.scheduler.ready = []) (hcurrent : m.scheduler.current = none) :
    Alike source (install m s) ∧ (install m s).scheduler.now = m.scheduler.now ∧
      (install m s).heap.capacity = capacity := by
  obtain ⟨threads, hrotation, hresumed⟩ := h.threads
  have hkeeps : m.classes.Keeps (install m s).classes := markAll_keeps s.statics m.linker
  obtain ⟨hlist, hinterned, hcapacity⟩ := pin_listed s.heap s.outOfMemory
  have hscheduler : (install m s).scheduler = s.threads.foldl Scheduler.insert m.scheduler := rfl
  obtain ⟨_, hrotated, hcurrent', hnow⟩ := foldl_insert s.threads m.scheduler
  have hids : threads.Pairwise fun a b => compare a.id b.id = .lt := by
    refine pairwise_of_forall₂ hresumed ((ids_of_numbered hsource.numbered).filter _) ?_
    intro a b a' b' _ _ ha hb hlt
    rwa [ha.id, hb.id]
  have htoList : (install m s).scheduler.toList = threads := by
    rw [hscheduler, hrotation]
    exact toList_foldl_insert hthreads hids (inRotation_perm _ _)
  have halive : ∀ t ∈ threads, t.isAlive = true ∧ t.synthetic = false := by
    intro t ht
    obtain ⟨a, _, ha⟩ := exists_left hresumed ht
    exact ⟨ha.alive, ha.ordinary⟩
  have hlive : liveThreads (install m s) = threads := by
    unfold liveThreads
    rw [htoList]
    exact List.filter_eq_self.2 fun t ht => (halive t ht).1
  have hready' : (install m s).scheduler.ready = source.scheduler.ready := by
    rw [hscheduler, hrotated, hready, hrotation, List.nil_append]
    refine ready_inRotation hsource.rotation ?_ fun id => ?_
    · rw [List.Nodup, List.pairwise_map]
      refine hids.imp fun {a b} hab heq => ?_
      simp [heq] at hab
    · rw [ready_iff hsource]
      constructor
      · rintro ⟨a, ha, rfl, hstate⟩
        obtain ⟨b, hb, hab⟩ := exists_right hresumed ha
        exact ⟨b, hb, hab.id, hab.ready.2 hstate⟩
      · rintro ⟨b, hb, rfl, hstate⟩
        obtain ⟨a, ha, hab⟩ := exists_left hresumed hb
        exact ⟨a, ha, hab.id.symm, hab.ready.1 hstate⟩
  obtain ⟨hclasses, hslots⟩ := restoreStatics (statics_ascending hsource hcounter h.statics)
  have hstatics : List.Forall₂ (fun id id' => Matches source.classes (install m s).classes id id' ∧
      (install m s).statics.slots? id' = source.statics.slots? id) source.statics.classes
        (install m s).statics.classes := by
    rw [show (install m s).statics.classes = _ from hclasses, List.forall₂_map_right_iff]
    refine forall₂_imp_mem h.statics fun id p _ hp halike => ⟨halike.1.keeps hkeeps, ?_⟩
    rw [halike.2]
    exact hslots p hp
  refine ⟨⟨?_, ?_, hstatics, ?_, hready', h.outOfMemory, ?_, ?_⟩, ?_, hcapacity.trans h.capacity⟩
  · rw [show (install m s).heap.toList = _ from hlist]
    exact h.objects.imp fun _ _ hp => hp.keeps hkeeps
  · exact hinterned.trans h.interned
  · rw [hlive, show (install m s).scheduler.now = m.scheduler.now from hnow]
    exact hresumed.imp fun _ _ hab => hab.toThreadAlike.keeps hkeeps
  · exact hcurrent'.trans hcurrent
  · intro t ht
    rw [htoList] at ht
    simp [(halive t ht).2]
  · exact hnow

/-- Capture after restoration gives the image back. The clock is that of the machine it was restored
into, which may also have more room for objects. -/
theorem capture_restore (hcodecs : Lawful codecs) (hsource : AtRest source)
    (hsingle : SinglyDeclared source.classes)
    (hportable : ∀ id ∈ mentionedClasses source, ∀ c, source.classes.get? id = some c →
      Portable source.classes c)
    (htarget : Receives source target) (hclock : ClockFits source target)
    (h : capture codecs source = .ok i) :
    ∃ m', restore codecs i target = .ok () m' ∧ capture codecs m' = .ok { i with
      capturedAt := target.scheduler.now
      heapCapacity := max i.heapCapacity target.config.heapCapacity } := by
  have hi := capture_ok.1 h
  have hthreads := resumable hsource hsingle hclock
  obtain ⟨ds, hloaded, hloaded'⟩ := htarget.loaded
  have hcounter := counterparts_of_declarations hloaded.regular hloaded'.regular
    (hloaded'.declarations.trans hloaded.declarations.symm)
  obtain ⟨classes, l₁, hresolve, hgrows₁, hprepared⟩ := resolve_ok hi hcounter hportable hthreads
  obtain ⟨s, l₂, hstate, hgrows₂, hrebuilt⟩ := state_ok hcodecs hsource hi hprepared hthreads
  let m₁ : Machine := { target with linker := l₁ }
  let m₂ : Machine := { target with linker := l₂ }
  have hvalidate : validate i target = .ok classes m₁ := onLinker_ok.2 ⟨l₁, hresolve, rfl⟩
  have hbuild : onLinker (state classes codecs m₁.config m₁.scheduler.now i) m₁ = .ok s m₂ :=
    onLinker_ok.2 ⟨l₂, hstate, rfl⟩
  have hcounter₂ : Counterparts source.classes m₂.classes :=
    hprepared.counterparts.grows hgrows₂.classes
  have hcheck := checkOutOfMemory_ok hsource hcounter₂ hrebuilt
  have hempty : m₁.scheduler.toList = [] := by
    show target.scheduler.threads.values = []
    rw [htarget.threads]
    rfl
  have hrun : restore codecs i target = .ok () (install m₂ s) := by
    unfold restore
    rw [bind_of_ok hvalidate, bind_get, hempty, if_neg (by simp)]
    dsimp only
    rw [bind_of_ok hbuild, bind_get, hcheck]
    rfl
  obtain ⟨halike, hnow, hcapacity⟩ := install_alike hsource hcounter₂ hrebuilt htarget.threads htarget.ready
    htarget.current
  refine ⟨_, hrun, (capture_congr halike h).trans ?_⟩
  rw [hnow, hcapacity, UInt64.ofNat_toNat]

end Run

/-- A class with a static field and a method that returns at once. -/
def idler : ClassDefinition :=
  { name := "Idler", fields := [⟨"count", "I", .staticFlag⟩]
    methods := [⟨"run", "()V", .staticFlag, some { code := #[0xb1] }⟩] }

/-- The classes of both machines. -/
def idlerTable : ClassTable :=
  (ClassTable.register idler
    (ClassTable.register { name := CoreName.string }
      (ClassTable.register { name := CoreName.outOfMemory } {}).2).2).2

theorem loaded_idlerTable :
    ClassTable.Loaded [{ name := CoreName.outOfMemory }, { name := CoreName.string }, idler] idlerTable :=
  ((ClassTable.Loaded.empty.register (by decide)).register (by decide)).register
    (by decide +kernel)

/-- A frame at the start of the method. -/
def idling : Frame :=
  { method := ⟨2, 0⟩, code := { instructions := #[.returnVoid] } }

/-- An array, an interned string, a thread in the rotation and one that sleeps for another 15 ms. -/
def idlers : Machine where
  config := {}
  linker := { classes := (ClassTable.arrayClass "[I" idlerTable).2 }
  core := default
  heap :=
    { (Heap.ofConfig {}) with
      objects := Maps.ofEntries [(1, Object.instanceOf 0 []), (2, Object.arrayOf 3 .int 4),
        (3, Object.ofPayload 1 [] (.str "text"))]
      interned := Maps.ofEntries [("text", ⟨3⟩)] }
  outOfMemory := ⟨1⟩
  statics := ⟨Maps.ofEntries [(2, #[.int 7])]⟩
  scheduler :=
    { threads := Maps.ofEntries [(1, { id := 1, object := .null, stack := [idling], joiners := [2] }),
        (2, { id := 2, object := .null, stack := [idling], state := .detachedUntil 25 })]
      ready := [1], nextId := 3, now := 10 }

/-- A machine with the same classes, in which arrays of another type were made first. -/
def vacant : Machine where
  config := {}
  linker := { classes := (ClassTable.arrayClass "[J" idlerTable).2 }
  core := default
  heap := .ofConfig {}
  outOfMemory := .null
  scheduler := { now := 100 }


theorem atRest_idlers : AtRest idlers := by
  have hobjects : ∀ p ∈ idlers.heap.toList, p.1.isNull = false := by decide
  have hstrings : ∀ p ∈ idlers.heap.interned.toList, p = ("text", ⟨3⟩) := by decide
  have hstatics : idlers.statics.classes = [2] := by decide
  have hthreads : ∀ p ∈ idlers.scheduler.threads.toList, p.2.id = p.1 ∧
      (p.1 ∈ idlers.scheduler.ready ↔ p.2.state = .ready) := by decide
  have hclass : (idlers.classes.get? 2).map (fun c => (c.isArray, c.pool, c.methods.toList.map Method.code?)) =
      some (false, .empty, [some { code := #[0xb1] }]) := by decide +kernel
  have hlive : ∀ t ∈ liveThreads idlers, t.stack = [idling] := by decide
  have hlinked : (Linker.linkBody .empty "" { code := #[0xb1] }).outcome {} = .ok idling.code := by
    decide
  refine
    { handles := fun r o ho => hobjects (r, o) (mem_heap_toList.2 ho)
      strings := fun s s' r hs hs' => ?_
      outOfMemory := ⟨Object.instanceOf 0 [], by decide, by decide +kernel⟩
      initialized := fun id hid c hc => ?_
      numbered := fun id t ht => (hthreads (id, t) (Std.ExtTreeMap.mem_toList_iff_getElem?_eq_some.2 ht)).1
      rotation := by decide
      ready := fun id => ?_
      frames := fun t ht f hf => ?_ }
  · have hentry := fun {s} (hs : idlers.heap.interned[s]? = some r) =>
      hstrings (s, r) (Std.ExtTreeMap.mem_toList_iff_getElem?_eq_some.2 hs)
    exact congrArg Prod.fst ((hentry hs).trans (hentry hs').symm)
  · rw [hstatics, List.mem_singleton] at hid
    subst hid
    rw [hc] at hclass
    exact (Prod.mk.inj (Option.some.inj hclass)).1
  · constructor
    · intro hid
      have hone : id = 1 := List.mem_singleton.1 hid
      subst hone
      exact ⟨_, Maps.getElem?_ofEntries (by decide) |>.2 (.head _), rfl⟩
    · rintro ⟨t, ht, hstate⟩
      exact (hthreads (id, t) (Std.ExtTreeMap.mem_toList_iff_getElem?_eq_some.2 ht)).2.2 hstate
  · rw [hlive t ht, List.mem_singleton] at hf
    subst hf
    obtain ⟨c, hc, hview⟩ := Option.map_eq_some_iff.1 hclass
    simp only [Prod.mk.injEq] at hview
    obtain ⟨_, hpool, hmethods⟩ := hview
    have hcode := congrArg (·[0]?) hmethods
    simp only [List.getElem?_map, Array.getElem?_toList] at hcode
    obtain ⟨m, hm, hraw⟩ := Option.map_eq_some_iff.1 hcode
    refine ⟨c, m, _, hc, hm, hraw, ?_, by decide⟩
    rw [hpool, ← hlinked]
    exact Linker.gives_outcome ..

theorem receives_vacant : Receives idlers vacant where
  loaded := ⟨_, loaded_idlerTable.grows (ClassTable.arrayClass_grows _ _),
    loaded_idlerTable.grows (ClassTable.arrayClass_grows _ _)⟩
  threads := rfl
  ready := rfl
  current := rfl

theorem lawful_nil : Lawful [] := by
  intro owner codec c bytes hfind
  cases hfind

/-- Where arrays have another number, the idlers go on as they were, the second one for 15 ms. -/
theorem capture_restore_idlers : idlers.classes.lookup? "[I" = some 3 ∧ vacant.classes.lookup? "[J" = some 3 ∧
    ∃ i m', capture [] idlers = .ok i ∧ restore [] i vacant = .ok () m' ∧
      capture [] m' = .ok { i with capturedAt := 100 } := by
  have hcaptured : (capture [] idlers).isOk = true := by decide +kernel
  have hclasses : ∀ c ∈ idlers.classes.classes.toList,
      (c.methods.toList.map fun m => (m.name, m.descriptor)).Nodup ∧ (c.isArray = true → c.name = "[I") := by
    decide +kernel
  have hclock : ∀ t ∈ liveThreads idlers, stateRecord 10 t.state ∈ [.ready, .detachedFor 15] := by
    decide
  have hsingle : SinglyDeclared idlers.classes := fun id c hc =>
    (hclasses c (ClassTable.mem_toList.2 ⟨id, hc⟩)).1
  have hportable : ∀ id ∈ mentionedClasses idlers, ∀ c, idlers.classes.get? id = some c →
      Portable idlers.classes c := by
    intro id _ c hc harray
    rw [(hclasses c (ClassTable.mem_toList.2 ⟨id, hc⟩)).2 harray]
    exact ⟨.primitive .int, by decide, trivial⟩
  have hfits : ClockFits idlers vacant := by
    intro t ht millis hmillis
    have hstate := hclock t ht
    rw [show stateRecord 10 t.state = _ from hmillis] at hstate
    have hfifteen : millis = 15 := by simpa using hstate
    subst hfifteen
    decide
  cases hi : capture [] idlers with
  | error e =>
    rw [hi] at hcaptured
    cases hcaptured
  | ok i =>
    obtain ⟨m', hrun, hagain⟩ :=
      capture_restore lawful_nil atRest_idlers hsingle hportable receives_vacant hfits hi
    have hcapacity : max i.heapCapacity vacant.config.heapCapacity = i.heapCapacity := by
      rw [(capture_ok.1 hi).heapCapacity]
      decide
    rw [hcapacity] at hagain
    exact ⟨by decide +kernel, by decide +kernel, i, m', rfl, hrun, hagain⟩

/-- A machine whose array has a class of arrays as the class of its elements, under the name of a
declared class. -/
def stacked : Machine where
  config := {}
  linker := { classes := (ClassTable.arrayClass "[L[I;" idlers.classes).2 }
  core := default
  heap :=
    { (Heap.ofConfig {}) with
      objects := Maps.ofEntries [(1, Object.instanceOf 0 []), (2, Object.arrayOf 4 .reference 1)] }
  outOfMemory := ⟨1⟩

theorem liveThreads_stacked : liveThreads stacked = [] := by decide

theorem atRest_stacked : AtRest stacked where
  handles := by
    have hobjects : ∀ p ∈ stacked.heap.toList, p.1.isNull = false := by decide
    exact fun r o ho => hobjects (r, o) (mem_heap_toList.2 ho)
  strings := fun s s' r hs => by simp [stacked, Heap.ofConfig] at hs
  outOfMemory := ⟨Object.instanceOf 0 [], by decide, by decide +kernel⟩
  initialized := fun id hid => by simp [stacked, Statics.classes] at hid
  numbered := fun id t ht => by simp [stacked, Scheduler.get?] at ht
  rotation := .nil
  ready := fun id => by simp [stacked, Scheduler.get?]
  frames := fun t ht => by simp [liveThreads_stacked] at ht

theorem receives_stacked : Receives stacked vacant where
  loaded := ⟨_, (loaded_idlerTable.grows (ClassTable.arrayClass_grows _ _)).grows
    (ClassTable.arrayClass_grows _ _), loaded_idlerTable.grows (ClassTable.arrayClass_grows _ _)⟩
  threads := rfl
  ready := rfl
  current := rfl

/-- How a restoration failed, if it did. -/
def failure? : EStateM.Result SnapshotError Machine Unit → Option SnapshotError
  | .ok _ _ => none
  | .error e _ => some e

/-- Not every image can be restored where the same classes are loaded: an array class that names
another one as its element class is listed, the other one is not, and it is not made on demand. -/
theorem restore_stacked : AtRest stacked ∧ SinglyDeclared stacked.classes ∧ Receives stacked vacant ∧
    ClockFits stacked vacant ∧ ∃ i m', capture [] stacked = .ok i ∧
      restore [] i vacant = .error (.missingClass "[L[I;") m' := by
  have hmethods : ∀ c ∈ stacked.classes.classes.toList,
      (c.methods.toList.map fun m => (m.name, m.descriptor)).Nodup := by decide +kernel
  have hsingle : SinglyDeclared stacked.classes := fun id c hc =>
    hmethods c (ClassTable.mem_toList.2 ⟨id, hc⟩)
  have hclock : ClockFits stacked vacant := fun t ht => by simp [liveThreads_stacked] at ht
  have hfails : (capture [] stacked).toOption.bind (fun i => failure? (restore [] i vacant)) =
      some (.missingClass "[L[I;") := by decide +kernel
  refine ⟨atRest_stacked, hsingle, receives_stacked, hclock, ?_⟩
  obtain ⟨i, hi, hfailure⟩ := Option.bind_eq_some_iff.1 hfails
  cases hcapture : capture [] stacked with
  | error e =>
    rw [hcapture] at hi
    cases hi
  | ok image =>
    rw [hcapture] at hi
    cases hi
    cases hrun : restore [] i vacant with
    | ok _ m' =>
      rw [hrun] at hfailure
      cases hfailure
    | error e m' =>
      rw [hrun] at hfailure
      cases hfailure
      exact ⟨i, m', rfl, hrun⟩

end ClassMachine.Snapshot
