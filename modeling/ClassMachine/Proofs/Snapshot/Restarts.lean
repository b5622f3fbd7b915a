import ClassMachine.Proofs.Machine.SyntheticCalls
import ClassMachine.Proofs.Scheduler.Rotation
import ClassMachine.Proofs.Snapshot.Gate

/-!
Objects that threads were started with, across images. That an object was started shows in the record of
its thread alone; the record stays when the thread has ended, and as long as it is there the object is not
started again. An image holds the threads that are alive, and a
machine that goes on from it has their records. So an object whose thread is alive in each image on the way is
never started again; an object whose thread has ended before is, since nothing in the image tells of it.
-/
namespace ClassMachine.Machine
open Stateful

variable {m m' : Machine} {o : Ref} {t : ThreadId} {k : Nested}

/-- A thread has the object, and it was not made for a call. -/
def Started (m : Machine) (o : Ref) : Prop :=
  o.isNull = false ∧ ∃ t u, m.scheduler.get? t = some u ∧ u.synthetic = false ∧ u.object = o

theorem Started.isSome_threadOf? (h : Started m o) : (m.threadOf? o).isSome = true := by
  obtain ⟨hnull, t, u, hu, -, hobject⟩ := h
  unfold threadOf?
  rw [hnull]
  simp only [Bool.false_eq_true, if_false, Option.isSome_map]
  exact List.find?_isSome.2 ⟨u, Maps.mem_values.2 ⟨t, hu⟩, decide_eq_true hobject⟩

/-- What a thread was started with is not started again. -/
theorem threadStart_refused (h : Started m o) (k : Nested) (t : ThreadId) :
    threadStart k t o m = raise CoreName.illegalThreadState none m := by
  unfold threadStart
  rw [if_neg (by simp [h.1]), bind_get, if_pos h.isSome_threadOf?]

theorem Acts.started {S : ThreadId → Prop} (hacts : Acts S m m') (hm : Rostered m) (h : Started m o) :
    Started m' o := by
  obtain ⟨hnull, t, u, hu, hordinary, rfl⟩ := h
  obtain ⟨u', hu', hordinary', hobject⟩ := hacts.stays hm hu hordinary
  exact ⟨hnull, t, u', hu', hordinary', hobject hnull⟩

/-- The stages a start goes through where it succeeds: a thread is made for an object that no other has, and
from there on it runs. -/
theorem threadStart_ok {look : Observer} {l : Nested} (hk : Nested.Passing look k l) (hm : Rostered m)
    (ht : (m.scheduler.get? t).isSome) (h : threadStart k t o m = .ok () m') :
    o.isNull = false ∧ ∃ m₁, Acts Anyone m m₁ ∧ m₁.scheduler.nextId ≠ 0xffffffff ∧ m₁.Vacant o ∧
      Acts Anyone { m₁ with scheduler := (m₁.scheduler.spawn o []).2 } m' := by
  have hc : Course t (Passing look (some t)) (Passing look (some t)) (Passing look (some t) (α := Flow)) :=
    course_passing
  unfold threadStart at h
  split at h
  · exact absurd h (raise_ne_ok _ _)
  · next hnull =>
    rw [bind_get] at h
    split at h
    · exact absurd h (raise_ne_ok _ _)
    · next hnone =>
      rw [bind_get] at h
      obtain ⟨run, m₁, hselect, h⟩ := bind_ok.1 h
      have hselected := (hc.selectVirtual o m.core.run m hm fun u hu => by cases hu; exact ht).passed
      rw [hselect] at hselected
      have hvacant : m₁.Vacant o := vacant_of_selectVirtual hnone hselect
      obtain ⟨started, m₂, hspawn, h⟩ := bind_ok.1 h
      rcases spawnThread_cases o m₁ with ⟨-, hrun⟩ | ⟨hid, hrun⟩
      · cases hspawn.symm.trans hrun
      · cases hspawn.symm.trans hrun
        have hentered := (enterStarted_passes hk run (hselected.acts.rostered hm) (hselected.isSome ht) hid
          hvacant).passed.acts
        have hfinal := congrArg final h
        refine ⟨Bool.eq_false_iff.2 hnull, m₁, hselected.acts.mono fun _ _ => trivial, hid, hvacant, ?_⟩
        exact (show final _ = m' from hfinal) ▸ hentered.mono fun _ _ => trivial

/-- Once a start has succeeded, the object is started, and what is done on the way are acts. -/
theorem started_of_threadStart {fuel : Nat} (hm : Rostered m) (ht : (m.scheduler.get? t).isSome)
    (h : threadStart (nested fuel) t o m = .ok () m') : Acts Anyone m m' ∧ Started m' o := by
  have hk : Nested.Passing .idle (nested fuel) (Watched.nested .idle fuel) := nested_passing fuel
  obtain ⟨hnull, m₁, hacts, hid, hvacant, hlater⟩ := threadStart_ok hk hm ht h
  have hstart : Act none m₁ { m₁ with scheduler := (m₁.scheduler.spawn o []).2 } := .start hid hvacant
  have hm₁ : Rostered m₁ := hacts.rostered hm
  refine ⟨(hacts.trans (Acts.one hstart (by simp))).trans hlater, hlater.started (hstart.rostered hm₁)
    ⟨hnull, m₁.scheduler.nextId, { id := m₁.scheduler.nextId, object := o, stack := [] }, ?_, rfl, rfl⟩⟩
  rw [Scheduler.get?_spawn, if_pos rfl]

end ClassMachine.Machine

namespace ClassMachine.Snapshot
open Stateful ClassMachine.Lists Machine

variable {codecs : CodecRegistry} {i : Image} {source target m : Machine}

section Threads

/-- The record of a thread that was restored, next to the one it had. -/
structure Reinstated (u u' : Thread FrameStack) : Prop where
  id : u'.id = u.id
  object : u'.object = u.object
  ordinary : u'.synthetic = false

theorem mapM_related {α β : Type} {f : α → RestoreM β} {R : α → β → Prop}
    (hf : ∀ {a l b l'}, f a l = .ok b l' → R a b) {as : List α} {bs : List β} {l l' : Linker}
    (h : as.mapM f l = .ok bs l') : List.Forall₂ R as bs := by
  induction as generalizing l bs with
  | nil =>
    cases h
    exact .nil
  | cons a as ih =>
    rw [List.mapM_cons] at h
    obtain ⟨b, l₁, hfirst, h⟩ := bind_ok.1 h
    obtain ⟨rest, l₂, hrest, h⟩ := bind_ok.1 h
    cases h
    exact .cons (hf hfirst) (ih hrest)

theorem threadRecord_reinstated {t : ClassTable} {now now' : UInt64} {classes : Resolved} {u u' : Thread FrameStack}
    {r : ThreadRecord} {l l' : Linker} (hr : threadRecord t now u = .ok r)
    (hu' : thread classes now' r l = .ok u' l') : Reinstated u u' := by
  obtain ⟨frames, -, hr⟩ := except_bind_ok.1 hr
  cases hr
  obtain ⟨frames', l₁, -, hu'⟩ := bind_ok.1 hu'
  cases hu'
  exact ⟨rfl, rfl, rfl⟩

theorem state_threads {classes : Resolved} {config : Config} {now : UInt64} {l l' : Linker} {s : State}
    (h : state classes codecs config now i l = .ok s l') : ∃ threads,
    s.threads = inRotation i.ready threads ∧
      List.Forall₂ (fun r u' => ∃ l l', thread classes now r l = .ok u' l') i.threads threads := by
  obtain ⟨_, _, _, h⟩ := bind_ok.1 h
  obtain ⟨_, _, _, h⟩ := bind_ok.1 h
  obtain ⟨threads, _, hthreads, h⟩ := bind_ok.1 h
  cases h
  exact ⟨threads, rfl, mapM_related (fun hrun => ⟨_, _, hrun⟩) hthreads⟩

theorem restore_vacant (h : restore codecs i target = .ok () m) : target.scheduler.toList = [] := by
  obtain ⟨classes, m₁, hvalidate, h⟩ := bind_ok.1 h
  obtain ⟨l₁, hresolve, rfl⟩ := onLinker_ok.1 hvalidate
  rw [bind_get] at h
  split at h
  · cases h
  · next hempty => simpa using hempty

theorem mem_liveThreads {u : Thread FrameStack} :
    u ∈ liveThreads source ↔ (∃ t, source.scheduler.get? t = some u) ∧ u.isAlive = true := by
  unfold liveThreads
  rw [List.mem_filter]
  exact and_congr_left fun _ => Maps.mem_values

/-- A machine goes on from an image with the threads that were alive, and with no others. -/
theorem restore_threads (hcapture : capture codecs source = .ok i) (h : restore codecs i target = .ok () m) :
    ∃ threads : List (Thread FrameStack), m.scheduler = threads.foldl Scheduler.insert target.scheduler ∧
      (∀ u' ∈ threads, ∃ u ∈ liveThreads source, Reinstated u u') ∧
      ∀ u ∈ liveThreads source, ∃ u' ∈ threads, Reinstated u u' := by
  obtain ⟨classes, s, l₁, l₂, -, hbuild, rfl⟩ := restore_ok h
  obtain ⟨threads, hthreads, hmade⟩ := state_threads hbuild
  have hrecords := (capture_ok.1 hcapture).threads
  refine ⟨s.threads, rfl, fun u' hu' => ?_, fun u hu => ?_⟩
  · rw [hthreads, (inRotation_perm i.ready threads).mem_iff] at hu'
    obtain ⟨r, hr, _, _, hrun⟩ := exists_left hmade hu'
    obtain ⟨u, hu, hwritten⟩ := exists_left hrecords hr
    exact ⟨u, hu, threadRecord_reinstated hwritten hrun⟩
  · obtain ⟨r, hr, hwritten⟩ := exists_right hrecords hu
    obtain ⟨u', hu', _, _, hrun⟩ := exists_right hmade hr
    refine ⟨u', ?_, threadRecord_reinstated hwritten hrun⟩
    rw [hthreads, (inRotation_perm i.ready threads).mem_iff]
    exact hu'

theorem get?_of_foldl_insert {threads : List (Thread FrameStack)} {s : Scheduler FrameStack}
    {u : Thread FrameStack} (hu : u ∈ threads ∨ (s.get? u.id).isSome) :
    ((threads.foldl Scheduler.insert s).get? u.id).isSome := by
  induction threads generalizing s with
  | nil => exact hu.resolve_left (by simp)
  | cons v threads ih =>
    refine ih (s := s.insert v) ?_
    rw [Scheduler.get?_insert]
    rcases hu with hu | hu
    · rcases List.mem_cons.1 hu with rfl | hu
      · exact .inr (by simp)
      · exact .inl hu
    · refine .inr ?_
      split
      · rfl
      · exact hu

theorem foldl_insert_keyed {threads : List (Thread FrameStack)} {s : Scheduler FrameStack}
    (hs : s.Numbered ∧ ∀ t u, s.get? t = some u → u.id = t) (hids : ∀ u ∈ threads, u.id < 0xffffffff) :
    (threads.foldl Scheduler.insert s).Numbered ∧
      ∀ t u, (threads.foldl Scheduler.insert s).get? t = some u → u.id = t := by
  induction threads generalizing s with
  | nil => exact hs
  | cons v threads ih =>
    exact ih ⟨Scheduler.insert_numbered hs.1 (hids v (by simp)), Scheduler.insert_keyed hs.2 v⟩
      fun u hu => hids u (List.mem_cons_of_mem v hu)

end Threads

section Objects

theorem insertObjects_live {classes : Resolved} {records : List ObjectRecord} {h h' : Heap}
    (hrun : records.foldlM (insertObject classes codecs) h = .ok h') :
    (∀ r, (h.get? r).isSome → (h'.get? r).isSome) ∧ ∀ record ∈ records, (h'.get? record.ref).isSome := by
  induction records generalizing h with
  | nil =>
    cases hrun
    exact ⟨fun _ hr => hr, by simp⟩
  | cons record records ih =>
    obtain ⟨h₁, hfirst, hrest⟩ := except_bind_ok.1 hrun
    obtain ⟨o, -, hobjects⟩ := insertObject_recorded hfirst
    obtain ⟨hkept, hadded⟩ := ih hrest
    have hget : ∀ r, h₁.get? r = if record.ref.handle = r.handle then some o else h.get? r := fun r => by
      unfold Heap.get?
      rw [hobjects, Maps.getElem?_insert_eq]
    refine ⟨fun r hr => hkept r ?_, fun record' hmem => ?_⟩
    · rw [hget]
      split
      · rfl
      · exact hr
    · rcases List.mem_cons.1 hmem with rfl | hmem
      · exact hkept _ (by rw [hget, if_pos rfl]; rfl)
      · exact hadded record' hmem

/-- Objects are there again under the handles they had. -/
theorem restore_live (hcapture : capture codecs source = .ok i) (h : restore codecs i target = .ok () m) {o : Ref}
    (ho : (source.heap.get? o).isSome) : (m.heap.get? o).isSome := by
  obtain ⟨classes, s, l₁, l₂, -, hbuild, rfl⟩ := restore_ok h
  obtain ⟨-, hheap⟩ := state_heap hbuild
  obtain ⟨h₁, hobjects, heq⟩ := except_bind_ok.1 hheap
  obtain ⟨object, hobject⟩ := Option.isSome_iff_exists.1 ho
  obtain ⟨record, hrecord, hwritten⟩ := exists_right (capture_ok.1 hcapture).objects
    (mem_heap_toList (p := (o, object)).2 hobject)
  have hadded := (insertObjects_live hobjects).2 record hrecord
  have hpin : (s.heap.pin s.outOfMemory).get? o = s.heap.get? o := by
    unfold Heap.pin
    split <;> rfl
  show ((s.heap.pin s.outOfMemory).get? o).isSome
  rw [(objectRecord_ok hwritten).1] at hadded
  rw [hpin, ← Except.ok.inj heq, Heap.get?, (foldl_intern i.interned h₁).2.1]
  exact hadded

end Objects

section Restoration

theorem get?_of_vacant (h : target.scheduler.toList = []) (t : ThreadId) : target.scheduler.get? t = none := by
  by_contra hsome
  obtain ⟨u, hu⟩ := Option.ne_none_iff_exists'.1 hsome
  have hmem : u ∈ target.scheduler.toList := Maps.mem_values.2 ⟨t, hu⟩
  rw [h] at hmem
  cases hmem

/-- All threads there are after a restoration were alive when the image was made, under the same numbers. -/
theorem restore_reinstated (hsource : Rostered source) (hcapture : capture codecs source = .ok i)
    (h : restore codecs i target = .ok () m) :
    m.scheduler.Numbered ∧ ∀ t u', m.scheduler.get? t = some u' →
      u'.id = t ∧ ∃ u, source.scheduler.get? t = some u ∧ Reinstated u u' := by
  obtain ⟨threads, hscheduler, hfrom, -⟩ := restore_threads hcapture h
  have hnone := get?_of_vacant (restore_vacant h)
  have hids : ∀ u' ∈ threads, u'.id < 0xffffffff := by
    intro u' hu'
    obtain ⟨u, hu, hreinstated⟩ := hfrom u' hu'
    obtain ⟨⟨t, ht⟩, -⟩ := mem_liveThreads.1 hu
    have hlt := hsource.numbered t u ht
    rw [hreinstated.id, hsource.keyed t u ht]
    exact UInt32.lt_of_lt_of_le hlt (UInt32.le_iff_toNat_le.2 (Nat.le_of_lt_succ (UInt32.toNat_lt _)))
  obtain ⟨hnumbered, hkeyed⟩ := foldl_insert_keyed (s := target.scheduler)
    ⟨fun t u hu => by simp [hnone] at hu, fun t u hu => by simp [hnone] at hu⟩ hids
  rw [← hscheduler] at hnumbered hkeyed
  refine ⟨hnumbered, fun t u' hu' => ⟨hkeyed t u' hu', ?_⟩⟩
  rcases get?_foldl_insert threads target.scheduler (hscheduler ▸ hu') with hmem | hold
  · obtain ⟨u, hu, hreinstated⟩ := hfrom u' hmem
    obtain ⟨⟨j, hj⟩, -⟩ := mem_liveThreads.1 hu
    have heq : j = t := (hsource.keyed j u hj).symm.trans (hreinstated.id.symm.trans (hkeyed t u' hu'))
    exact ⟨u, heq ▸ hj, hreinstated⟩
  · rw [hnone] at hold
    cases hold

theorem restore_rostered (hsource : Rostered source) (hcapture : capture codecs source = .ok i)
    (h : restore codecs i target = .ok () m) : Rostered m := by
  obtain ⟨hnumbered, hthreads⟩ := restore_reinstated hsource hcapture h
  refine ⟨hnumbered, fun t u' hu' => (hthreads t u' hu').1, fun t u' hu' hnull => ?_⟩
  obtain ⟨-, u, hu, hreinstated⟩ := hthreads t u' hu'
  rw [hreinstated.object] at hnull ⊢
  exact restore_live hcapture h (hsource.objects t u hu hnull)

theorem restore_distinct (hsource : Rostered source) (hdistinct : Distinct source)
    (hcapture : capture codecs source = .ok i) (h : restore codecs i target = .ok () m) : Distinct m := by
  obtain ⟨-, hthreads⟩ := restore_reinstated hsource hcapture h
  intro t u t' u' hu hu' hnull hobject
  obtain ⟨-, v, hv, hreinstated⟩ := hthreads t u hu
  obtain ⟨-, v', hv', hreinstated'⟩ := hthreads t' u' hu'
  exact hdistinct t v t' v' hv hv' (hreinstated.object ▸ hnull)
    (hreinstated'.object.symm.trans (hobject.trans hreinstated.object))

/-- An object stays started when its thread was alive. -/
theorem restore_started (hsource : Rostered source) (hcapture : capture codecs source = .ok i)
    (h : restore codecs i target = .ok () m) {o : Ref} (hnull : o.isNull = false)
    (halive : ∃ t u, source.scheduler.get? t = some u ∧ u.object = o ∧ u.isAlive = true) : Started m o := by
  obtain ⟨t, u, hu, rfl, halive⟩ := halive
  obtain ⟨threads, hscheduler, -, hto⟩ := restore_threads hcapture h
  obtain ⟨u', hmem, hreinstated⟩ := hto u (mem_liveThreads.2 ⟨⟨t, hu⟩, halive⟩)
  have hthere := get?_of_foldl_insert (s := target.scheduler) (.inl hmem)
  rw [← hscheduler, hreinstated.id, hsource.keyed t u hu] at hthere
  obtain ⟨v, hv⟩ := Option.isSome_iff_exists.1 hthere
  obtain ⟨-, w, hw, hsame⟩ := (restore_reinstated hsource hcapture h).2 t v hv
  cases hu.symm.trans hw
  exact ⟨hnull, t, v, hv, hsame.ordinary, hsame.object⟩

/-- Of an object whose threads had all ended nothing is left that says it was started. -/
theorem restore_forgets (hcapture : capture codecs source = .ok i)
    (h : restore codecs i target = .ok () m) {o : Ref}
    (hended : ∀ t u, source.scheduler.get? t = some u → u.object = o → u.isAlive = false) :
    ∀ t u, m.scheduler.get? t = some u → u.object ≠ o := by
  rintro t u' hu' rfl
  obtain ⟨threads, hscheduler, hfrom, -⟩ := restore_threads hcapture h
  rcases get?_foldl_insert threads target.scheduler (hscheduler ▸ hu') with hmem | hold
  · obtain ⟨u, hu, hreinstated⟩ := hfrom u' hmem
    obtain ⟨⟨j, hj⟩, halive⟩ := mem_liveThreads.1 hu
    rw [hended j u hj hreinstated.object.symm] at halive
    cases halive
  · rw [get?_of_vacant (restore_vacant h)] at hold
    cases hold

end Restoration

section Runs

/-- Machines at any moment of what hosts do with them. A machine is made without threads, it does one act after
the other, and another one goes on from an image of it. -/
inductive Moment : Machine → Prop
  | made {m : Machine} (h : m.scheduler.toList = []) : Moment m
  | acts {m m' : Machine} (h : Moment m) (hacts : Acts Anyone m m') : Moment m'
  | restored {source target m : Machine} {codecs : CodecRegistry} {i : Image} (h : Moment source)
      (hcapture : capture codecs source = .ok i) (hrestore : restore codecs i target = .ok () m) : Moment m

/-- What comes after a machine in a run in which the thread of the object is alive in every image. -/
inductive Later (o : Ref) (m : Machine) : Machine → Prop
  | now : Later o m m
  | acts {n n' : Machine} (h : Later o m n) (hacts : Acts Anyone n n') : Later o m n'
  | restored {n target n' : Machine} {codecs : CodecRegistry} {i : Image} (h : Later o m n)
      (hcapture : capture codecs n = .ok i)
      (halive : ∃ t u, n.scheduler.get? t = some u ∧ u.object = o ∧ u.isAlive = true)
      (hrestore : restore codecs i target = .ok () n') : Later o m n'

variable {n : Machine} {o : Ref}

theorem Moment.enrolled (h : Moment m) : Rostered m ∧ Distinct m := by
  induction h with
  | made h =>
    have hnone := get?_of_vacant h
    exact ⟨⟨fun t u hu => by simp [hnone] at hu, fun t u hu => by simp [hnone] at hu,
      fun t u hu => by simp [hnone] at hu⟩, fun t u t' u' hu => by simp [hnone] at hu⟩
  | acts h hacts ih => exact ⟨hacts.rostered ih.1, hacts.distinct ih.2⟩
  | restored h hcapture hrestore ih =>
    exact ⟨restore_rostered ih.1 hcapture hrestore, restore_distinct ih.1 ih.2 hcapture hrestore⟩

theorem Later.moment (h : Later o m n) (hm : Moment m) : Moment n := by
  induction h with
  | now => exact hm
  | acts h hacts ih => exact ih.acts hacts
  | restored h hcapture halive hrestore ih => exact .restored ih hcapture hrestore

/-- A host offers a native. -/
theorem Later.offered (h : Later o m n) (owner name descriptor : String) (native : HostNative) :
    Later o m (HostAct.leaving (do let _ ← registerNative owner name descriptor native) n) :=
  have haside : Passed Anyone n { n with natives := (n.natives.register owner name descriptor native).2 } :=
    .aside rfl (.of_objects_eq rfl)
  h.acts haside.acts

/-- What a host asks for is served, whatever comes of it. -/
theorem Later.served (h : Later o m n) (hm : Moment m) (c : HostCall) : Later o m (HostAct.leaving c.serve n) :=
  h.acts (leaving_passed c (h.moment hm).enrolled.1).acts

/-- A call that was under way comes to its end. -/
theorem Later.ended {begun : Machine} (hbegun : Moment begun) {c : HostCall} {running : Option ThreadId}
    (hv : c.Visits begun running n) (h : Later o m n) : Later o m (HostAct.leaving c.serve begun) :=
  h.acts (acts_of_visits hbegun.enrolled.1 hv).2

theorem Later.started (h : Later o m n) (hm : Moment m) (ho : Started m o) : Started n o := by
  induction h with
  | now => exact ho
  | acts h hacts ih => exact hacts.started (h.moment hm).enrolled.1 ih
  | restored h hcapture halive hrestore ih =>
    exact restore_started (h.moment hm).enrolled.1 hcapture hrestore ih.1 halive

/-- Once an object was started, every start of it afterwards is refused, and there is one thread with that
object: in the same machine whether or not the thread has ended, and in machines that go on from images in
which it was alive. -/
theorem started_once {n' : Machine} {fuel : Nat} {t : ThreadId} (hn : Moment n)
    (ht : (n.scheduler.get? t).isSome) (hstart : threadStart (nested fuel) t o n = .ok () n')
    (hlater : Later o n' m) :
    (∀ k t', threadStart k t' o m = raise CoreName.illegalThreadState none m) ∧
    ∃ j u, m.scheduler.get? j = some u ∧ u.object = o ∧
      ∀ j' u', m.scheduler.get? j' = some u' → u'.object = o → j' = j := by
  obtain ⟨hacts, hstarted⟩ := started_of_threadStart hn.enrolled.1 ht hstart
  have hn' : Moment n' := hn.acts hacts
  have hm : Started m o := hlater.started hn' hstarted
  refine ⟨threadStart_refused hm, ?_⟩
  obtain ⟨hnull, j, u, hu, -, rfl⟩ := hm
  exact ⟨j, u, hu, rfl, fun j' u' hu' hobject => (hlater.moment hn').enrolled.2 j u j' u' hu hu' hnull hobject⟩

end Runs

section Workers

/-- Threads with nothing to do, and a method that makes one. -/
def idleThread : ClassDefinition where
  name := CoreName.thread
  constants := [.type CoreName.thread]
  methods :=
    [{ name := "start", descriptor := "()V", flags := ⟨0x0100⟩ },
     { name := "run", descriptor := "()V", code := some { maxLocals := 1, code := #[0xb1] } },
     { name := "make", descriptor := "()V", flags := .staticFlag
       code := some { maxStack := 1, code := #[0xbb, 0, 1, 0x57, 0xb1] } }]

/-- A machine with that class alone. -/
def workless : Machine :=
  let (run, linker) := Linker.intern "run" "()V" (Linker.Request.register idleThread |>.run {})
  { config := {}, linker := linker, core := { string := 0, type := 0, thread := 0, run := run, messageSlot := none }
    heap := Heap.ofConfig {}, outOfMemory := .null }

theorem Moment.serveAll {calls : List HostCall} {m m' : Machine} (hm : Moment m)
    (h : HostCall.serveAll calls m = some m') : Moment m' := by
  refine HostCall.serveAll_keeps (fun c _ n n' hserved hn => ?_) h hm
  have hafter := Later.moment (Later.served (o := .null) .now hn c) hn
  rwa [HostAct.leaving, hserved] at hafter

/-- A thread is started, it ends, and it is not started again. -/
theorem started_once_ended : ∃ n n' m, Moment n ∧ threadStart (nested 4) 1 ⟨1⟩ n = .ok () n' ∧
    Later ⟨1⟩ n' m ∧ (m.scheduler.toList.all fun u => !u.isAlive) = true ∧
    (∀ k t', threadStart k t' ⟨1⟩ m = raise CoreName.illegalThreadState none m) ∧
    ∃ j u, m.scheduler.get? j = some u ∧ u.object = ⟨1⟩ ∧
      ∀ j' u', m.scheduler.get? j' = some u' → u'.object = ⟨1⟩ → j' = j := by
  have hrun : (HostCall.serveAll [.spawn 4 CoreName.thread "make" "()V" [], .run 4] workless).any (fun n =>
      (n.scheduler.get? 1).isSome && (ok? (threadStart (nested 4) 1 ⟨1⟩ n)).any fun run =>
        (HostAct.leaving (HostCall.run 4).serve run.2).scheduler.toList.all fun u => !u.isAlive) = true := by
    decide +kernel
  obtain ⟨n, hmade, hrun⟩ := (Option.any_eq_true ..).1 hrun
  have hn : Moment n := (Moment.made rfl).serveAll hmade
  obtain ⟨ht, hrun⟩ := Bool.and_eq_true_iff.1 hrun
  obtain ⟨⟨u, n'⟩, hstart, hended⟩ := (Option.any_eq_true ..).1 hrun
  rw [ok?_eq_some] at hstart
  have hn' : Moment n' := hn.acts (started_of_threadStart hn.enrolled.1 ht hstart).1
  have hlater := Later.served (o := ⟨1⟩) .now hn' (.run 4)
  exact ⟨n, n', _, hn, hstart, hlater, hended, started_once hn ht hstart hlater⟩

end Workers

end ClassMachine.Snapshot
