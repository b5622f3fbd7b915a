import ClassMachine.Proofs.Machine.StaticRuns
import ClassMachine.Proofs.Scheduler.Rotation
import ClassMachine.Proofs.Snapshot.Gate

/-!
Static fields across images. A restoration replaces all that is stored in static fields and marks the
classes it has them for as initialized; what was marked before stays marked. So an image has to have static
fields for the classes that the machine it is restored into has initialized. Wherever that was so, a class
is initialized if and only if its static fields are stored, and no instruction misses one.
-/
namespace ClassMachine

/-- Static fields are a matter of the shape of a class. -/
theorem ClassInfo.staticKinds_shape (c : ClassInfo) :
    c.staticKinds = (c.shape.fields.filter (·.2.2.isStatic)).map Member.kind := by
  have hkind : ∀ f : Field, Member.kind (f.name, f.descriptor, f.flags) = f.kind := by
    intro f
    simp only [Member.kind, f.typed]
    rfl
  simp only [ClassInfo.staticKinds, ClassInfo.shape, List.filter_map, List.map_map, Function.comp_def, hkind]
  rfl

theorem ClassInfo.staticKinds_congr {c c' : ClassInfo} (h : c'.shape = c.shape) :
    c'.staticKinds = c.staticKinds := by
  rw [staticKinds_shape, staticKinds_shape, h]

namespace Snapshot
open Stateful ClassMachine.Lists Machine

section Linking

variable {l l' : Linker}

/-- What was found in the steps of a traversal before goes on holding. -/
theorem mapM_sited {α β : Type} {f : α → RestoreM β} {P : ClassTable → β → Prop}
    (hP : ∀ {t t' : ClassTable} {b}, P t b → t.Precedes t' → P t' b) (hlinks : ∀ a, Linking (f a))
    (hf : ∀ {a l b l'}, f a l = .ok b l' → l.classes.Sited → l'.classes.Sited ∧ P l'.classes b)
    {as : List α} {bs : List β} (h : as.mapM f l = .ok bs l') (hl : l.classes.Sited) :
    l'.classes.Sited ∧ ∀ b ∈ bs, P l'.classes b := by
  induction as generalizing l bs with
  | nil =>
    cases h
    exact ⟨hl, fun b hb => by cases hb⟩
  | cons a as ih =>
    rw [List.mapM_cons] at h
    obtain ⟨b, l₁, hfirst, h⟩ := bind_ok.1 h
    obtain ⟨rest, l₂, hrest, h⟩ := bind_ok.1 h
    cases h
    obtain ⟨hl₁, hb⟩ := hf hfirst hl
    obtain ⟨hl₂, hbs⟩ := ih hrest hl₁
    have hgrows := (Linking.mapM hlinks as l₁).of_ok hrest
    refine ⟨hl₂, fun b' hb' => ?_⟩
    rcases List.mem_cons.1 hb' with rfl | hb'
    · exact hP hb hgrows.classes.unfolds.precedes
    · exact hbs b' hb'

theorem resolveClass_sited {record : ClassRecord} {p : String × ClassId}
    (h : resolveClass record l = .ok p l') (hl : l.classes.Sited) : l'.classes.Sited := by
  obtain ⟨found, l₁, hfind, h⟩ := bind_ok.1 h
  have hl₁ : l₁.classes.Sited := by
    obtain ⟨_, rfl⟩ := EStateM.Result.ok.inj hfind
    exact Linker.Moves.sited (Linker.moves_of_asks (ClassTable.resolveName_asks record.name l.classes)) hl
  cases found with
  | none => cases h
  | some c =>
    dsimp only at h
    split at h <;> cases h
    exact hl₁

theorem resolve_sited {i : Image} {classes : Resolved} (h : resolve i l = .ok classes l')
    (hl : l.classes.Sited) : l'.classes.Sited := by
  obtain ⟨found, l₁, hfound, h⟩ := bind_ok.1 h
  rw [bind_get] at h
  obtain ⟨_, l₂, hframes, h⟩ := bind_ok.1 h
  cases h
  obtain ⟨_, rfl⟩ := ofExcept_ok.1 hframes
  exact (mapM_sited (P := fun _ _ => True) (fun _ _ => trivial) resolveClass_links
    (fun h hl => ⟨resolveClass_sited h hl, trivial⟩) hfound hl).1

variable {classes : Resolved}

/-- A frame is restored with a body that was linked just before. -/
theorem frame_sited {r : FrameRecord} {f : Frame} (h : frame classes r l = .ok f l') (hl : l.classes.Sited) :
    l'.classes.Sited ∧ f.code.Sited l'.classes := by
  unfold frame at h
  rw [bind_get] at h
  obtain ⟨m, l₁, hmethod, hrest⟩ := bind_ok.1 h
  obtain ⟨_, rfl⟩ := ofExcept_ok.1 hmethod
  obtain ⟨result, l₂, hlink, hmade⟩ := bind_ok.1 hrest
  obtain ⟨hresult, rfl⟩ := EStateM.Result.ok.inj hlink
  obtain ⟨hl₂, hcode⟩ := Linker.link_sited m.id hl
  cases result with
  | error e => cases hmade
  | ok code =>
    dsimp only at hmade
    split at hmade <;> cases hmade
    exact ⟨hl₂, hcode code hresult⟩

/-- All frames of a thread stand in bodies that fit the classes. -/
def ThreadSited (t : ClassTable) (thread : Thread FrameStack) : Prop := ∀ f ∈ thread.stack, f.code.Sited t

theorem ThreadSited.precedes {t t' : ClassTable} {thread : Thread FrameStack} (h : ThreadSited t thread)
    (hp : t.Precedes t') : ThreadSited t' thread := fun f hf => (h f hf).precedes hp

theorem thread_sited {now : UInt64} {r : ThreadRecord} {t : Thread FrameStack}
    (h : thread classes now r l = .ok t l') (hl : l.classes.Sited) :
    l'.classes.Sited ∧ ThreadSited l'.classes t := by
  obtain ⟨frames, l₁, hframes, h⟩ := bind_ok.1 h
  cases h
  obtain ⟨hl₁, hsited⟩ := mapM_sited (P := fun t f => LinkedCode.Sited t f.code)
    (fun {t t'} {f : Frame} (h : f.code.Sited t) hp => h.precedes hp) (frame_links classes) frame_sited hframes hl
  exact ⟨hl₁, fun f hf => hsited f (List.mem_reverse.1 hf)⟩

theorem state_sited {codecs : CodecRegistry} {config : Config} {now : UInt64} {i : Image} {s : State}
    (h : state classes codecs config now i l = .ok s l') (hl : l.classes.Sited) :
    l'.classes.Sited ∧ (∀ t ∈ s.threads, ThreadSited l'.classes t) ∧
      staticFields classes i = .ok s.statics := by
  obtain ⟨heap, l₁, hheap, hrest⟩ := bind_ok.1 h
  obtain ⟨_, rfl⟩ := ofExcept_ok.1 hheap
  obtain ⟨statics, l₂, hstatics, hbuilt⟩ := bind_ok.1 hrest
  obtain ⟨hfields, rfl⟩ := ofExcept_ok.1 hstatics
  obtain ⟨threads, l₃, hthreads, hmade⟩ := bind_ok.1 hbuilt
  cases hmade
  obtain ⟨hl₃, hsited⟩ := mapM_sited (P := ThreadSited) ThreadSited.precedes (thread_links classes now)
    thread_sited hthreads hl
  exact ⟨hl₃, fun t ht => hsited t ((inRotation_perm i.ready threads).mem_iff.1 ht), hfields⟩

end Linking

section Marking

/-- What marking classes as initialized leaves of a linker, and which classes are initialized then. -/
structure Marks (ids : List ClassId) (l l' : Linker) : Prop where
  regular : l.classes.Regular → l'.classes.Regular
  sited : l.classes.Sited → l'.classes.Sited
  precedes : l.classes.Precedes l'.classes
  cleared : ∀ id ∈ ids, (∃ c, l.classes.get? id = some c) → l'.classes.Cleared id
  others : ∀ id c', l'.classes.get? id = some c' → c'.element = none → c'.pendingInit = false →
    id ∈ ids ∨ ∃ c, l.classes.get? id = some c ∧ c.element = none ∧ c.pendingInit = false

/-- A class that is not an array and is initialized where more was found out was initialized before. -/
theorem cleared_of_unfolds {t t' : ClassTable} (h : t.Unfolds t') {id : ClassId} {c' : ClassInfo}
    (hc' : t'.get? id = some c') (helement : c'.element = none) (hcleared : c'.pendingInit = false) :
    ∃ c, t.get? id = some c ∧ c.element = none ∧ c.pendingInit = false := by
  cases hc : t.get? id with
  | none =>
    rw [(h.added id c' hc hc').1.2 helement] at hcleared
    cases hcleared
  | some c =>
    obtain ⟨c'', hc'', hu⟩ := h.known id c hc
    cases hc'.symm.trans hc''
    exact ⟨c, rfl, hu.element.symm.trans helement, hu.pendingInit.symm.trans hcleared⟩

theorem markInitialized_marks (id : ClassId) (l : Linker) : Marks [id] l (markInitialized id l).2 := by
  have hgrows := (Linker.prepare_grows id l).classes
  have hsited := Linker.Move.sited (.prepare id) (l := l)
  rw [markInitialized, state_bind]
  split
  · next hfound =>
    have hmarked := ClassTable.takePendingInit_precedes id (Linker.prepare id l).2.classes
    rw [prepare_fst] at hfound
    obtain ⟨c, hc⟩ := Option.isSome_iff_exists.1 hfound
    refine ⟨fun h => (h.grows hgrows).takePendingInit id, fun h => (hsited h).takePendingInit id,
      hgrows.unfolds.precedes.trans hmarked, fun x hx _ => ?_, fun x c' hc' helement hcleared => ?_⟩
    · cases List.mem_singleton.1 hx
      refine ⟨{ c with pendingInit := false }, ?_, rfl⟩
      show (ClassTable.takePendingInit id (Linker.prepare id l).2.classes).2.get? id = _
      rw [ClassTable.get?_takePendingInit, if_pos rfl, hc]
      rfl
    · by_cases hx : id = x
      · exact .inl (List.mem_singleton.2 hx.symm)
      · have hbefore : (Linker.prepare id l).2.classes.get? x = some c' := by
          have hget := ClassTable.get?_takePendingInit id x (Linker.prepare id l).2.classes
          rw [if_neg hx] at hget
          exact hget.symm.trans hc'
        exact .inr (cleared_of_unfolds hgrows.unfolds hbefore helement hcleared)
  · next hfound =>
    refine ⟨fun h => h.grows hgrows, hsited, hgrows.unfolds.precedes, fun x hx hloaded => ?_,
      fun x c' hc' helement hcleared => .inr (cleared_of_unfolds hgrows.unfolds hc' helement hcleared)⟩
    cases List.mem_singleton.1 hx
    obtain ⟨c, hc⟩ := hloaded
    obtain ⟨c', hc', _⟩ := hgrows.known id c hc
    rw [prepare_fst, hc'] at hfound
    exact absurd rfl hfound

theorem Marks.trans {ids ids' : List ClassId} {l₁ l₂ l₃ : Linker} (h : Marks ids l₁ l₂) (h' : Marks ids' l₂ l₃) :
    Marks (ids ++ ids') l₁ l₃ := by
  refine ⟨fun hl => h'.regular (h.regular hl), fun hl => h'.sited (h.sited hl), h.precedes.trans h'.precedes,
    fun id hid hc => ?_, fun id c₃ hc₃ helement hcleared => ?_⟩
  · rcases List.mem_append.1 hid with hid | hid
    · exact h'.precedes.cleared (h.cleared id hid hc)
    · obtain ⟨c, hc⟩ := hc
      obtain ⟨c₂, hc₂, _⟩ := h.precedes id c hc
      exact h'.cleared id hid ⟨c₂, hc₂⟩
  · rcases h'.others id c₃ hc₃ helement hcleared with hid | ⟨c₂, hc₂, helement₂, hcleared₂⟩
    · exact .inl (List.mem_append_right _ hid)
    · exact (h.others id c₂ hc₂ helement₂ hcleared₂).imp_left (List.mem_append_left _)

theorem markAll_marks (fields : List (ClassId × List Value)) (l : Linker) :
    Marks (fields.map (·.1)) l ((fields.forM fun (id, _) => markInitialized id).run l).2 := by
  induction fields generalizing l with
  | nil =>
    exact ⟨id, id, .refl _, fun x hx => (by cases hx), fun x c hc helement hcleared =>
      .inr ⟨c, hc, helement, hcleared⟩⟩
  | cons p fields ih => exact (markInitialized_marks p.1 l).trans (ih (markInitialized p.1 l).2)

theorem restore_regular {codecs : CodecRegistry} {i : Image} {m m' : Machine} (hm : m.classes.Regular)
    (h : restore codecs i m = .ok () m') : m'.classes.Regular := by
  obtain ⟨classes, s, l₁, l₂, hresolve, hbuild, rfl⟩ := restore_ok h
  have hgrows := (resolve_accepted hm hresolve).1.trans (state_heap hbuild).1
  exact (markAll_marks s.statics l₂).regular (hm.grows hgrows.classes)

theorem restore_keeps {codecs : CodecRegistry} {i : Image} {m m' : Machine} (hm : m.classes.Regular)
    (h : restore codecs i m = .ok () m') : m.classes.Keeps m'.classes := by
  obtain ⟨classes, s, l₁, l₂, hresolve, hbuild, rfl⟩ := restore_ok h
  have hgrows := (resolve_accepted hm hresolve).1.trans (state_heap hbuild).1
  exact hgrows.classes.keeps.trans (markAll_keeps s.statics l₂)

end Marking

section Installation

theorem slots?_foldl_restore (fields : List (ClassId × List Value)) (s : Statics) (id : ClassId) :
    let s' := fields.foldl (fun s (id, values) => s.restore id values) s
    (∀ values, s'.slots? id = some values →
      (∃ p ∈ fields, p.1 = id ∧ p.2.toArray = values) ∨ s.slots? id = some values) ∧
    (id ∈ fields.map (·.1) ∨ (∃ values, s.slots? id = some values) → ∃ values, s'.slots? id = some values) := by
  induction fields generalizing s with
  | nil => exact ⟨fun _ h => .inr h, fun h => h.resolve_left fun hid => by cases hid⟩
  | cons p fields ih =>
    obtain ⟨hfrom, hto⟩ := ih (s.restore p.1 p.2)
    have hslots : (s.restore p.1 p.2).slots? id = if p.1 = id then some p.2.toArray else s.slots? id :=
      Maps.getElem?_insert_eq s.slots p.1 id p.2.toArray
    refine ⟨fun values hvalues => ?_, fun h => hto ?_⟩
    · rcases hfrom values hvalues with ⟨q, hq, hid, hvalues⟩ | hold
      · exact .inl ⟨q, List.mem_cons_of_mem _ hq, hid, hvalues⟩
      · rw [hslots] at hold
        split at hold
        · next hid =>
          cases hold
          exact .inl ⟨p, List.mem_cons_self, hid, rfl⟩
        · exact .inr hold
    · rw [hslots]
      split
      · exact .inr ⟨_, rfl⟩
      · next hid =>
        refine h.imp_left fun hmem => ?_
        rcases List.mem_cons.1 hmem with heq | hmem
        · exact absurd heq.symm hid
        · exact hmem

/-- The image has static fields for every class the machine has initialized. -/
def Image.Covers (i : Image) (m : Machine) : Prop :=
  ∀ id c, m.classes.get? id = some c → c.element = none → c.pendingInit = false →
    ∃ record ∈ i.statics, record.className = c.name

variable {codecs : CodecRegistry} {i : Image} {source m m' : Machine}

/-- A class the image has static fields for has as many of them as it had in the source. -/
theorem statics_accepted {classes : Resolved} {t : ClassTable} {record : StaticsRecord} {id : ClassId}
    (hsource : Stored source) (hi : Captures codecs source i)
    (haccepted : List.Forall₂ (fun record p => p.1 = record.name ∧ Accepted t record p.2) i.classes classes)
    (hshapes : Describable source.classes) (hshapes' : Describable t)
    (hhash : Collisionless source.classes t) (hrecord : record ∈ i.statics)
    (hfind : classes.find record.className = .ok id) :
    ∃ c, t.get? id = some c ∧ c.name = record.className ∧ record.values.length = c.staticKinds.length := by
  obtain ⟨id₀, hid₀, hwritten⟩ := exists_left hi.statics hrecord
  obtain ⟨name, hname, heq⟩ := except_bind_ok.1 hwritten
  cases heq
  obtain ⟨c₀, hc₀⟩ := known_of_className hname
  have hname₀ : name = c₀.name := by
    simp only [className, hc₀, Except.ok.injEq] at hname
    exact hname.symm
  obtain ⟨listed, hlisted, hlistedName, c, hc, hcname, hcequal⟩ := exists_left haccepted (mem_of_find hfind)
  rw [hi.classes] at hlisted
  have hrecord₀ := classRecord_eq hsource.regular hlisted hc₀ (hlistedName.symm.trans hname₀)
  rw [hrecord₀] at hcname hcequal
  have hbytes := hhash id₀ id c₀ c hc₀ hc hcname hcequal
  have hkinds := ClassInfo.staticKinds_congr
    (ClassInfo.shape_of_bytes (hshapes id₀ c₀ hc₀).1 (hshapes' id c hc).1 hbytes)
  refine ⟨c, hc, hcname.trans hname₀.symm, ?_⟩
  obtain ⟨values, hvalues⟩ : ∃ values, source.statics.slots? id₀ = some values :=
    Option.isSome_iff_exists.1 (Std.ExtTreeMap.mem_iff_isSome_getElem?.1 (Std.ExtTreeMap.mem_keys.1 hid₀))
  obtain ⟨c₁, hc₁, _, hsize⟩ := hsource.statics.held id₀ values hvalues
  cases hc₀.symm.trans hc₁
  simp [hvalues, hsize, hkinds]

/-- What an image that covers a machine is restored to. -/
theorem restore_stored (hsource : Stored source) (hm : Stored m) (hcapture : capture codecs source = .ok i)
    (hrestore : restore codecs i m = .ok () m') (hcovers : i.Covers m)
    (hshapes : Describable source.classes) (hshapes' : Describable m'.classes)
    (hhash : Collisionless source.classes m'.classes) : Stored m' := by
  have hi := capture_ok.1 hcapture
  obtain ⟨classes, s, l₁, l₂, hresolve, hbuild, rfl⟩ := restore_ok hrestore
  obtain ⟨hgrows₁, haccepted⟩ := resolve_accepted hm.regular hresolve
  obtain ⟨hgrows₂, -⟩ := state_heap hbuild
  have hgrows : m.linker.Grows l₂ := hgrows₁.trans hgrows₂
  obtain ⟨hsited, hthreads, hfields⟩ := state_sited hbuild (resolve_sited hresolve hm.sited)
  have hmarks := markAll_marks s.statics l₂
  set m' := install { m with linker := l₂ } s with hm'
  have hregular : m'.classes.Regular := hmarks.regular (hm.regular.grows hgrows.classes)
  have haccepted' := haccepted.imp fun record p hp => And.intro hp.1
    (hp.2.keeps (hgrows₂.classes.keeps.trans (markAll_keeps s.statics l₂)))
  have hlisted : ∀ p ∈ s.statics, ∃ record ∈ i.statics, classes.find record.className = .ok p.1 ∧
      record.values = p.2 := by
    intro p hp
    obtain ⟨record, hrecord, hrun⟩ := exists_left (mapM_ok.1 hfields) hp
    obtain ⟨id, hfind, heq⟩ := except_bind_ok.1 hrun
    cases heq
    exact ⟨record, hrecord, hfind, rfl⟩
  have hstatics := slots?_foldl_restore s.statics {}
  refine ⟨hregular, hmarks.sited hsited, fun code hcode => ?_, ⟨fun id values hvalues => ?_,
    fun id c hc helement hcleared => (hstatics id).2 (.inl ?_)⟩⟩
  · cases hcode with
    | running hf hcode =>
      exact (hm.bodies code (.running hf hcode)).precedes
        (hgrows.classes.unfolds.precedes.trans hmarks.precedes)
    | parked hr hf hcode =>
      rcases get?_foldl_insert s.threads m.scheduler hr with hmem | hold
      · exact hcode ▸ (hthreads _ hmem _ hf).precedes hmarks.precedes
      · exact (hm.bodies code (.parked hold hf hcode)).precedes
          (hgrows.classes.unfolds.precedes.trans hmarks.precedes)
  · rcases (hstatics id).1 values hvalues with ⟨p, hp, rfl, rfl⟩ | hnone
    · obtain ⟨record, hrecord, hfind, hvalues⟩ := hlisted p hp
      obtain ⟨c, hc, _, hlength⟩ :=
        statics_accepted hsource hi haccepted' hshapes hshapes' hhash hrecord hfind
      obtain ⟨listed, _, _, c₁, hc₁, _⟩ := exists_left haccepted (mem_of_find hfind)
      obtain ⟨c₂, hc₂, _⟩ := hgrows₂.classes.known _ c₁ hc₁
      obtain ⟨c', hc', hcleared⟩ := hmarks.cleared p.1 (List.mem_map_of_mem hp) ⟨c₂, hc₂⟩
      cases hc.symm.trans hc'
      exact ⟨c, hc, hcleared, by simp [← hvalues, hlength]⟩
    · simp [Statics.slots?] at hnone
  · rcases hmarks.others id c hc helement hcleared with hmem | ⟨c₂, hc₂, helement₂, hcleared₂⟩
    · exact hmem
    · obtain ⟨c₀, hc₀, helement₀, hcleared₀⟩ :=
        cleared_of_unfolds hgrows.classes.unfolds hc₂ helement₂ hcleared₂
      obtain ⟨record, hrecord, hname⟩ := hcovers id c₀ hc₀ helement₀ hcleared₀
      obtain ⟨p, hp, hrun⟩ := exists_right (mapM_ok.1 hfields) hrecord
      obtain ⟨id', hfind, heq⟩ := except_bind_ok.1 hrun
      cases heq
      obtain ⟨c', hc', hname', _⟩ :=
        statics_accepted hsource hi haccepted' hshapes hshapes' hhash hrecord hfind
      obtain ⟨c₃, hc₃, hdeclared⟩ :=
        (hgrows.classes.keeps.trans (markAll_keeps s.statics l₂)) id c₀ hc₀
      have hsame : id' = id := hregular.eq_of_name hc₃ hc'
        (hname'.trans (hname.trans (congrArg ClassDefinition.name hdeclared).symm))
      exact List.mem_map.2 ⟨_, hp, hsame⟩

end Installation

/-- Machines a host comes to: it makes one, offers natives, asks for what it likes, whatever comes of it,
and goes on from images of others it came to, where an image covers the machine it is restored into. -/
inductive Hosted : Machine → Prop
  | made {l : Linker} {config : Config} {now : UInt64} {m : Machine} (hl : l.Reachable)
      (h : create l.classes config now = .ok m) : Hosted m
  | offered {m : Machine} (h : Hosted m) (owner name descriptor : String) (native : HostNative) :
      Hosted (HostAct.leaving (do let _ ← registerNative owner name descriptor native) m)
  | served {m : Machine} (h : Hosted m) (c : HostCall) : Hosted (HostAct.leaving c.serve m)
  | restored {source m m' : Machine} {codecs : CodecRegistry} {i : Image} (hsource : Hosted source)
      (h : Hosted m) (hcapture : capture codecs source = .ok i) (hrestore : restore codecs i m = .ok () m')
      (hcovers : i.Covers m) (hshapes : Describable source.classes) (hshapes' : Describable m'.classes)
      (hhash : Collisionless source.classes m'.classes) : Hosted m'

theorem Hosted.stored {m : Machine} (h : Hosted m) : Stored m := by
  induction h with
  | made hl h => exact stored_of_create hl h
  | offered h owner name descriptor native ih =>
    have hoffered := registerNative_upholds owner name descriptor native
    exact (Upholds.leaving (hoffered.bind fun _ => .pure _) ih).stored
  | served h c ih => exact (Upholds.leaving (serve_upholds c) ih).stored
  | restored _ _ hcapture hrestore hcovers hshapes hshapes' hhash ihsource ih =>
    exact restore_stored ihsource ih hcapture hrestore hcovers hshapes hshapes' hhash

/-- A class is initialized if and only if its static fields are stored, one for each that it declares, and
nothing the host asks for ends for want of a static field. -/
theorem initialized_iff_stored {m : Machine} (h : Hosted m) :
    (∀ id c, m.classes.get? id = some c → c.element = none →
      (c.pendingInit = false ↔ ∃ values, m.statics.slots? id = some values) ∧
      ∀ values, m.statics.slots? id = some values → values.size = c.staticKinds.length) ∧
    ∀ (call : HostCall) (e : HostError) (m' : Machine), call.serve m = .error e m' → e.isSlotless = false := by
  have hstored := h.stored
  refine ⟨fun id c hc helement => ?_, fun call e m' he => ((serve_upholds call m hstored).of_error he).2⟩
  have hheld : ∀ values, m.statics.slots? id = some values →
      c.pendingInit = false ∧ values.size = c.staticKinds.length := by
    intro values hvalues
    obtain ⟨c', hc', hcleared, hsize⟩ := hstored.statics.held id values hvalues
    cases hc.symm.trans hc'
    exact ⟨hcleared, hsize⟩
  exact ⟨⟨hstored.statics.given id c hc helement, fun ⟨values, hvalues⟩ => (hheld values hvalues).1⟩,
    fun values hvalues => (hheld values hvalues).2⟩

theorem hosted_serveAll {calls : List HostCall} {m m' : Machine} (hm : Hosted m)
    (h : HostCall.serveAll calls m = some m') : Hosted m' := by
  refine HostCall.serveAll_keeps (fun c _ n n' hserved hn => ?_) h hm
  have hafter := hn.served c
  rwa [HostAct.leaving, hserved] at hafter

/-- The image covers all classes one by one. -/
def Image.coversEach (i : Image) (m : Machine) : Bool :=
  m.classes.classes.toList.all fun c =>
    c.isArray || c.pendingInit || i.statics.any fun record => record.className = c.name

theorem Image.covers_of_coversEach {i : Image} {m : Machine} (h : i.coversEach m = true) : i.Covers m := by
  intro id c hc helement hcleared
  have hclass := List.all_eq_true.1 h c (ClassTable.mem_toList.2 ⟨id, hc⟩)
  simp only [ClassInfo.isArray, helement, hcleared, Option.isSome_none, Bool.false_or] at hclass
  obtain ⟨record, hrecord, hname⟩ := List.any_eq_true.1 hclass
  exact ⟨record, hrecord, of_decide_eq_true hname⟩

/-- A class with a static field and a method that reads it. -/
def box : ClassDefinition where
  name := "Box"
  fields := [⟨"x", "I", .staticFlag⟩]
  constants := [.fieldRef ⟨"Box", "x", "I"⟩]
  methods := [{ name := "peek", descriptor := "()I", flags := .staticFlag
                code := some { maxStack := 1, code := #[0xb2, 0, 1, 0xac] } }]

def peek : HostCall := .invoke 4 "Box" "peek" "()I" []

/-- A linker whose exception for a full heap has nothing to it. -/
def spare : Linker := (Linker.Request.register { name := CoreName.outOfMemory }).run {}

/-- Whether the class is initialized, and what is stored for it. -/
def boxed (m : Machine) (stored : Option (Array Value)) : Bool :=
  ((m.classes.lookup? box.name).bind fun id => (m.classes.get? id).map fun c => (id, c)).any fun (id, c) =>
    decide (c.element = none ∧ c.pendingInit = false ∧ m.statics.slots? id = stored)

theorem of_boxed {m : Machine} {stored : Option (Array Value)} (h : boxed m stored = true) :
    ∃ id c, m.classes.get? id = some c ∧ c.element = none ∧ c.pendingInit = false ∧
      m.statics.slots? id = stored := by
  obtain ⟨⟨id, c⟩, hfound, hdecided⟩ := (Option.any_eq_true ..).1 h
  obtain ⟨id', _, hc⟩ := Option.bind_eq_some_iff.1 hfound
  obtain ⟨c', hc', heq⟩ := Option.map_eq_some_iff.1 hc
  cases heq
  exact ⟨id, c, hc', of_decide_eq_true hdecided⟩

/-- Every class has a shape that fits its counts. -/
def describes (t : ClassTable) : Bool := t.classes.toList.all fun c => c.shape.Measured && c.superName ≠ some ""

theorem describable_of_describes {t : ClassTable} (h : describes t = true) : Describable t := fun id c hc => by
  simpa only [Bool.and_eq_true, decide_eq_true_eq] using
    List.all_eq_true.1 h c (ClassTable.mem_toList.2 ⟨id, hc⟩)

/-- A machine that has read the field goes on from its own image. -/
def goesOn (m : Machine) : Bool :=
  (HostCall.serveAll [.load box, peek] m).any fun used =>
    (capture [] used).toOption.any (·.coversEach used) &&
    restoresTo used used fun m' => describes used.classes && describes m'.classes &&
      boxed m' (some #[Value.int 0])

/-- A machine that has read the field does not go on from the image of one that has not. -/
def stops (m : Machine) : Bool :=
  match HostCall.serveAll [.load box] m, HostCall.serveAll [.load box, peek] m with
  | some fresh, some used => restoresTo fresh used fun m' => boxed m' none && match peek.serve m' with
    | .ok _ _ => false
    | .error e _ => e.isSlotless
  | _, _ => false

theorem hosted_of_spare {m : Machine} (h : (create spare.classes {} 0).toOption = some m) : Hosted m :=
  .made ⟨.generic, Linker.leads_foldl [.register { name := CoreName.outOfMemory }] {}⟩ (created_of_toOption h)

theorem exists_hosted {p : Machine → Bool} (h : (create spare.classes {} 0).toOption.any p = true) :
    ∃ m, Hosted m ∧ p m = true := by
  obtain ⟨m, hm, hp⟩ := (Option.any_eq_true ..).1 h
  exact ⟨m, hosted_of_spare hm, hp⟩

theorem exists_peeks : ∃ m, Hosted m ∧ (goesOn m && stops m) = true := exists_hosted (by decide +kernel)

theorem initialized_iff_stored_used : ∃ source target i m', Hosted source ∧ Hosted target ∧
    capture [] source = .ok i ∧ restore [] i target = .ok () m' ∧ i.Covers target ∧
    ∃ id c, m'.classes.get? id = some c ∧ c.element = none ∧ c.pendingInit = false ∧
      m'.statics.slots? id = some #[.int 0] ∧ c.staticKinds.length = 1 ∧
      ∀ e m'', peek.serve m' = .error e m'' → e.isSlotless = false := by
  obtain ⟨m, hm, hpeeks⟩ := exists_peeks
  obtain ⟨used, hserved, hruns⟩ := (Option.any_eq_true ..).1 (Bool.and_eq_true_iff.1 hpeeks).1
  have hused : Hosted used := hosted_serveAll hm hserved
  obtain ⟨hcovered, hrun⟩ := Bool.and_eq_true_iff.1 hruns
  obtain ⟨i, m', hcapture, hrestore, hresult⟩ := exists_of_restoresTo hused.stored.regular hrun
  simp only [Bool.and_eq_true] at hresult
  obtain ⟨⟨hshaped, hshaped'⟩, hboxed⟩ := hresult
  rw [hcapture] at hcovered
  have hcovers : i.Covers used := Image.covers_of_coversEach hcovered
  have hregular' : m'.classes.Regular := restore_regular hused.stored.regular hrestore
  have hm' : Hosted m' := .restored hused hused hcapture hrestore hcovers
    (describable_of_describes hshaped) (describable_of_describes hshaped')
    (collisionless_of_keeps hregular' (restore_keeps hused.stored.regular hrestore))
  obtain ⟨id, c, hc, helement, hcleared, hstored⟩ := of_boxed hboxed
  have hall := initialized_iff_stored hm'
  exact ⟨used, used, i, m', hused, hused, hcapture, hrestore, hcovers, id, c, hc, helement, hcleared, hstored,
    ((hall.1 id c hc helement).2 _ hstored).symm, hall.2 peek⟩

/-- Where the machine has initialized a class that the image has no static fields for, the class stays
initialized, nothing is stored for it, and a method that reads its field cannot go on. -/
theorem initialized_unstored : ∃ source target i m', Hosted source ∧ Hosted target ∧
    capture [] source = .ok i ∧ restore [] i target = .ok () m' ∧
    (∃ id c, m'.classes.get? id = some c ∧ c.element = none ∧ c.pendingInit = false ∧
      m'.statics.slots? id = none) ∧
    ∃ e m'', peek.serve m' = .error e m'' ∧ e.isSlotless = true := by
  obtain ⟨m, hm, hpeeks⟩ := exists_peeks
  have hrun := (Bool.and_eq_true_iff.1 hpeeks).2
  unfold stops at hrun
  split at hrun
  case h_2 => cases hrun
  case h_1 fresh used hfresh hserved =>
  have hused : Hosted used := hosted_serveAll hm hserved
  obtain ⟨i, m', hcapture, hrestore, hresult⟩ := exists_of_restoresTo hused.stored.regular hrun
  obtain ⟨hboxed, hfails⟩ := Bool.and_eq_true_iff.1 hresult
  refine ⟨fresh, used, i, m', hosted_serveAll hm hfresh, hused, hcapture, hrestore, of_boxed hboxed, ?_⟩
  cases hserve : peek.serve m' with
  | ok u m'' =>
    rw [hserve] at hfails
    cases hfails
  | error e m'' =>
    rw [hserve] at hfails
    exact ⟨e, m'', rfl, hfails⟩

end Snapshot

end ClassMachine
