import ClassMachine.Machine.Unwinding
import ClassMachine.Proofs.Link.Subtypes
import ClassMachine.Proofs.Sync.Orderly

/-!
Unwinding. The frame that goes on is the first one, the running frame before its callers, with a handler
that guards the instruction before the counter and takes exceptions of the class; the first such handler
of its table is where it goes on. Frames before it are gone, and the monitors held for them are left in
that order. To look for handlers links are looked up, which changes no later answer.
-/
namespace ClassMachine

open Stateful

/-- Whether exceptions of a class are caught. -/
def CatchType.takes (t : ClassTable) (thrown : ClassId) : CatchType → Bool
  | .any => true
  | .type id => (ClassTable.isSubclass thrown id t).1
  | .unresolved _ => false

/-- The first handler that guards the instruction before the counter and takes exceptions of the class. -/
def Frame.handler? (t : ClassTable) (thrown : ClassId) (f : Frame) : Option Handler :=
  if f.pc = 0 then none
  else f.code.handlers.find? fun h => h.covers (f.pc - 1) && h.catches.takes t thrown

namespace Arena

variable {σ : Type}

/-- Objects and threads after a thread has left the monitor of an object once. The next entrant is woken, if
the monitor was passed to one. A monitor that the thread does not own stays as it is. -/
def left (t : ThreadId) (a : Arena σ) (object : Ref) : Arena σ :=
  match a.monitor? object with
  | none => a
  | some m =>
    match m.exit t with
    | .ok (next, n) => { a.withMonitor object n with scheduler := passTo a.scheduler next }
    | .error _ => a

/-- Objects and threads after a thread has left the monitors held for some frames, the running one first. -/
def vacated (t : ThreadId) (a : Arena σ) (gone : FrameStack) : Arena σ :=
  (gone.filterMap Frame.monitor).foldl (left t) a

variable {t : ThreadId} {a : Arena σ} {object : Ref}

theorem left_of_ok {m n : Monitor} {next : Option WaitToken} (hm : a.monitor? object = some m)
    (h : m.exit t = .ok (next, n)) :
    a.left t object = { a.withMonitor object n with scheduler := passTo a.scheduler next } := by
  unfold left
  simp only [hm, h]

theorem left_of_error {m : Monitor} {e : MonitorError} (hm : a.monitor? object = some m)
    (h : m.exit t = .error e) : a.left t object = a := by
  unfold left
  simp only [hm, h]

/-- Leaving monitors neither makes nor frees objects. -/
theorem isSome_left (t : ThreadId) (a : Arena σ) (object r : Ref) :
    ((a.left t object).heap.get? r).isSome = (a.heap.get? r).isSome := by
  cases hm : a.monitor? object with
  | none =>
    unfold left
    rw [hm]
  | some m =>
    cases hexit : m.exit t with
    | error e => rw [left_of_error hm hexit]
    | ok pair =>
      rw [left_of_ok hm hexit]
      show ((a.heap.update object _).get? r).isSome = _
      rw [Heap.get?_update]
      split <;> simp

/-- A thread that holds a monitor once passes it to the first in line, at the depth that one asks for, and
wakes it. -/
theorem left_passes {m : Monitor} {next : WaitToken} {rest : List WaitToken}
    (hm : a.monitor? object = some m) (howner : m.ownedBy t = true) (hcount : m.count = 1)
    (hnext : m.entrants = next :: rest) :
    (a.left t object).monitor? object =
        some { m with owner := some next.thread, count := next.reentrancy, entrants := rest } ∧
      (a.left t object).scheduler = (a.scheduler.attach next.thread).2 := by
  have hexit : m.exit t = .ok
      (some next, { m with owner := some next.thread, count := next.reentrancy, entrants := rest }) := by
    unfold Monitor.exit Monitor.handOff
    rw [if_pos howner, hcount, if_neg (by decide)]
    simp only [hnext]
  rw [left_of_ok hm hexit]
  refine ⟨?_, rfl⟩
  have hafter := monitor?_withMonitor hm
    { m with owner := some next.thread, count := next.reentrancy, entrants := rest } object
  rw [if_pos rfl] at hafter
  exact hafter

end Arena

namespace Sync

variable {σ α : Type} {o : Ref} {a : Arena σ} {f : Monitor → Except MonitorError (α × Monitor)}

theorem onMonitor_of_error {m : Monitor} {e : MonitorError} (hm : a.monitor? o = some m)
    (hf : f m = .error e) : onMonitor o f a = .error (.monitor e) a := by
  unfold onMonitor
  rw [bind_of_ok (monitorOf_of_some hm), hf]
  rfl

theorem onMonitor_of_dead (h : a.heap.get? o = none) :
    onMonitor o f a = .error (.fatal (.inconsistent (.deadMonitor o))) a := by
  refine bind_of_error ?_
  unfold monitorOf
  rw [bind_get, h]
  rfl

end Sync

namespace Machine

variable {m : Machine} {t : ThreadId} {thrown : ClassId}

/-- The machine with other classes. -/
def withClasses (m : Machine) (c : ClassTable) : Machine :=
  { m with linker := { m.linker with classes := c } }

/-- What a machine is when frames are gone. Others are left, and classes in which links were looked up. -/
def unwound (t : ThreadId) (gone left : FrameStack) (c : ClassTable) (m : Machine) : Machine :=
  { m.withClasses c with
    heap := (Arena.vacated t ⟨m.heap, m.scheduler⟩ gone).heap
    scheduler := (Arena.vacated t ⟨m.heap, m.scheduler⟩ gone).scheduler
    active := left }

theorem unwound_unwound (gone gone' left left' : FrameStack) (c c' : ClassTable) :
    (m.unwound t gone left c).unwound t gone' left' c' = m.unwound t (gone ++ gone') left' c' := by
  unfold unwound Arena.vacated
  rw [List.filterMap_append, List.foldl_append]
  rfl

section Handlers

variable {c : ClassTable}

theorem takes_of_concurs (h : m.classes.Concurs c) (thrown : ClassId) (catches : CatchType) :
    catches.takes c thrown = catches.takes m.classes thrown := by
  cases catches with
  | any => rfl
  | type id => exact h.isSubclass thrown id
  | unresolved symbol => rfl

theorem handler?_of_concurs (h : m.classes.Concurs c) (thrown : ClassId) (f : Frame) :
    f.handler? c thrown = f.handler? m.classes thrown := by
  unfold Frame.handler?
  simp only [takes_of_concurs h]

theorem catches_eq (thrown : ClassId) (catches : CatchType) (m : Machine) :
    ∃ c, m.classes.Concurs c ∧
      Machine.catches thrown catches m = .ok (catches.takes m.classes thrown) (m.withClasses c) := by
  cases catches with
  | any => exact ⟨m.classes, .refl _, rfl⟩
  | type id => exact ⟨_, ClassTable.concurs_isSubclass thrown id m.classes, rfl⟩
  | unresolved symbol => exact ⟨m.classes, .refl _, rfl⟩

theorem findHandler_eq (thrown : ClassId) (index : Nat) (handlers : List Handler) (m : Machine) :
    ∃ c, m.classes.Concurs c ∧
      findHandler thrown index handlers m =
        .ok (handlers.find? fun h => h.covers index && h.catches.takes m.classes thrown)
          (m.withClasses c) := by
  induction handlers generalizing m with
  | nil => exact ⟨m.classes, .refl _, rfl⟩
  | cons h rest ih =>
    rw [findHandler]
    by_cases hcovers : h.covers index
    · obtain ⟨c, hc, hrun⟩ := catches_eq thrown h.catches m
      rw [if_pos hcovers, bind_of_ok hrun]
      by_cases htakes : h.catches.takes m.classes thrown
      · refine ⟨c, hc, ?_⟩
        rw [if_pos htakes, List.find?_cons_of_pos (by simp [hcovers, htakes])]
        rfl
      · -- what was looked up for this handler changes nothing for the next ones
        obtain ⟨c', hc', hrest⟩ := ih (m.withClasses c)
        refine ⟨c', hc.trans hc', ?_⟩
        rw [if_neg htakes, List.find?_cons_of_neg (by simp [htakes]), hrest]
        simp only [takes_of_concurs (m := m) (c := (m.withClasses c).classes) hc]
        rfl
    · obtain ⟨c, hc, hrest⟩ := ih m
      refine ⟨c, hc, ?_⟩
      rw [if_neg hcovers, List.find?_cons_of_neg (by simp [hcovers]), hrest]

theorem handlerOf_eq (thrown : ClassId) (f : Frame) (m : Machine) :
    ∃ c, m.classes.Concurs c ∧
      handlerOf thrown f m = .ok (f.handler? m.classes thrown) (m.withClasses c) := by
  unfold handlerOf Frame.handler?
  cases f.pc with
  | zero => exact ⟨m.classes, .refl _, rfl⟩
  | succ index => exact findHandler_eq thrown index f.code.handlers m

end Handlers

section Monitors

variable {f : Frame}

/-- The object whose monitor is held for a frame, if there is one, is live. -/
def Guards (m : Machine) (f : Frame) : Prop := ∀ r, f.monitor = some r → (m.heap.get? r).isSome

/-- Unwinding neither makes nor frees objects. -/
theorem isSome_unwound (gone left : FrameStack) (c : ClassTable) (r : Ref) :
    ((m.unwound t gone left c).heap.get? r).isSome = (m.heap.get? r).isSome := by
  have hlive : ∀ (objects : List Ref) (a : Arena FrameStack) r,
      ((objects.foldl (Arena.left t) a).heap.get? r).isSome = (a.heap.get? r).isSome := by
    intro objects
    induction objects with
    | nil => exact fun _ _ => rfl
    | cons object rest ih => exact fun a r => (ih (a.left t object) r).trans (a.isSome_left t object r)
  exact hlive (gone.filterMap Frame.monitor) ⟨m.heap, m.scheduler⟩ r

theorem guards_unwound (gone left : FrameStack) (c : ClassTable) (g : Frame) :
    (m.unwound t gone left c).Guards g ↔ m.Guards g := by
  unfold Guards
  simp only [isSome_unwound]

theorem releaseMonitor_of_guards (h : m.Guards f) :
    releaseMonitor t f m = .ok () (m.unwound t [f] m.active m.classes) := by
  unfold releaseMonitor unwound Arena.vacated
  cases hf : f.monitor with
  | none => simp only [List.filterMap_cons, hf]; rfl
  | some object =>
    simp only [List.filterMap_cons, hf, List.filterMap_nil, List.foldl_cons, List.foldl_nil]
    obtain ⟨o, ho⟩ := Option.isSome_iff_exists.1 (h object hf)
    have hm : Arena.monitor? ⟨m.heap, m.scheduler⟩ object = some o.monitor := by
      unfold Arena.monitor?
      rw [ho]
      rfl
    cases hexit : o.monitor.exit t with
    | ok pair =>
      obtain ⟨next, n⟩ := pair
      have hrun : onSync (Sync.exit t object) m = .ok (.ok ()) { m with
          heap := (Arena.left t ⟨m.heap, m.scheduler⟩ object).heap
          scheduler := (Arena.left t ⟨m.heap, m.scheduler⟩ object).scheduler } := by
        unfold onSync Sync.exit
        rw [bind_of_ok (Sync.onMonitor_of_ok hm hexit), Sync.handOver_eq, Arena.left_of_ok hm hexit]
        rfl
      rw [bind_of_ok hrun]
      rfl
    | error e =>
      have hrun : onSync (Sync.exit t object) m = .ok (.error (.monitor e)) m := by
        unfold onSync Sync.exit
        rw [bind_of_error (Sync.onMonitor_of_error hm hexit)]
      rw [bind_of_ok hrun, Arena.left_of_error hm hexit]
      rfl

theorem releaseMonitor_of_dead {object : Ref} (hf : f.monitor = some object)
    (h : m.heap.get? object = none) :
    releaseMonitor t f m = .error (.fatal (.inconsistent (.deadMonitor object))) m := by
  have hrun : onSync (Sync.exit t object) m =
      .ok (.error (.fatal (.inconsistent (.deadMonitor object)))) m := by
    unfold onSync Sync.exit
    rw [bind_of_error (Sync.onMonitor_of_dead h)]
  unfold releaseMonitor
  rw [hf]
  dsimp only
  rw [bind_of_ok hrun]
  rfl

end Monitors

section Frames

variable {e : Ref}

/-- A frame goes when it takes no exceptions of the class and the monitor held for it can be left. -/
def Gives (m : Machine) (thrown : ClassId) (f : Frame) : Prop :=
  f.handler? m.classes thrown = none ∧ m.Guards f

theorem gives_unwound {gone left : FrameStack} {c : ClassTable} (hc : m.classes.Concurs c) (g : Frame) :
    (m.unwound t gone left c).Gives thrown g ↔ m.Gives thrown g :=
  and_congr (by rw [← handler?_of_concurs hc]; rfl) (guards_unwound gone left c g)

/-- Frames that take no exceptions of the class are gone, the running one first. -/
theorem unwindFrames_append (gone left : FrameStack) (m : Machine) (hgone : ∀ f ∈ gone, m.Gives thrown f)
    (hactive : m.active = gone ++ left) :
    ∃ c, m.classes.Concurs c ∧ unwindFrames t e thrown (gone ++ left) m =
      unwindFrames t e thrown left (m.unwound t gone left c) := by
  induction gone generalizing m with
  | nil =>
    refine ⟨m.classes, .refl _, ?_⟩
    have hsame : m.unwound t [] left m.classes = m := by
      unfold unwound
      rw [← show m.active = left from hactive]
      rfl
    rw [hsame]
    rfl
  | cons f gone ih =>
    obtain ⟨hnone, hholds⟩ := hgone f List.mem_cons_self
    obtain ⟨c, hc, hhandler⟩ := handlerOf_eq thrown f m
    let m₁ : Machine := { m.withClasses c with active := gone ++ left }
    have hrelease : releaseMonitor t f m₁ = .ok () (m.unwound t [f] (gone ++ left) c) :=
      releaseMonitor_of_guards (m := m₁) hholds
    obtain ⟨c', hc', hrest⟩ := ih (m.unwound t [f] (gone ++ left) c)
      (fun g hg => (gives_unwound hc g).2 (hgone g (List.mem_cons_of_mem f hg))) rfl
    refine ⟨c', hc.trans hc', ?_⟩
    rw [List.cons_append, unwindFrames, bind_of_ok hhandler, hnone]
    dsimp only
    rw [bind_modify, bind_of_ok hrelease, hrest, unwound_unwound]
    rfl

theorem unwindFrames_caught {f : Frame} {h : Handler} (left : FrameStack) (m : Machine)
    (hf : f.handler? m.classes thrown = some h) :
    ∃ c, m.classes.Concurs c ∧ unwindFrames t e thrown (f :: left) m =
      .ok true { m.withClasses c with active := { f with stack := [.ref e], pc := h.target } :: left } := by
  obtain ⟨c, hc, hhandler⟩ := handlerOf_eq thrown f m
  refine ⟨c, hc, ?_⟩
  rw [unwindFrames, bind_of_ok hhandler, hf]
  rfl

theorem unwindFrames_deadMonitor {f : Frame} {r : Ref} (left : FrameStack) (m : Machine)
    (hf : f.handler? m.classes thrown = none) (hr : f.monitor = some r) (hdead : m.heap.get? r = none) :
    ∃ c, m.classes.Concurs c ∧ unwindFrames t e thrown (f :: left) m =
      .error (.fatal (.inconsistent (.deadMonitor r))) { m.withClasses c with active := left } := by
  obtain ⟨c, hc, hhandler⟩ := handlerOf_eq thrown f m
  refine ⟨c, hc, ?_⟩
  rw [unwindFrames, bind_of_ok hhandler, hf]
  dsimp only
  rw [bind_modify]
  exact bind_of_error (releaseMonitor_of_dead (m := { m.withClasses c with active := left }) hr hdead)

/-- An exception nobody takes leaves no frames. -/
theorem unwindFrames_uncaught (m : Machine) (h : ∀ f ∈ m.active, m.Gives thrown f) :
    ∃ c, m.classes.Concurs c ∧
      unwindFrames t e thrown m.active m = .ok false (m.unwound t m.active [] c) := by
  obtain ⟨c, hc, hrun⟩ := unwindFrames_append (t := t) (e := e) m.active [] m h (by simp)
  rw [List.append_nil] at hrun
  exact ⟨c, hc, hrun⟩

/-- An exception that is taken leaves the frames from the first that takes it on. -/
theorem unwindFrames_taken {gone left : FrameStack} {f : Frame} {h : Handler} (m : Machine)
    (hactive : m.active = gone ++ f :: left) (hgone : ∀ g ∈ gone, m.Gives thrown g)
    (hf : f.handler? m.classes thrown = some h) :
    ∃ c, m.classes.Concurs c ∧ unwindFrames t e thrown m.active m =
      .ok true (m.unwound t gone ({ f with stack := [.ref e], pc := h.target } :: left) c) := by
  obtain ⟨c, hc, hrun⟩ := unwindFrames_append (t := t) (e := e) gone (f :: left) m hgone hactive
  have hf' : f.handler? (m.unwound t gone (f :: left) c).classes thrown = some h :=
    (handler?_of_concurs hc thrown f).trans hf
  obtain ⟨c', hc', hcaught⟩ := unwindFrames_caught (e := e) (t := t) left _ hf'
  exact ⟨c', hc.trans hc', by rw [hactive, hrun, hcaught]; rfl⟩

/-- Frames of which one does not go are split at the first such frame. -/
theorem gives_or_stays (m : Machine) (thrown : ClassId) (frames : FrameStack) :
    (∀ f ∈ frames, m.Gives thrown f) ∨ ∃ gone f left, frames = gone ++ f :: left ∧
      (∀ g ∈ gone, m.Gives thrown g) ∧ ¬ m.Gives thrown f := by
  classical
  cases hfind : frames.find? fun f => ¬ m.Gives thrown f with
  | none =>
    rw [List.find?_eq_none] at hfind
    exact .inl fun f hf => by simpa using hfind f hf
  | some f =>
    obtain ⟨hf, gone, left, rfl, hgone⟩ := List.find?_eq_some_iff_append.1 hfind
    exact .inr ⟨gone, f, left, rfl, fun g hg => by simpa using hgone g hg, by simpa using hf⟩

/-- A frame that takes no exceptions of the class, and does not go, holds a monitor whose object is gone. -/
theorem exists_dead {f : Frame} (hstays : ¬ m.Gives thrown f) (hf : f.handler? m.classes thrown = none) :
    ∃ r, f.monitor = some r ∧ m.heap.get? r = none := by
  by_contra hno
  refine hstays ⟨hf, fun r hr => ?_⟩
  cases hget : m.heap.get? r with
  | none => exact absurd ⟨r, hr, hget⟩ hno
  | some o => rfl

/-- A dead monitor of a frame that has to go is in the way. -/
theorem unwindFrames_held {gone left : FrameStack} {f : Frame} {r : Ref} (m : Machine)
    (hactive : m.active = gone ++ f :: left) (hgone : ∀ g ∈ gone, m.Gives thrown g)
    (hf : f.handler? m.classes thrown = none) (hr : f.monitor = some r) (hdead : m.heap.get? r = none) :
    ∃ m', unwindFrames t e thrown m.active m = .error (.fatal (.inconsistent (.deadMonitor r))) m' := by
  obtain ⟨c, hc, hgo⟩ := unwindFrames_append (t := t) (e := e) gone (f :: left) m hgone hactive
  have hgone' : (m.unwound t gone (f :: left) c).heap.get? r = none := by
    have hsame := isSome_unwound (m := m) (t := t) gone (f :: left) c r
    rw [hdead] at hsame
    exact Option.not_isSome_iff_eq_none.1 (by rw [hsame]; decide)
  obtain ⟨c', _, hend⟩ := unwindFrames_deadMonitor (t := t) (e := e) left
    (m.unwound t gone (f :: left) c) ((handler?_of_concurs hc thrown f).trans hf) hr hgone'
  exact ⟨_, by rw [hactive, hgo, hend]⟩

/-- Nothing else is in the way. -/
theorem unwindFrames_error {x : Trap} {m' : Machine}
    (hrun : unwindFrames t e thrown m.active m = .error x m') :
    ∃ gone f left r, m.active = gone ++ f :: left ∧ (∀ g ∈ gone, m.Gives thrown g) ∧
      f.handler? m.classes thrown = none ∧ f.monitor = some r ∧ m.heap.get? r = none ∧
      x = .fatal (.inconsistent (.deadMonitor r)) := by
  rcases gives_or_stays m thrown m.active with hall | ⟨gone, f, left, hactive, hgone, hstays⟩
  · obtain ⟨c, _, hend⟩ := unwindFrames_uncaught (t := t) (e := e) m hall
    rw [hend] at hrun
    cases hrun
  cases hf : f.handler? m.classes thrown with
  | some h =>
    obtain ⟨c, _, hend⟩ := unwindFrames_taken (t := t) (e := e) m hactive hgone hf
    rw [hend] at hrun
    cases hrun
  | none =>
    obtain ⟨r, hr, hdead⟩ := exists_dead hstays hf
    obtain ⟨_, hend⟩ := unwindFrames_held (t := t) (e := e) m hactive hgone hf hr hdead
    rw [hend] at hrun
    cases hrun
    exact ⟨gone, f, left, r, hactive, hgone, hf, hr, hdead, rfl⟩

end Frames

/-- An exception goes on at the first handler that takes it, in the first frame that has one: the exception
is all there is on that frame's operand stack, and the frames before it are gone, with the monitors held for
them left once each, the running frame's first. Where no frame has one, all are gone. Nothing else happens,
and nothing is in the way but that the exception, or the object of such a monitor, is no longer there. -/
theorem unwind_reaches_handler (m : Machine) (t : ThreadId) (e : Ref) :
    (∀ o, m.heap.get? e = some o →
      (∀ gone f h left, m.active = gone ++ f :: left → (∀ g ∈ gone, m.Gives o.type g) →
        f.handler? m.classes o.type = some h →
        ∃ c, m.classes.Concurs c ∧ unwind t e m =
          .ok true (m.unwound t gone ({ f with stack := [.ref e], pc := h.target } :: left) c)) ∧
      ((∀ g ∈ m.active, m.Gives o.type g) →
        ∃ c, m.classes.Concurs c ∧ unwind t e m = .ok false (m.unwound t m.active [] c))) ∧
    ∀ x m', unwind t e m = .error x m' →
      m.heap.get? e = none ∧ x = .fatal (.inconsistent (.deadThrown e)) ∧ m' = m ∨
      ∃ o gone f left r, m.heap.get? e = some o ∧ m.active = gone ++ f :: left ∧
        (∀ g ∈ gone, m.Gives o.type g) ∧ f.handler? m.classes o.type = none ∧
        f.monitor = some r ∧ m.heap.get? r = none ∧ x = .fatal (.inconsistent (.deadMonitor r)) := by
  have hstart : ∀ o, m.heap.get? e = some o → unwind t e m = unwindFrames t e o.type m.active m := by
    intro o ho
    unfold unwind
    rw [bind_get, ho]
  refine ⟨fun o ho => ?_, fun x m' hrun => ?_⟩
  · rw [hstart o ho]
    exact ⟨fun gone f h left hactive hgone hf => unwindFrames_taken m hactive hgone hf,
      unwindFrames_uncaught m⟩
  · cases ho : m.heap.get? e with
    | none =>
      refine .inl ⟨rfl, ?_⟩
      unfold unwind at hrun
      rw [bind_get, ho] at hrun
      cases hrun
      exact ⟨rfl, rfl⟩
    | some o =>
      rw [hstart o ho] at hrun
      obtain ⟨gone, f, left, r, hrest⟩ := unwindFrames_error hrun
      exact .inr ⟨o, gone, f, left, r, rfl, hrest⟩

/-- A frame that guards its third instruction four times: elsewhere, for a class that is missing, for class
zero, and for everything. -/
def guarded : Frame :=
  { method := ⟨0, 0⟩, pc := 3, locals := #[.int 7], stack := [.int 1, .int 2]
    code := { handlers := [⟨0, 2, 4, .any⟩, ⟨2, 3, 5, .unresolved "Gone"⟩, ⟨2, 3, 6, .type 0⟩, ⟨0, 3, 7, .any⟩] } }

/-- A frame that guards nothing, and holds the monitor of an object. -/
def synchronizedFrame : Frame := { method := ⟨0, 1⟩, code := {}, pc := 1, monitor := some ⟨2⟩ }

/-- An exception of class zero, and an object whose monitor the first thread holds and the second wants. -/
def throwingHeap : Heap :=
  { capacity := 0, nextHandle := 3
    objects := (((∅ : ObjectMap).insert 1 { type := 0, weight := 0 }).insert 2
      { type := 1, weight := 0
        monitor := { owner := some ⟨1⟩, count := 1, entrants := [⟨⟨2⟩, 1⟩] } }) }

def throwing : Machine :=
  { (default : Machine) with heap := throwingHeap, active := [synchronizedFrame, guarded] }

theorem unwind_reaches_handler_third : ∃ c, unwind ⟨1⟩ ⟨1⟩ throwing =
    .ok true (throwing.unwound ⟨1⟩ [synchronizedFrame]
      [{ guarded with stack := [.ref ⟨1⟩], pc := 6 }] c) := by
  have hexception : throwing.heap.get? ⟨1⟩ = some { type := 0, weight := 0 } := by decide
  have hmonitor : throwing.Gives 0 synchronizedFrame := by
    refine ⟨rfl, fun r hr => ?_⟩
    cases hr
    decide
  have hthird : guarded.handler? throwing.classes 0 = some ⟨2, 3, 6, .type 0⟩ := by decide
  obtain ⟨c, _, hrun⟩ := ((unwind_reaches_handler throwing ⟨1⟩ ⟨1⟩).1 _ hexception).1
    [synchronizedFrame] guarded _ [] rfl (by simpa using hmonitor) hthird
  exact ⟨c, hrun⟩

end Machine

end ClassMachine
