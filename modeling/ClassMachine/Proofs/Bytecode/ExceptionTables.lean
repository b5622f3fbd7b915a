import ClassMachine.Proofs.Bytecode.Assembly

/-!
Exception tables of assembled bodies. A label is bound to an offset of any size, and a table entry has
sixteen bits for each of its offsets. Main statement: finishing succeeds exactly when every use of a
label is met, the entries of the table then stand in the order of the handlers with their catch types,
and each offset in them is that of the last binding of its label, cut to sixteen bits. So the table is
exact for every body of fewer than 65536 bytes, and for no label behind that.
-/
namespace ClassMachine.Assembler
open Stateful

/-- Every call names labels that were created before it. -/
def Declared (a : Assembler) : List Call → Prop
  | [] => True
  | c :: rest => (∀ l ∈ c.labels, l < a.labels.size) ∧ Declared (c.run a) rest

/-- The last binding of a label stands at byte `o`. -/
def BoundAt (a : Assembler) (calls : List Call) (l : Label) (o : Nat) : Prop :=
  ∃ before after, calls = before ++ .bind l :: after ∧ .bind l ∉ after ∧ o = (a.runAll before).offset

/-- A use of a label that is bound, and near enough where the operand has sixteen bits only. -/
def Met (a : Assembler) (calls : List Call) (u : Use) : Prop :=
  ∃ o, BoundAt a calls u.label o ∧ (u.near → -32768 ≤ (o : Int) - u.base ∧ (o : Int) - u.base ≤ 32767)

/-- A table entry for a handler: its catch type, and what `fit` makes of the offsets its labels were
last bound to. -/
def Entered (fit : Nat → Nat) (a : Assembler) (calls : List Call) (h : PendingHandler) (entry : RawHandler) :
    Prop :=
  ∃ start stop target, BoundAt a calls h.start start ∧ BoundAt a calls h.stop stop ∧
    BoundAt a calls h.target target ∧ entry = ⟨fit start, fit stop, fit target, h.catchType⟩

variable {a : Assembler} {calls before after : List Call} {c : Call} {l : Label} {o : Nat}

theorem Declared.labels (h : Declared a (before ++ c :: after)) (hl : l ∈ c.labels) :
    l < (a.runAll before).labels.size := by
  induction before generalizing a with
  | nil => exact h.1 l hl
  | cons d before ih => exact ih h.2

theorem BoundAt.mem (h : BoundAt a calls l o) : .bind l ∈ calls := by
  obtain ⟨before, after, rfl, _, _⟩ := h
  simp

theorem exists_boundAt (a : Assembler) (h : .bind l ∈ calls) : ∃ o, BoundAt a calls l o := by
  obtain ⟨_, before, after, hcalls, hlast, _⟩ := exists_lands h
  exact ⟨_, before, after, hcalls, hlast, rfl⟩

theorem BoundAt.resolve (hd : Declared a calls) (h : BoundAt a calls l o) :
    (a.runAll calls).resolve l = .ok o := by
  obtain ⟨before, after, rfl, hlast, rfl⟩ := h
  exact resolve_of_last (hd.labels (by simp [Call.labels])) hlast

theorem offset_le_runAll (a : Assembler) (calls : List Call) : a.offset ≤ (a.runAll calls).offset := by
  rw [(runAll_laid a calls).offset]
  exact Nat.le_add_right _ _

/-- No label is bound behind the end of the body. -/
theorem BoundAt.le_offset (h : BoundAt a calls l o) : o ≤ (a.runAll calls).offset := by
  obtain ⟨before, after, rfl, _, rfl⟩ := h
  rw [runAll_append]
  exact offset_le_runAll _ _

section Finish

variable {maxStack maxLocals : Nat} {u : Use}

/-- A label resolves to where it was last bound, and only so. -/
theorem resolve_eq_ok (hd : Declared (fresh maxStack maxLocals) calls) :
    ((fresh maxStack maxLocals).runAll calls).resolve l = .ok o ↔
      BoundAt (fresh maxStack maxLocals) calls l o := by
  refine ⟨fun h => ?_, fun h => h.resolve hd⟩
  have hmem : .bind l ∈ calls := by
    by_contra hnone
    rw [resolve_of_not_mem maxStack maxLocals hnone] at h
    cases h
  obtain ⟨o', hbound⟩ := exists_boundAt (fresh maxStack maxLocals) hmem
  rw [hbound.resolve hd] at h
  cases h
  exact hbound

theorem check_eq_ok (hd : Declared (fresh maxStack maxLocals) calls) :
    ((fresh maxStack maxLocals).runAll calls).check u = .ok () ↔ Met (fresh maxStack maxLocals) calls u := by
  constructor
  · intro h
    obtain ⟨o, hresolve, _⟩ := except_bind_ok.1 h
    rw [check_of_ok hresolve] at h
    refine ⟨o, (resolve_eq_ok hd).1 hresolve, fun hnear => ?_⟩
    by_contra hfar
    rw [if_pos ⟨hnear, hfar⟩] at h
    cases h
  · rintro ⟨o, hbound, hrange⟩
    rw [check_of_ok (hbound.resolve hd)]
    exact if_neg fun ⟨hnear, hfar⟩ => hfar (hrange hnear)

/-- Finishing checks every use, and then writes operands and table by the places of the labels. -/
theorem finish_eq_ok (hd : Declared (fresh maxStack maxLocals) calls) {body : RawCode} :
    ((fresh maxStack maxLocals).runAll calls).finish = .ok body ↔
      (∀ u ∈ (fresh maxStack maxLocals).uses calls, Met (fresh maxStack maxLocals) calls u) ∧
        body = ⟨maxStack, maxLocals, (((fresh maxStack maxLocals).runAll calls).writtenAll
          ((fresh maxStack maxLocals).pieces calls)).toArray,
          (calls.filterMap Call.handler?).map ((fresh maxStack maxLocals).runAll calls).placeHandler⟩ := by
  rw [finish_eq, except_bind_ok]
  constructor
  · rintro ⟨_, hchecked, hbody⟩
    cases hbody
    exact ⟨fun u hu => (check_eq_ok hd).1 (Lists.forM_eq_ok.1 hchecked u hu), rfl⟩
  · rintro ⟨hmet, rfl⟩
    exact ⟨(), Lists.forM_eq_ok.2 fun u hu => (check_eq_ok hd).2 (hmet u hu), rfl⟩

/-- The labels of a handler are used. -/
theorem mem_uses_of_handler {h : PendingHandler} (hh : h ∈ calls.filterMap Call.handler?)
    (hl : l ∈ [h.start, h.stop, h.target]) : (⟨false, 0, l⟩ : Use) ∈ uses a calls := by
  unfold uses
  rw [handlers_uses]
  exact List.mem_append_right _ (List.mem_flatMap.2 ⟨h, hh, List.mem_map.2 ⟨l, hl, rfl⟩⟩)

theorem placeHandler_entered (hd : Declared (fresh maxStack maxLocals) calls) {h : PendingHandler}
    (hmet : ∀ l ∈ [h.start, h.stop, h.target], ∃ o, BoundAt (fresh maxStack maxLocals) calls l o) :
    Entered (· % 65536) (fresh maxStack maxLocals) calls h
      (((fresh maxStack maxLocals).runAll calls).placeHandler h) := by
  obtain ⟨start, hstart⟩ := hmet h.start (by simp)
  obtain ⟨stop, hstop⟩ := hmet h.stop (by simp)
  obtain ⟨target, htarget⟩ := hmet h.target (by simp)
  refine ⟨start, stop, target, hstart, hstop, htarget, ?_⟩
  simp only [placeHandler, place_of_resolve (hstart.resolve hd), place_of_resolve (hstop.resolve hd),
    place_of_resolve (htarget.resolve hd)]

/-- Offsets within a short body are not cut. -/
theorem Entered.exact {h : PendingHandler} {entry : RawHandler} (he : Entered (· % 65536) a calls h entry)
    (hshort : (a.runAll calls).offset < 65536) : Entered id a calls h entry := by
  obtain ⟨start, stop, target, hstart, hstop, htarget, rfl⟩ := he
  have hfits : ∀ {l o}, BoundAt a calls l o → o % 65536 = o := fun hl =>
    Nat.mod_eq_of_lt (Nat.lt_of_le_of_lt hl.le_offset hshort)
  refine ⟨start, stop, target, hstart, hstop, htarget, ?_⟩
  simp only [hfits hstart, hfits hstop, hfits htarget, id_eq]

theorem size_code_of_finish (hd : Declared (fresh maxStack maxLocals) calls) {body : RawCode}
    (h : ((fresh maxStack maxLocals).runAll calls).finish = .ok body) :
    body.code.size = ((fresh maxStack maxLocals).runAll calls).offset := by
  obtain ⟨_, rfl⟩ := (finish_eq_ok hd).1 h
  rw [(runAll_laid _ calls).offset, List.size_toArray, length_writtenAll]
  exact (Nat.zero_add _).symm

/-- Finishing succeeds exactly when every use of a label is met, and fails where a handler names a label
without a binding. The table has an entry for each handler in turn, with the offsets cut to sixteen bits,
which are the offsets themselves in a body of fewer than 65536 bytes. -/
theorem finish_tables (maxStack maxLocals : Nat) (calls : List Call)
    (hd : Declared (fresh maxStack maxLocals) calls) :
    let start := fresh maxStack maxLocals
    ((∃ body, (start.runAll calls).finish = .ok body) ↔ ∀ u ∈ start.uses calls, Met start calls u) ∧
      (∀ h ∈ calls.filterMap Call.handler?, ∀ l ∈ [h.start, h.stop, h.target],
        (∀ o, ¬ BoundAt start calls l o) → ∃ e, (start.runAll calls).finish = .error e) ∧
      ∀ body, (start.runAll calls).finish = .ok body →
        List.Forall₂ (Entered (· % 65536) start calls) (calls.filterMap Call.handler?) body.handlers ∧
          (body.code.size < 65536 →
            List.Forall₂ (Entered id start calls) (calls.filterMap Call.handler?) body.handlers) := by
  intro start
  have hbound : ∀ {body}, (start.runAll calls).finish = .ok body → ∀ h ∈ calls.filterMap Call.handler?,
      ∀ l ∈ [h.start, h.stop, h.target], ∃ o, BoundAt start calls l o := by
    intro body hbody h hh l hl
    obtain ⟨o, ho, _⟩ := ((finish_eq_ok hd).1 hbody).1 _ (mem_uses_of_handler hh hl)
    exact ⟨o, ho⟩
  refine ⟨⟨?_, ?_⟩, ?_, ?_⟩
  · rintro ⟨body, hbody⟩
    exact ((finish_eq_ok hd).1 hbody).1
  · intro hmet
    exact ⟨_, (finish_eq_ok hd).2 ⟨hmet, rfl⟩⟩
  · intro h hh l hl hunbound
    cases hfinish : (start.runAll calls).finish with
    | error e => exact ⟨e, rfl⟩
    | ok body =>
      obtain ⟨o, ho⟩ := hbound hfinish h hh l hl
      exact absurd ho (hunbound o)
  · intro body hbody
    have htable : List.Forall₂ (Entered (· % 65536) start calls) (calls.filterMap Call.handler?)
        body.handlers := by
      obtain ⟨_, rfl⟩ := (finish_eq_ok hd).1 hbody
      refine List.forall₂_map_right_iff.2 (List.forall₂_same.2 fun h hh => ?_)
      exact placeHandler_entered hd (hbound hbody h hh)
    refine ⟨htable, fun hsize => htable.imp fun h entry he => he.exact ?_⟩
    rwa [← size_code_of_finish hd hbody]

end Finish

/-- Two handlers around a branch; label 2 is bound twice. -/
def guardedBranch : List Call :=
  [.label, .label, .label, .bind 0, .bind 2, .emit 0, .branch 0xa7 1, .bind 1, .emit 0xb1, .bind 2, .emit 0xbf,
    .handler 0 1 2 0, .handler 0 2 2 7]

/-- A handler whose range has no end. -/
def openRange : List Call := [.label, .label, .bind 0, .emit 0xb1, .handler 0 1 0 0]

theorem finish_tables_guardedBranch :
    (Declared (fresh 1 0) guardedBranch ∧
      ∃ body, ((fresh 1 0).runAll guardedBranch).finish = .ok body ∧ body.code.size < 65536 ∧
        body.handlers = [⟨0, 4, 5, 0⟩, ⟨0, 5, 5, 7⟩] ∧
        List.Forall₂ (Entered id (fresh 1 0) guardedBranch) (guardedBranch.filterMap Call.handler?)
          body.handlers) ∧
      Declared (fresh 1 0) openRange ∧ (∀ o, ¬ BoundAt (fresh 1 0) openRange 1 o) ∧
        ∃ e, ((fresh 1 0).runAll openRange).finish = .error e := by
  have hd : Declared (fresh 1 0) guardedBranch := by
    simp [guardedBranch, Declared, Call.labels, Call.run, fresh, label, bind, emit, branch, raw, shortSlot, handler]
  have hd' : Declared (fresh 1 0) openRange := by
    simp [openRange, Declared, Call.labels, Call.run, fresh, label, bind, emit, raw]
  have hunbound : ∀ o, ¬ BoundAt (fresh 1 0) openRange 1 o := fun o h => absurd h.mem (by decide)
  refine ⟨⟨hd, ⟨1, 0, #[0, 0xa7, 0, 3, 0xb1, 0xbf], [⟨0, 4, 5, 0⟩, ⟨0, 5, 5, 7⟩]⟩, by decide, by decide, rfl, ?_⟩,
    hd', hunbound, ?_⟩
  · exact ((finish_tables 1 0 guardedBranch hd).2.2 _ (by decide)).2 (by decide)
  · exact (finish_tables 1 0 openRange hd').2.1 ⟨0, 1, 0, 0⟩ (by decide) 1 (by decide) hunbound

/-- A guarded range of `body` and its handler behind it. -/
def guardedRange (body : List UInt8) : List Call :=
  [.label, .label, .label, .bind 0, .raw body, .bind 1, .emit 0xb1, .bind 2, .emit 0xbf, .handler 0 1 2 0]

/-- Offsets that do not fit an entry are cut without an error: a range of 65536 bytes is entered as an
empty one, and its handler as the second byte of it. -/
theorem finish_cutsOffsets (body : List UInt8) (hlength : body.length = 65536) :
    Declared (fresh 1 0) (guardedRange body) ∧
      BoundAt (fresh 1 0) (guardedRange body) 1 65536 ∧ BoundAt (fresh 1 0) (guardedRange body) 2 65537 ∧
      ∃ code, ((fresh 1 0).runAll (guardedRange body)).finish = .ok ⟨1, 0, code, [⟨0, 0, 1, 0⟩]⟩ := by
  have hstop : ((fresh 1 0).runAll [.label, .label, .label, .bind 0, .raw body]).offset = 65536 := by
    simp [runAll, Call.run, fresh, label, bind, raw, offset, hlength]
  have htarget : ((fresh 1 0).runAll [.label, .label, .label, .bind 0, .raw body, .bind 1, .emit 0xb1]).offset =
      65537 := by
    simp [runAll, Call.run, fresh, label, bind, emit, raw, offset, hlength]
  refine ⟨?_, ?_, ?_, ?_⟩
  · simp [guardedRange, Declared, Call.labels, Call.run, fresh, label, bind, emit, raw]
  · exact ⟨[.label, .label, .label, .bind 0, .raw body], _, rfl, by simp, hstop.symm⟩
  · exact ⟨[.label, .label, .label, .bind 0, .raw body, .bind 1, .emit 0xb1], _, rfl, by simp, htarget.symm⟩
  · refine ⟨((fresh 1 0).runAll (guardedRange body)).code, ?_⟩
    simp [guardedRange, finish, runAll, Call.run, fresh, label, bind, emit, raw, handler, offset, hlength,
      resolveHandler, resolve]
    rfl

end ClassMachine.Assembler
