import ClassMachine.Proofs.Link.Linking
import ClassMachine.Snapshot.Restore

/-!
A restoration that fails leaves everything that runs as it was. All its checks precede the
installation, and up to then it does nothing but look classes up and link methods.
-/
namespace ClassMachine.Snapshot
open Stateful

section Steps

variable {α : Type}

theorem ofExcept_ok {σ : Type} {x : Except SnapshotError α} {s s' : σ} {a : α} :
    ofExcept x s = .ok a s' ↔ x = .ok a ∧ s' = s := by
  cases x with
  | error e =>
    constructor
    · intro h
      cases h
    · rintro ⟨h, _⟩
      cases h
  | ok b =>
    constructor
    · intro h
      cases h
      exact ⟨rfl, rfl⟩
    · rintro ⟨h, rfl⟩
      cases h
      rfl

theorem ofExcept_links (x : Except SnapshotError α) :
    Linking (ofExcept x : RestoreM α) := by
  cases x with
  | ok a => exact .pure a
  | error e => exact .throw e

theorem resolveClass_links (record : ClassRecord) : Linking (resolveClass record) := by
  refine Linking.bind ?_ fun found => ?_
  · exact Linker.Growing.onClasses (ClassTable.resolveName_grows record.name)
  · cases found with
    | none => exact .throw _
    | some c =>
      dsimp only
      split
      · exact fun l => .refl l
      · exact .pure _

theorem resolve_links (i : Image) : Linking (resolve i) := by
  refine (Linking.mapM resolveClass_links i.classes).bind fun classes => .get fun l => ?_
  exact (ofExcept_links _).bind fun _ => .pure _

theorem frame_links (classes : Resolved) (f : FrameRecord) : Linking (frame classes f) := by
  refine .get fun l => (ofExcept_links _).bind fun m => Linking.bind ?_ fun linked => ?_
  · exact Linker.link_grows m.id
  · cases linked with
    | error e => exact .throw _
    | ok code =>
      dsimp only
      split
      · exact fun l => .refl l
      · exact .pure _

theorem thread_links (classes : Resolved) (now : UInt64) (t : ThreadRecord) :
    Linking (thread classes now t) :=
  (Linking.mapM (frame_links classes) t.frames).bind fun _ => .pure _

theorem state_links (classes : Resolved) (codecs : CodecRegistry) (config : Config) (now : UInt64)
    (i : Image) : Linking (state classes codecs config now i) := by
  refine (ofExcept_links _).bind fun heap => (ofExcept_links _).bind fun statics => ?_
  exact (Linking.mapM (thread_links classes now) i.threads).bind fun threads => .pure _

end Steps

/-- A machine of which only the linker has changed, and that only by growing. -/
structure Relinked (m m' : Machine) : Prop where
  others : m' = { m with linker := m'.linker }
  linker : m.linker.Grows m'.linker

namespace Relinked

theorem refl (m : Machine) : Relinked m m := ⟨rfl, .refl _⟩

theorem trans {m₁ m₂ m₃ : Machine} (h : Relinked m₁ m₂) (h' : Relinked m₂ m₃) : Relinked m₁ m₃ := by
  refine ⟨?_, h.linker.trans h'.linker⟩
  rw [h'.others, h.others]

end Relinked

theorem onLinker_ok {α : Type} {x : RestoreM α} {a : α} {m m' : Machine} :
    onLinker x m = .ok a m' ↔ ∃ l, x m.linker = .ok a l ∧ m' = { m with linker := l } := by
  unfold onLinker
  cases x m.linker with
  | error e l => simp
  | ok b l =>
    simp only [EStateM.Result.ok.injEq, and_assoc]
    constructor
    · rintro ⟨rfl, rfl⟩
      exact ⟨l, rfl, rfl, rfl⟩
    · rintro ⟨l, rfl, rfl, rfl⟩
      exact ⟨rfl, rfl⟩

theorem onLinker_relinked {α : Type} {x : RestoreM α} (hx : Linking x) (m : Machine) :
    Ends (onLinker x m) (fun _ m' => Relinked m m') fun _ m' => Relinked m m' := by
  have h := hx m.linker
  unfold onLinker
  cases hrun : x m.linker with
  | ok a l =>
    rw [hrun] at h
    exact ⟨rfl, h⟩
  | error e l =>
    rw [hrun] at h
    exact ⟨rfl, h⟩

/-- Up to the installation a restoration changes nothing but the linker. -/
theorem restore_ends (codecs : CodecRegistry) (i : Image) (m : Machine) :
    Ends (restore codecs i m) (fun _ _ => True) fun _ m' => Relinked m m' := by
  refine Ends.bind (onLinker_relinked (resolve_links i) m) fun classes m₁ h₁ => ?_
  rw [bind_get]
  split
  · exact h₁
  · refine Ends.bind (Q := fun _ m₂ => Relinked m m₂) ?_ fun s m₂ h₂ => ?_
    · refine (onLinker_relinked (state_links classes codecs _ _ i) m₁).mono ?_ ?_
      · exact fun _ _ h => h₁.trans h
      · exact fun _ _ h => h₁.trans h
    · rw [bind_get]
      cases checkOutOfMemory m₂.classes s with
      | ok _ => trivial
      | error e => exact h₂

/-- A failed restoration leaves heap, static fields, threads and initializers alone; classes were
looked up and methods linked, and that is all. -/
theorem restore_error_relinked {codecs : CodecRegistry} {i : Image} {m m' : Machine} {e : SnapshotError}
    (h : restore codecs i m = .error e m') : Relinked m m' :=
  (restore_ends codecs i m).of_error h

/-- A machine without classes. -/
def bare : Machine :=
  { config := {}, linker := {}, heap := .ofConfig {}, core := default, outOfMemory := .null }

/-- An image of nothing that lists an array class under a hash no class has. -/
def mislisted : Image :=
  { capturedAt := 0, heapCapacity := 0, outOfMemory := .null, classes := [⟨"[I", ""⟩], objects := []
    interned := [], statics := [], threads := [], ready := [] }

/-- How many classes there are after a failure. -/
def classesAfter : EStateM.Result SnapshotError Machine Unit → Option Nat
  | .ok _ _ => none
  | .error _ m => some m.classes.size

/-- The array class is made before its hash is found to be another one. -/
theorem restore_mislisted : ∃ e m', restore [] mislisted bare = .error e m' ∧
    bare.classes.size = 0 ∧ m'.classes.size = 1 ∧ Relinked bare m' := by
  have hafter : classesAfter (restore [] mislisted bare) = some 1 := by decide +kernel
  cases hrun : restore [] mislisted bare with
  | ok _ m' =>
    rw [hrun] at hafter
    cases hafter
  | error e m' =>
    rw [hrun] at hafter
    exact ⟨e, m', rfl, rfl, Option.some.inj hafter, restore_error_relinked hrun⟩

end ClassMachine.Snapshot
