/-!
Runs of stateful computations that may fail, taken apart at their sequencing.
-/
namespace ClassMachine.Stateful

variable {ε σ α β : Type} {x : EStateM ε σ α} {f : α → EStateM ε σ β} {s : σ}

theorem bind_ok {b : β} {s'' : σ} :
    (x >>= f) s = .ok b s'' ↔ ∃ a s', x s = .ok a s' ∧ f a s' = .ok b s'' := by
  show EStateM.bind x f s = _ ↔ _
  unfold EStateM.bind
  cases hx : x s with
  | ok a s' => simp [and_assoc]
  | error e s' => simp

theorem bind_error {e : ε} {s'' : σ} :
    (x >>= f) s = .error e s'' ↔
      x s = .error e s'' ∨ ∃ a s', x s = .ok a s' ∧ f a s' = .error e s'' := by
  show EStateM.bind x f s = _ ↔ _
  unfold EStateM.bind
  cases hx : x s with
  | ok a s' => simp [and_assoc]
  | error e s' => simp

theorem bind_of_ok {a : α} {s' : σ} (h : x s = .ok a s') : (x >>= f) s = f a s' := by
  show EStateM.bind x f s = _
  unfold EStateM.bind
  rw [h]

theorem bind_of_error {e : ε} {s' : σ} (h : x s = .error e s') : (x >>= f) s = .error e s' := by
  show EStateM.bind x f s = _
  unfold EStateM.bind
  rw [h]

/-- The result and the state of a run that has not failed. -/
def ok? : EStateM.Result ε σ α → Option (α × σ)
  | .ok a s => some (a, s)
  | .error _ _ => none

/-- The error and the state of a run that has failed. -/
def error? : EStateM.Result ε σ α → Option (ε × σ)
  | .ok _ _ => none
  | .error e s => some (e, s)

theorem ok?_eq_some {r : EStateM.Result ε σ α} {a : α} : ok? r = some (a, s) ↔ r = .ok a s := by
  cases r <;> simp [ok?]

theorem error?_eq_some {r : EStateM.Result ε σ α} {e : ε} : error? r = some (e, s) ↔ r = .error e s := by
  cases r <;> simp [error?]

/-- A run ends as `Q` says with a result, and as `E` says with an error. -/
def Ends (r : EStateM.Result ε σ α) (Q : α → σ → Prop) (E : ε → σ → Prop) : Prop :=
  match r with
  | .ok a s => Q a s
  | .error e s => E e s

section Ends

variable {Q Q' : α → σ → Prop} {E E' : ε → σ → Prop}

theorem Ends.mono {r : EStateM.Result ε σ α} (h : Ends r Q E) (hQ : ∀ a s, Q a s → Q' a s)
    (hE : ∀ e s, E e s → E' e s) : Ends r Q' E' := by
  cases r with
  | ok a s => exact hQ a s h
  | error e s => exact hE e s h

/-- What follows of a result may use where it comes from. -/
theorem Ends.with_run {r : EStateM.Result ε σ α} (h : Ends r Q E)
    (hQ : ∀ a s, r = .ok a s → Q a s → Q' a s) : Ends r Q' E := by
  cases r with
  | ok a s => exact hQ a s rfl h
  | error e s => exact h

theorem Ends.bind {R : β → σ → Prop} (hx : Ends (x s) Q E)
    (hf : ∀ a s', Q a s' → Ends (f a s') R E) : Ends ((x >>= f) s) R E := by
  cases h : x s with
  | ok a s' =>
    rw [h] at hx
    rw [bind_of_ok h]
    exact hf a s' hx
  | error e s' =>
    rw [h] at hx
    rw [bind_of_error h]
    exact hx

theorem Ends.of_ok {r : EStateM.Result ε σ α} (h : Ends r Q E) {a : α} {s' : σ} (hr : r = .ok a s') :
    Q a s' := by
  rw [hr] at h
  exact h

theorem Ends.of_error {r : EStateM.Result ε σ α} (h : Ends r Q E) {e : ε} {s' : σ}
    (hr : r = .error e s') : E e s' := by
  rw [hr] at h
  exact h

end Ends

theorem bind_modify {g : σ → σ} {h : PUnit → EStateM ε σ β} :
    (modify g >>= h) s = h () (g s) := rfl

theorem bind_get {g : σ → EStateM ε σ β} : (get >>= g) s = g s s := rfl

theorem state_bind {x : StateM σ α} {f : α → StateM σ β} : (x >>= f) s = f (x s).1 (x s).2 := rfl

theorem state_get {f : σ → StateM σ β} : (get >>= f) s = f s s := rfl

theorem except_bind_ok {x : Except ε α} {f : α → Except ε β} {b : β} :
    (x >>= f) = .ok b ↔ ∃ a, x = .ok a ∧ f a = .ok b := by
  cases x with
  | error e => simp [bind, Except.bind]
  | ok a => simp [bind, Except.bind]

theorem except_map_ok {x : Except ε α} {f : α → β} {b : β} : x.map f = .ok b ↔ ∃ a, x = .ok a ∧ f a = b := by
  cases x with
  | error e => simp [Except.map]
  | ok a => simp [Except.map]

theorem except_bind_of_ok {x : Except ε α} {f : α → Except ε β} {a : α} (h : x = .ok a) :
    (x >>= f) = f a := by
  rw [h]
  rfl

theorem except_of_toOption {x : Except ε α} {a : α} (h : x.toOption = some a) : x = .ok a := by
  cases x with
  | error e => cases h
  | ok b => exact congrArg Except.ok (Option.some.inj h)

@[simp] theorem except_throw {e : ε} : (throw e : Except ε α) = .error e := rfl

theorem run_bind_ok {x : StateT σ (Except ε) α} {f : α → StateT σ (Except ε) β} {b : β} {s'' : σ} :
    (x >>= f).run s = .ok (b, s'') ↔ ∃ a s', x.run s = .ok (a, s') ∧ (f a).run s' = .ok (b, s'') := by
  rw [StateT.run_bind, except_bind_ok]
  constructor
  · rintro ⟨⟨a, s'⟩, hx, hf⟩
    exact ⟨a, s', hx, hf⟩
  · rintro ⟨a, s', hx, hf⟩
    exact ⟨(a, s'), hx, hf⟩

end ClassMachine.Stateful
