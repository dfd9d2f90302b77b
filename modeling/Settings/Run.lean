/-!
# Runs

A `Run ε σ α` is a computation over a state `σ` that ends with a value or an error, and in both
cases leaves a state: what happened before an error stays. Callbacks of a settings schema are runs
over the state of their host, and an edit of a settings tree is a run over that tree and the host.
-/

set_option autoImplicit false

namespace Settings

/-- A computation over a state that ends with a value or an error and leaves a state. -/
def Run (ε σ α : Type) : Type := σ → Except ε α × σ

namespace Run

variable {ε ε' σ τ ρ α β : Type}

/-- Ends with a value and leaves the state alone. -/
protected def pure (a : α) : Run ε σ α := fun s => (.ok a, s)

/-- Goes on with the value of a run; an error ends both. -/
protected def bind (r : Run ε σ α) (f : α → Run ε σ β) : Run ε σ β := fun s =>
  match r s with
  | (.ok a, s) => f a s
  | (.error e, s) => (.error e, s)

instance : Monad (Run ε σ) where
  pure := Run.pure
  bind := Run.bind

/-- Ends with an error and leaves the state alone. -/
def fail (e : ε) : Run ε σ α := fun s => (.error e, s)

def state : Run ε σ σ := fun s => (.ok s, s)

def update (f : σ → σ) : Run ε σ Unit := fun s => (.ok (), f s)

def mapError (f : ε → ε') (r : Run ε σ α) : Run ε' σ α := fun s =>
  match r s with
  | (.ok a, s) => (.ok a, s)
  | (.error e, s) => (.error (f e), s)

/-- A value, or else an error. -/
def ofOption (e : ε) : Option α → Run ε σ α
  | some a => pure a
  | none => fail e

/-- The same run beside a second state, which it leaves alone. -/
def beside (r : Run ε σ α) : Run ε (τ × σ) α := fun (t, s) =>
  match r s with
  | (a, s) => (a, (t, s))

/-- A run on a part of the first state. The part that it leaves is put back, and how may depend on
whether the run succeeded. -/
def zoom (part : τ → ρ) (leave : (succeeded : Bool) → ρ → τ → τ) (r : Run ε (ρ × σ) α) :
    Run ε (τ × σ) α := fun (t, s) =>
  match r (part t, s) with
  | (.ok a, (p, s)) => (.ok a, (leave true p t, s))
  | (.error e, (p, s)) => (.error e, (leave false p t, s))

@[simp] theorem pure_apply (a : α) (s : σ) : (pure a : Run ε σ α) s = (.ok a, s) := rfl

theorem bind_apply (r : Run ε σ α) (f : α → Run ε σ β) (s : σ) :
    (r >>= f) s = match r s with
      | (.ok a, s) => f a s
      | (.error e, s) => (.error e, s) := rfl

theorem bind_ok {r : Run ε σ α} {f : α → Run ε σ β} {s s' : σ} {a : α} (h : r s = (.ok a, s')) :
    (r >>= f) s = f a s' := by
  rw [bind_apply, h]

/-- A sequence succeeds when both parts do. -/
theorem bind_eq_ok {r : Run ε σ α} {f : α → Run ε σ β} {s s' : σ} {b : β} :
    (r >>= f) s = (.ok b, s') ↔ ∃ a t, r s = (.ok a, t) ∧ f a t = (.ok b, s') := by
  rw [bind_apply]
  constructor
  · intro h
    split at h
    · next a t hr => exact ⟨a, t, hr, h⟩
    · cases h
  · rintro ⟨a, t, hr, h⟩
    rw [hr]
    exact h

instance : LawfulMonad (Run ε σ) := LawfulMonad.mk' _
  (fun r => by
    funext s
    show Run.bind r (fun a => Run.pure (id a)) s = r s
    unfold Run.bind Run.pure
    split <;> simp_all)
  (fun _ _ => rfl)
  (fun r f g => by
    funext s
    show Run.bind (Run.bind r f) g s = Run.bind r (fun a => Run.bind (f a) g) s
    unfold Run.bind
    split
    · next h => split at h <;> simp_all
    · next h => split at h <;> simp_all)

end Run

end Settings
