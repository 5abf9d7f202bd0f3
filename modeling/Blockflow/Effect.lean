import Blockflow.Diagnostic.Basic

/-!
# Effects

Computations over a state that may fail with a diagnostic. The state keeps what happened before the
failure.
-/

namespace Blockflow

/-- A computation over a state that may fail, and keeps the state that it reached then. -/
structure Effect (σ α : Type) where
  run : σ → Except Diagnostic α × σ

namespace Effect

variable {σ α β : Type}

protected def pure (a : α) : Effect σ α := ⟨fun s => (.ok a, s)⟩

protected def bind (effect : Effect σ α) (next : α → Effect σ β) : Effect σ β := ⟨fun s =>
  match effect.run s with
  | (.ok a, s) => (next a).run s
  | (.error d, s) => (.error d, s)⟩

instance : Monad (Effect σ) where
  pure := Effect.pure
  bind := Effect.bind

def fail (d : Diagnostic) : Effect σ α := ⟨fun s => (.error d, s)⟩

/-- Fail with a problem that has no place yet. -/
def refuse (problem : Problem) : Effect σ α := fail { problem }

def ofState (action : StateM σ α) : Effect σ α := ⟨fun s =>
  let (a, s) := action s
  (.ok a, s)⟩

def ofExcept (result : Except Diagnostic α) : Effect σ α := ⟨fun s => (result, s)⟩

instance : MonadLift (StateM σ) (Effect σ) := ⟨ofState⟩

instance : MonadLift (Except Diagnostic) (Effect σ) := ⟨ofExcept⟩

def state : Effect σ σ := ⟨fun s => (.ok s, s)⟩

/-- Say more about a failure. -/
def mapFailure (f : Diagnostic → Diagnostic) (effect : Effect σ α) : Effect σ α := ⟨fun s =>
  match effect.run s with
  | (.ok a, s) => (.ok a, s)
  | (.error d, s) => (.error (f d), s)⟩

/-- Go on after a failure. -/
def attempt (effect : Effect σ α) : StateM σ (Except Diagnostic α) := effect.run

@[simp]
theorem run_pure (a : α) (s : σ) : (pure a : Effect σ α).run s = (.ok a, s) := rfl

theorem run_bind (effect : Effect σ α) (next : α → Effect σ β) (s : σ) :
    (effect >>= next).run s =
      match effect.run s with
      | (.ok a, s) => (next a).run s
      | (.error d, s) => (.error d, s) := rfl

@[simp]
theorem run_fail (d : Diagnostic) (s : σ) : (fail d : Effect σ α).run s = (.error d, s) := rfl

@[ext]
theorem ext {a b : Effect σ α} (same : ∀ s, a.run s = b.run s) : a = b := by
  obtain ⟨f⟩ := a
  obtain ⟨g⟩ := b
  exact congrArg Effect.mk (funext same)

/-- A sequence succeeds exactly if both parts do, the second from where the first one ends. -/
theorem run_bind_eq_ok {effect : Effect σ α} {next : α → Effect σ β} {s t : σ} {b : β} :
    (effect >>= next).run s = (.ok b, t) ↔
      ∃ a u, effect.run s = (.ok a, u) ∧ (next a).run u = (.ok b, t) := by
  rw [run_bind]
  constructor
  · intro succeeded
    rcases first : effect.run s with ⟨d | a, u⟩ <;> rw [first] at succeeded
    · cases succeeded
    · exact ⟨a, u, rfl, succeeded⟩
  · rintro ⟨a, u, first, second⟩
    rw [first]
    exact second

private theorem bind_pure_effect (effect : Effect σ α) :
    (effect >>= fun a => (pure a : Effect σ α)) = effect := by
  ext s : 1
  rw [run_bind]
  rcases effect.run s with ⟨_ | _, _⟩ <;> rfl

private theorem bind_assoc_effect {γ : Type} (effect : Effect σ α) (f : α → Effect σ β)
    (g : β → Effect σ γ) : effect >>= f >>= g = effect >>= fun a => f a >>= g := by
  ext s : 1
  rw [run_bind, run_bind, run_bind]
  rcases effect.run s with ⟨_ | _, _⟩ <;> rfl

instance : LawfulMonad (Effect σ) :=
  LawfulMonad.mk' (Effect σ) bind_pure_effect (fun _ _ => rfl) bind_assoc_effect

end Effect

end Blockflow
