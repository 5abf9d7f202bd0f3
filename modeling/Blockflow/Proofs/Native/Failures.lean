import Blockflow.Proofs.Native.Purity

/-!
# Failures of natives

Computations on values fail with a bare problem, or with what the body of a native fails with.
-/

namespace Blockflow

/-- The failures of a native name no place. -/
def Native.Unplaced (native : Native) : Prop :=
  ∀ args, (native.body args).FailsWith fun d => d.locator = {}

lemma Native.Unplaced.call {native : Native} (unplaced : native.Unplaced) (vs : List Value) :
    (native.call vs).FailsWith fun d => d.locator = {} := by
  refine .mapFailure fun s d failed => ?_
  have placed := unplaced _ s d failed
  dsimp only [Native.failure]
  split <;> exact placed

lemma Operators.natives_unplaced : ∀ native ∈ natives, native.Unplaced := by
  rw [natives, List.forall_mem_cons, List.forall_mem_singleton]
  refine ⟨fun args => .bind (.ofExcept ?_) fun _ => .ofState _, fun args => .bind (.ofState _)
    fun _ => .ofState _⟩
  rw [Arguments.get]
  split
  · exact .ok _
  · exact .error rfl

section

variable {P : Diagnostic → Prop}
  (bare : ∀ problem : Problem, (∀ addr, problem ≠ .unwrittenRead addr) → P { problem })

include bare

lemma Methods.resolve_fails (ms : Methods) (names : List String) (vs : List Value) :
    FailsWith P (ms.resolve names vs) := by
  intro d failed
  rw [resolve] at failed
  split at failed <;> cases failed
  exact bare _ (by simp)

lemma Methods.dispatch_fails {ms : Methods}
    (fails : ms.All fun native => ∀ vs, (native.call vs).FailsWith P) (names : List String)
    (vs : List Value) : (ms.dispatch names vs).FailsWith P :=
  .ofExcept_bind (ms.resolve_fails bare names vs) fun found isFound => fails.resolve isFound found.2

lemma Value.element_fails (v : Value) (i : Nat) : FailsWith P (v.element i) := by
  intro d failed
  rw [element] at failed
  split at failed
  · cases failed
  · split at failed <;> cases failed <;> exact bare _ (by simp)

lemma Selector.ofValue_fails (v : Value) : FailsWith P (ofValue v) := by
  fun_induction ofValue v with
  | case1 | case6 => exact .ok _
  | case2 =>
    rw [ofInt]
    split
    · exact .error (bare _ (by simp))
    · split
      · exact .error (bare _ (by simp))
      · exact .ok _
  | case5 =>
    rename_i failed _ _ _ ih
    exact fun d eq => ih d (Except.error.inj eq ▸ failed)
  | _ => exact .error (bare _ (by simp))

end

end Blockflow
