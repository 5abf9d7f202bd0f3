import Blockflow.Proofs.Graph.Edits
import Mathlib.Logic.Function.Iterate

/-!
# Batches

Settling spends its limit in batches and is charged for a whole batch even if nothing waits any more
before the batch ends. It still evaluates the entries of the worklist that single steps evaluate,
and gives up exactly if something waits after as many entries as the limit allows.
-/

namespace Blockflow.Workspace

variable {env : Environment} {w w' : Workspace}

/-- The entries that are taken from the worklist and evaluated on the way from one state to
another. -/
inductive Evaluates (env : Environment) : List Handle → Workspace → Workspace → Prop where
  | done {w : Workspace} : Evaluates env [] w w
  | step {w w' : Workspace} {id : Handle} {ids : List Handle} {worklist : Worklist}
      (popped : w.graph.worklist.pop? = some (id, worklist))
      (rest : Evaluates env ids (process env id { w with graph.worklist := worklist }) w') :
      Evaluates env (id :: ids) w w'

/-- A batch evaluates as many entries as it may, or all that there are. -/
lemma tick_evaluates (env : Environment) (steps : Nat) (w : Workspace) :
    ∃ ids, Evaluates env ids w (w.tick env steps) ∧ w.tick env steps = w.tick env ids.length ∧
      (ids.length = steps ∨ ids.length < steps ∧ (w.tick env steps).graph.isSettled) := by
  induction steps generalizing w with
  | zero => exact ⟨[], .done, rfl, .inl rfl⟩
  | succ steps ih =>
    cases popped : w.graph.worklist.pop? with
    | none =>
      have settled := (Worklist.isEmpty_iff _).mpr ((Worklist.pop?_eq_none _).mp popped)
      rw [tick_settled settled]
      exact ⟨[], .done, rfl, .inr ⟨Nat.succ_pos _, settled⟩⟩
    | some entry =>
      obtain ⟨id, worklist⟩ := entry
      obtain ⟨ids, evaluates, eq, all⟩ := ih (process env id { w with graph.worklist := worklist })
      have first : ∀ steps, w.tick env (steps + 1) =
          (process env id { w with graph.worklist := worklist }).tick env steps :=
        fun steps => by rw [tick, popped]
      refine ⟨id :: ids, .step popped ((first steps).symm ▸ evaluates), ?_, ?_⟩
      · rw [List.length_cons, first, first, eq]
      · rw [List.length_cons, first]
        exact all.imp (congrArg (· + 1)) (And.imp_left Nat.succ_lt_succ)

lemma tick_iterate (env : Environment) (steps : Nat) (w : Workspace) :
    (tick env 1)^[steps] w = w.tick env steps := by
  induction steps generalizing w with
  | zero => rfl
  | succ steps ih => rw [Function.iterate_succ_apply, ih, Nat.add_comm, tick_add]

/-- Settling takes single steps until nothing waits or as many as the limit allows, and answers
whether nothing waits then. Only if something does it adds a diagnostic, about the definition and
about no node. Two batches come to the same as one of both sizes together. -/
theorem settle_takes_single_steps (env : Environment) (limit : Nat) (w : Workspace) :
    (∃ ids, Evaluates env ids w ((tick env 1)^[ids.length] w) ∧ ids.length ≤ limit ∧
      (((tick env 1)^[ids.length] w).graph.isSettled = true ∧
        w.settle env limit = (true, (tick env 1)^[ids.length] w) ∨
        ((tick env 1)^[ids.length] w).graph.isSettled = false ∧ ids.length = limit ∧
          ∃ d : Diagnostic, d.kind = .definition ∧ d.locator.node = none ∧
            w.settle env limit = (false, { (tick env 1)^[ids.length] w with
              graph.diagnostics := ((tick env 1)^[ids.length] w).graph.diagnostics.push d }))) ∧
    ((w.settle env limit).1 = true ↔
      ∃ steps ≤ limit, ((tick env 1)^[steps] w).graph.isSettled = true) ∧
    ∀ a b, (w.tick env a).tick env b = w.tick env (a + b) := by
  obtain ⟨ids, evaluates, same, all⟩ := tick_evaluates env limit w
  simp only [tick_iterate, settle_eq]
  refine ⟨⟨ids, same ▸ evaluates, by omega, ?_⟩, ⟨fun isSettled => ⟨limit, Nat.le_refl _, ?_⟩, ?_⟩,
    fun a b => (tick_add a b).symm⟩
  · rw [← same]
    cases settled : (w.tick env limit).graph.isSettled with
    | true => exact .inl ⟨rfl, if_pos rfl⟩
    | false =>
      refine .inr ⟨rfl, ?_, { problem := .notSettled limit }, rfl, rfl, if_neg Bool.false_ne_true⟩
      exact all.resolve_right fun ⟨_, isSettled⟩ => by rw [settled] at isSettled; cases isSettled
  · by_contra waits
    rw [if_neg waits] at isSettled
    cases isSettled
  · rintro ⟨steps, within, settled⟩
    have rest : w.tick env limit = w.tick env steps := by
      rw [← Nat.add_sub_of_le within, tick_add, tick_settled settled]
    rw [rest, if_pos settled]

end Blockflow.Workspace
