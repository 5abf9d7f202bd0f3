import Blockflow.Json.Basic

/-!
# Limits

The limits of a session. A configuration lists only what differs from the defaults.
-/

namespace Blockflow

/-- The limits of a session. -/
structure Config where
  /-- Steps that one run may take. -/
  stepBudget : Nat := 1000000
  /-- Calls that may be open at once. -/
  maxCallDepth : Nat := 256
  /-- Nodes that are evaluated before settling gives up. -/
  settleLimit : Nat := 100000
  /-- Steps for folding one pure operator while a graph settles. -/
  previewBudget : Nat := 10000
  deriving DecidableEq, Repr, Inhabited

namespace Json

def limit? : Json → Option Nat := natBelow? (1 <<< 64)

def config? (json : Json) : Option Config := do
  let defaults : Config := {}
  match ← record? ["step_budget", "max_call_depth", "settle_limit", "preview_budget"] json with
  | [steps, depth, settle, preview] =>
    return {
      stepBudget := ← optional? defaults.stepBudget limit? steps
      maxCallDepth := ← optional? defaults.maxCallDepth limit? depth
      settleLimit := ← optional? defaults.settleLimit limit? settle
      previewBudget := ← optional? defaults.previewBudget limit? preview }
  | _ => none

end Json

end Blockflow
