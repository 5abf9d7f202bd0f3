import Blockflow.Graph.Teardown

/-!
# Settling

Nodes of the worklist are evaluated one after another. A node that fails shows no value and a
diagnostic. Parameters show their previews; calls and impure operations show nothing.
-/

namespace Blockflow

/-- What evaluation looks up and never changes. -/
structure Environment where
  library : Library := {}
  methods : Methods := {}

namespace Graph

/-- The value at a pin, if its source shows one. -/
def inputValue? (graph : Graph) (node : Node) (pin : Nat) : Option Value :=
  (node.source? pin).bind graph.output?

/-- The values at all pins, if all are there. -/
def inputValues? (graph : Graph) (node : Node) : Option (List Value) :=
  node.inputs.mapM fun source => source.bind graph.output?

/-- The value that a node should show; none if a source shows none. -/
def evaluate (methods : Methods) (graph : Graph) (id : Handle) (node : Node) :
    Action (Option Value) :=
  match node.behavior with
  | .const value => return some value
  | .param _ => return graph.previews.lookup id
  | .loopBegin | .loopEnd | .pass | .nested .. => return graph.inputValue? node 0
  | .switch => return graph.inputValue? node 1
  | .pack =>
    match graph.inputValues? node with
    | some values => do return some (← Store.pack values)
    | none => return none
  | .unpack index =>
    match graph.inputValue? node 0 with
    | some value => do return some (← value.element index)
    | none => return none
  | .virtual names =>
    match graph.inputValues? node with
    | some args => do
      let (native, args) ← methods.resolve names args
      if native.isPure then return some (← native.call args) else return none
    | none => return none
  | .op native =>
    match native.isPure, graph.inputValues? node with
    | true, some args => do return some (← native.call args)
    | _, _ => return none
  | .call _ => return none

end Graph

namespace Workspace

/-- Connect a pin to what it waits for. A failure names the pin. -/
def resolvePin (env : Environment) (id owner : Handle) (pin : Nat) (pending : Pending) :
    Edit Unit :=
  Effect.mapFailure (·.atPin pin) do
    let source ← match pending with
      | .link name => Expand.link env.library owner name
      | .nestedOutput block output => Expand.nestedOutput env.library owner block output
    Edit.modifyGraph (·.connect id pin source)

/-- All waiting pins are tried; the first failure counts. -/
def resolvePins (env : Environment) (id owner : Handle) :
    List (Nat × Pending) → StateM Workspace (Except Diagnostic Unit)
  | [] => return .ok ()
  | (pin, pending) :: rest => do
    let first ← (resolvePin env id owner pin pending).attempt
    let others ← resolvePins env id owner rest
    return match first with
      | .ok () => others
      | .error d => .error d

/-- Connect the pins of a node that wait for a link. -/
def resolvePending (env : Environment) (id : Handle) :
    StateM Workspace (Except Diagnostic Unit) := do
  match (← get).graph.node? id with
  | none => return .ok ()
  | some node =>
    match node.pending, node.owner with
    | [], _ => return .ok ()
    | _, none => return .error { problem := .unownedLinks }
    | pending, some owner => resolvePins env id owner pending

def evaluate (env : Environment) (id : Handle) : Edit (Option Value) := do
  let graph ← Edit.graph
  match graph.node? id with
  | none => return none
  | some node => Edit.onStore (graph.evaluate env.methods id node)

/-- The diagnostic names the node and its circuit. -/
def locate (graph : Graph) (id : Handle) (d : Diagnostic) : Diagnostic :=
  let d := d.atNode id
  match graph.circuitOf? id with
  | some name => d.inCircuit name
  | none => d

/-- Show the result; a failure is recorded, and the node shows nothing. -/
def conclude (graph : Graph) (id : Handle) : Except Diagnostic (Option Value) → Graph
  | .ok value => (graph.updateOutput id value).2
  | .error d =>
    let graph := { graph with diagnostics := graph.diagnostics.push (locate graph id d) }
    (graph.updateOutput id none).2

/-- Evaluate a node of the worklist; stale handles are skipped. -/
def process (env : Environment) (id : Handle) (w : Workspace) : Workspace :=
  if !w.graph.contains id then w
  else
    let w := { w with graph.diagnostics := w.graph.diagnostics.clearNode id }
    let (resolved, w) := resolvePending env id w
    let w := { w with
      graph := w.graph.modifyNode id fun node => { node with queued := false, dirty := 0 } }
    let (result, w) := match resolved with
      | .ok () => (evaluate env id).run w
      | .error d => (.error d, w)
    { w with graph := conclude w.graph id result }

/-- Evaluate that many entries of the worklist, or all. -/
def tick (env : Environment) : Nat → Workspace → Workspace
  | 0, w => w
  | steps + 1, w =>
    match w.graph.worklist.pop? with
    | none => w
    | some (id, worklist) => tick env steps (process env id { w with graph.worklist := worklist })

/-- How many entries are evaluated before the rest of the limit is looked at. -/
def maxBatch : Nat := 1024

/-- Evaluate batch after batch until nothing waits or the budget is used up; the answer tells which.
Every round takes at least one from the budget, so it needs at most as many rounds. -/
def settleRounds (env : Environment) (batch : Nat) : Nat → Nat → Workspace → Bool × Workspace
  | rounds, budget, w =>
    if w.graph.isSettled then (true, w)
    else if budget = 0 then (false, w)
    else match rounds with
      | 0 => (false, w)
      | rounds + 1 =>
        let steps := min batch budget
        settleRounds env batch rounds (budget - steps) (tick env steps w)

/-- Evaluate until nothing waits. Giving up after `limit` nodes is a definition problem. -/
def settle (env : Environment) (limit : Nat) (w : Workspace) : Bool × Workspace :=
  match settleRounds env (min maxBatch (max limit 1)) limit limit w with
  | (true, w) => (true, w)
  | (false, w) =>
    (false, { w with
      graph.diagnostics := w.graph.diagnostics.push { problem := .notSettled limit } })

end Workspace

end Blockflow
