import Blockflow.Graph.Expand

/-!
# Tearing down and expanding again

When a circuit changes, nested expansions of it are torn down and made anew; a root keeps its
parameters and outputs.
-/

namespace Blockflow.Graph

/-- Free an expansion, those nested in it, and their nodes. Every level of nesting frees an
expansion, so
`depth` levels are enough for a graph with fewer expansions. -/
def teardownTo : Nat → Graph → Handle → Graph
  | 0, graph, _ => graph
  | depth + 1, graph, id =>
    match graph.expansion? id with
    | none => graph
    | some expansion =>
      let graph := { graph with expansions := graph.expansions.free id }
      let graph := expansion.children.foldl (teardownTo depth) graph
      graph.unlinkAll expansion.members.toList

/-- Take out an instance with all that is nested in it. As many steps as there are instances
suffice. -/
def teardown (graph : Graph) (id : Handle) :
    Graph := graph.teardownTo (graph.expansions.size + 1) id

def teardownAll (graph : Graph) (ids : List Handle) : Graph := ids.foldl teardown graph

/-- The nested block that a node is an output of: its place, outputs, hidden node and child. -/
def nestedBlockOf? (expansion : Expansion) (node : Handle) :
    Option (Nat × List Handle × Option Handle × Option Handle) :=
  expansion.blocks.toList.zipIdx.findSome? fun
    | (.nested outputs hidden child, block) =>
      if node ∈ outputs then some (block, outputs, hidden, child) else none
    | _ => none

/-- Once no output of a nested circuit is left, its instance is taken out. -/
def releaseNested (graph : Graph) (owner node : Handle) : Graph :=
  match (graph.expansion? owner).bind (nestedBlockOf? · node) with
  | none => graph
  | some (block, outputs, hidden, child) =>
    if outputs.any graph.contains then graph
    else
      let graph := graph.modifyExpansion owner (·.setBlock block .unmade)
      let graph := graph.unlinkAll hidden.toList
      graph.teardownAll child.toList

/-- Remove a node. Its readers go on with what a pass-through node read, or with nothing. -/
def remove (graph : Graph) (id : Handle) : Graph :=
  match graph.node? id with
  | none => graph
  | some node =>
    let graph := graph.unlink id
    match node.owner with
    | some owner => graph.releaseNested owner id
    | none => graph

/-- A node for a nested output waits for it again. -/
def awaitNested (graph : Graph) (id : Handle) : Graph :=
  match (graph.node? id).map Node.behavior with
  | some (.nested block pin) => graph.addPending id 0 (.nestedOutput block pin)
  | _ => graph

/-- Tear down the expansion of a nested block; its outputs wait for a new one. -/
def expandAgain (graph : Graph) (site : CallSite) : Graph :=
  match (graph.expansion? site.expansion).map fun (e : Expansion) => e.stateOf site.block with
  | some (.nested outputs hidden child) =>
    let graph := graph.modifyExpansion site.expansion
      (·.setBlock site.block (.nested outputs hidden none))
    let graph := graph.teardownAll child.toList
    (outputs ++ hidden.toList).foldl awaitNested graph
  | _ => graph

/-- The new instance of a root whose circuit changed. -/
def freshRoot (circuits : List Circuit) (name : String) (arguments : List String) :
    Except Diagnostic Expansion :=
  match findCircuit? circuits name with
  | some circuit => Expansion.make circuit [] arguments
  | none => .error { problem := .unknownCircuit name }

/-- Start a root over. If its circuit is gone or malformed, the nodes are gone and a diagnostic says
why. -/
def rebuildRoot (graph : Graph) (circuits : List Circuit) (id : Handle) : Graph :=
  match graph.expansion? id with
  | none => graph
  | some expansion =>
    let name := expansion.circuit.name
    let kept := expansion.params ++ expansion.anchors
    let graph := graph.teardownAll expansion.children
    let graph := graph.unlinkAll (expansion.members.toList.filter (· ∉ kept))
    match freshRoot circuits name expansion.arguments with
    | .error d => { graph with diagnostics := graph.diagnostics.push (d.inCircuit name) }
    | .ok fresh =>
      let fresh := { fresh with
        params := expansion.params, anchors := expansion.anchors, members := kept.toArray }
      let graph := graph.modifyExpansion id fun _ => fresh
      (expansion.anchors.zip fresh.circuit.outputPins.names).foldl
        (fun graph (node, link) => graph.addPendingLink node 0 link) graph

/-- Start an instance over, at its call site or as a root. -/
def redefineAt (circuits : List Circuit) (graph : Graph) (id : Handle) : Graph :=
  match graph.expansion? id with
  | none => graph
  | some expansion =>
    match expansion.parent? with
    | some site => graph.expandAgain site
    | none => graph.rebuildRoot circuits id

/-- Start all instances of a circuit over, since it changed. -/
def redefine (graph : Graph) (circuits : List Circuit) (name : String) : Graph :=
  let affected := (graph.expansions.toList.filter (·.2.circuit.name == name)).map (·.1)
  affected.foldl (redefineAt circuits) graph

end Blockflow.Graph
