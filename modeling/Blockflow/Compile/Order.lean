import Blockflow.Graph.Basic

/-!
# The order of a program

What the outputs of a root need, visited depth first, sources before readers. The walk keeps its own
stack.
-/

namespace Blockflow.Compile

/-- A visited node with the resolved sources of its pins. -/
structure Visit where
  node : Handle
  sources : List (Option Handle)
  deriving DecidableEq, Repr

def problemAt (node : Handle) (problem : Problem) : Diagnostic :=
  Diagnostic.atNode { problem } node

/-- Look through pass-through nodes, with a bound on the nodes looked at. -/
def resolveWithin (graph : Graph) : Nat → Handle → Except Diagnostic (Option Handle)
  | 0, id => .error (problemAt id .passCycle)
  | lookups + 1, id =>
    match graph.node? id with
    | none => .ok none
    | some node =>
      if !node.isPass then .ok (some id)
      else if !node.pending.isEmpty then .error (problemAt id .unresolvedOutput)
      else match node.source? 0 with
        | some source => resolveWithin graph lookups source
        | none => .ok none

/-- The node that computes the value of a node: pass-through nodes hand on what they read. More
nodes than the graph has can only be met in a cycle. -/
def resolve (graph : Graph) (id : Handle) : Except Diagnostic (Option Handle) :=
  resolveWithin graph (graph.nodes.size + 1) id

/-- Resolve the sources of the pins from `pin` on. Only the branches of a switch may be
unconnected. -/
def resolvePins (graph : Graph) (id : Handle) (kind : NodeKind) :
    Nat → List (Option Handle) → Except Diagnostic (List (Option Handle))
  | _, [] => .ok []
  | pin, input :: inputs => do
    let source ← match input with
      | some input => resolve graph input
      | none => pure none
    if source.isNone && !(kind == .switch && 0 < pin) then
      throw (Diagnostic.atNode (Diagnostic.atPin { problem := .unconnectedInput pin } pin) id)
    else return source :: (← resolvePins graph id kind (pin + 1) inputs)

/-- The kind of a node; nodes that are gone count as instructions. -/
def kindOf (graph : Graph) (id : Handle) : NodeKind :=
  match graph.node? id with
  | some node => node.kind
  | none => .instruction

/-- What the pins of a node read behind pass-through nodes. No pin may wait for a link. -/
def sourcesOf (graph : Graph) (id : Handle) : Except Diagnostic (List (Option Handle)) :=
  match graph.node? id with
  | none => .error (problemAt id .nodeRemoved)
  | some node =>
    match node.pending with
    | (pin, _) :: _ => .error ((problemAt id .unresolvedInput).atPin pin)
    | [] => resolvePins graph id node.kind 0 node.inputs

/-- A walk over the nodes that outputs need. -/
structure Walk where
  /-- Visited nodes whose sources are all visited, latest first. -/
  done : List Visit := []
  /-- Nodes under way, innermost first, with the sources still to be looked at. -/
  stack : List (Visit × List (Option Handle)) := []
  /-- The loops found so far: begin and end. -/
  loops : List (Handle × Handle) := []

/-- The loop that an end closes, which no other end may close. -/
def closeLoop (graph : Graph) (loops : List (Handle × Handle)) (id : Handle)
    (sources : List (Option Handle)) : Except Diagnostic (List (Handle × Handle)) :=
  match sources.head?.join with
  | some first =>
    if kindOf graph first != .loopBegin then .error ((problemAt id .endWithoutBegin).atPin 0)
    else match loops.lookup first with
      | some owner => if owner = id then .ok loops else .error (problemAt first .beginClosedTwice)
      | none => .ok (loops ++ [(first, id)])
  | none => .error ((problemAt id .endWithoutBegin).atPin 0)

/-- Start with a node. An end of a loop closes the loop of its begin. -/
def Walk.enter (graph : Graph) (walk : Walk) (id : Handle) : Except Diagnostic Walk := do
  let sources ← sourcesOf graph id
  let loops ←
    if kindOf graph id == .loopEnd then closeLoop graph walk.loops id sources else pure walk.loops
  return { walk with stack := (⟨id, sources⟩, sources) :: walk.stack, loops }

/-- Its sources were visited. -/
def Walk.isDone (walk : Walk) (id : Handle) : Bool := walk.done.any (·.node = id)

/-- Its sources are being visited. -/
def Walk.isOpen (walk : Walk) (id : Handle) : Bool := walk.stack.any (·.1.node = id)

/-- Follow the stack until it is empty. Every step finishes a node or looks at a source of one. -/
def Walk.run (graph : Graph) (isParam : Handle → Bool) : Nat → Walk → Except Diagnostic Walk
  | 0, walk => .ok walk
  | steps + 1, walk =>
    match walk.stack with
    | [] => .ok walk
    | (visit, []) :: stack => Walk.run graph isParam steps { walk with stack, done :=
        visit :: walk.done }
    | (visit, source :: rest) :: stack =>
      let walk := { walk with stack := (visit, rest) :: stack }
      match source with
      | none => Walk.run graph isParam steps walk
      | some id =>
        if isParam id || walk.isDone id then Walk.run graph isParam steps walk
        else if walk.isOpen id then .error (problemAt id .dependencyCycle)
        else match walk.enter graph id with
          | .error d => .error d
          | .ok walk => Walk.run graph isParam steps walk

/-- A bound on the steps of all walks over a graph. -/
def walkSteps (graph : Graph) : Nat :=
  (graph.nodes.toList.map fun (_, node) => node.inputs.length + 1).foldl (· + ·) 1

/-- Visit a node with all that it needs, unless that was done before. -/
def Walk.visit (graph : Graph) (isParam : Handle → Bool) (walk : Walk) (id : Handle) :
    Except Diagnostic Walk :=
  if isParam id || walk.isDone id then .ok walk
  else do Walk.run graph isParam (walkSteps graph) (← walk.enter graph id)

/-- Visit what the outputs of a root need; the answer has the resolved outputs too. -/
def walkOutputs (graph : Graph) (isParam : Handle → Bool) :
    List (Handle × String) → Walk → Except Diagnostic (List Handle × Walk)
  | [], walk => .ok ([], walk)
  | (output, name) :: rest, walk => do
    match ← resolve graph output with
    | none => throw { problem := .unconnectedOutput name }
    | some source =>
      let walk ← walk.visit graph isParam source
      let (sources, walk) ← walkOutputs graph isParam rest walk
      return (source :: sources, walk)

end Blockflow.Compile
