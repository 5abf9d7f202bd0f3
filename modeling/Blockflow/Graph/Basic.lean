import Blockflow.Circuit
import Blockflow.Diagnostic.Chain
import Blockflow.Graph.Node
import Blockflow.Graph.Worklist

/-!
# Graphs

A graph holds nodes and the expansions that made them. The edits keep the two ends of every edge in
step, count every structural change, and do nothing on a stale handle.
-/

namespace Blockflow

/-- The block of an enclosing expansion that a nested expansion stands for. -/
structure CallSite where
  expansion : Handle
  block : Nat
  deriving DecidableEq, Repr

/-- What the name of a link stands for in a circuit. -/
inductive LinkTarget where
  | input (index : Nat)
  | argument (index : Nat)
  | output (block pin : Nat)
  deriving DecidableEq, Repr

/-- What has been made of a block so far. -/
inductive BlockState where
  | unmade
  | made (outputs : List Handle)
  /-- A circuit expanded in place; `hidden` carries the variadic output that surplus outputs
  unpack. -/
  | nested (outputs : List Handle) (hidden : Option Handle) (child : Option Handle)
  deriving DecidableEq, Repr

/-- An instance of a circuit in a graph. -/
structure Expansion where
  circuit : Circuit
  /-- The call sites that the instance is nested in, innermost first. -/
  parents : List CallSite
  links : List (String × LinkTarget)
  blocks : Array BlockState
  /-- Arguments with the names of enclosing arguments replaced by their values. -/
  arguments : List String
  expanding : Bool := false
  params : List Handle := []
  /-- Output nodes of a root; they outlast a change of the circuit. -/
  anchors : List Handle := []
  restPack : Option Handle := none
  argumentNodes : List (Nat × Handle) := []
  members : Array Handle := #[]

namespace Expansion

/-- The call site of the instance; a root has none. -/
def parent? (expansion : Expansion) : Option CallSite := expansion.parents.head?

/-- How many arguments the variadic one takes. -/
def extraArguments (expansion : Expansion) : Nat :=
  expansion.arguments.length - expansion.circuit.argumentPins.fixed

/-- The instances nested directly in this one. -/
def children (expansion : Expansion) : List Handle :=
  expansion.blocks.toList.filterMap fun
    | .nested _ _ child => child
    | _ => none

end Expansion

/-- Nodes and the instances they were made for, with the nodes that wait to be evaluated. -/
structure Graph where
  nodes : Arena Node := .empty
  expansions : Arena Expansion := .empty
  worklist : Worklist := {}
  diagnostics : DiagnosticChain := {}
  /-- Values that parameters show while the graph settles. -/
  previews : List (Handle × Value) := []
  generation : Nat := 0

/-- The nodes that stand for the inputs and outputs of an instantiated circuit. -/
structure Root where
  name : String
  /-- Missing for roots that were not expanded. -/
  expansion : Option Handle := none
  params : List Handle
  outputs : List Handle
  outputNames : List String

namespace Graph

instance : Inhabited Graph := ⟨{}⟩

def node? (graph : Graph) (id : Handle) : Option Node := graph.nodes.get? id

def expansion? (graph : Graph) (id : Handle) : Option Expansion := graph.expansions.get? id

def contains (graph : Graph) (id : Handle) : Bool := graph.nodes.contains id

/-- The value that a node shows. -/
def output? (graph : Graph) (id : Handle) : Option Value := (graph.node? id).bind Node.output

/-- Nothing waits to be evaluated. -/
def isSettled (graph : Graph) : Bool := graph.worklist.isEmpty

/-- The circuit that a node was made for. -/
def circuitOf? (graph : Graph) (id : Handle) : Option String := do
  let owner ← (← graph.node? id).owner
  return (← graph.expansion? owner).circuit.name

def modifyNode (graph : Graph) (id : Handle) (f : Node → Node) : Graph :=
  { graph with nodes := graph.nodes.modify id f }

def modifyExpansion (graph : Graph) (id : Handle) (f : Expansion → Expansion) : Graph :=
  { graph with expansions := graph.expansions.modify id f }

/-- Count a change of the wiring. -/
def touch (graph : Graph) : Graph := { graph with generation := graph.generation + 1 }

/-- A pin is to be read again; the node enters the worklist unless it waits there already. -/
def markDirty (graph : Graph) (id : Handle) (pin : Nat) : Graph :=
  match graph.node? id with
  | none => graph
  | some node =>
    let graph := graph.modifyNode id fun node =>
      { node with dirty := node.dirty ||| Node.pinBit pin, queued := true }
    if node.queued then graph else { graph with worklist := graph.worklist.push id }

/-- A new node, which waits to be evaluated and is a member of the instance that owns it. -/
def addNode (graph : Graph) (behavior : Behavior) (inputs : Nat) (owner : Option Handle := none) :
    Handle × Graph :=
  let (id, nodes) := graph.nodes.alloc (Node.make behavior inputs owner)
  let graph := { graph with nodes }
  let graph := match owner with
    | some owner => graph.modifyExpansion owner fun e => { e with members := e.members.push id }
    | none => graph
  (id, graph.touch.markDirty id 0)

/-- Leave a pin to be connected when the node is evaluated. -/
def addPending (graph : Graph) (id : Handle) (pin : Nat) (pending : Pending) : Graph :=
  (graph.modifyNode id (·.setPending pin pending)).markDirty id pin

/-- Leave a pin to a link of the owning circuit; the empty name stands for no link. -/
def addPendingLink (graph : Graph) (id : Handle) (pin : Nat) (link : String) : Graph :=
  if link.isEmpty then graph else graph.addPending id pin (.link link)

/-- A source, if its node is still there. -/
def live? (graph : Graph) (source : Option Handle) : Option Handle := source.filter graph.contains

/-- Let a pin read `source`. The pin is dirty if it now reads nothing or a node with a value. -/
def connect (graph : Graph) (id : Handle) (pin : Nat) (source : Option Handle) : Graph :=
  let source := graph.live? source
  match graph.node? id with
  | none => graph
  | some node =>
    let edge : Edge := ⟨id, pin⟩
    let graph := graph.modifyNode id (·.setInput pin source)
    let graph := match node.source? pin with
      | some old => graph.modifyNode old (·.removeConsumer edge)
      | none => graph
    let graph := match source with
      | some source => graph.modifyNode source (·.addConsumer edge)
      | none => graph
    let ready := match source with
      | some source => (graph.output? source).isSome
      | none => true
    let graph := graph.touch
    if ready then graph.markDirty id pin else graph

/-- Wake all readers. -/
def markEdges (graph : Graph) (edges : List Edge) : Graph :=
  edges.foldl (fun graph edge => graph.markDirty edge.node edge.pin) graph

/-- Whether an output stays as it is, by the equality of values. -/
def sameOutput : Option Value → Option Value → Bool
  | none, none => true
  | some a, some b => a == b
  | _, _ => false

/-- Store a new output. Its readers are marked only if it differs from the one before, which the
answer tells. -/
def updateOutput (graph : Graph) (id : Handle) (value : Option Value) : Bool × Graph :=
  match graph.node? id with
  | none => (false, graph)
  | some node =>
    if sameOutput node.output value then (false, graph)
    else
      let graph := graph.modifyNode id fun node => { node with output := value }
      (true, graph.markEdges node.consumers)

/-- The value that a parameter shows from now on. -/
def setPreview (graph : Graph) (param : Handle) (value : Value) : Graph :=
  let previews := (param, value) :: graph.previews.filter (·.1 != param)
  { graph with previews }.markDirty param 0

/-- The source that takes the place of a removed node: pass-through nodes hand on what they read. -/
def replacement? (node : Node) : Option Handle := if node.isPass then node.source? 0 else none

/-- The sources of a removed node no longer list its pins. -/
def detachInputs (graph : Graph) (id : Handle) (inputs : List (Option Handle)) : Graph :=
  inputs.zipIdx.foldl (fun graph (source, pin) =>
    match source with
    | some source => graph.modifyNode source (·.removeConsumer ⟨id, pin⟩)
    | none => graph) graph

/-- The readers of a removed node read another one. -/
def redirect (graph : Graph) (id : Handle) (consumers : List Edge) (source : Option Handle) :
    Graph :=
  consumers.foldl (fun graph edge =>
    if edge.node = id then graph else graph.connect edge.node edge.pin source) graph

/-- Take a node out of the graph; its readers go on with its replacement. -/
def unlink (graph : Graph) (id : Handle) : Graph :=
  match graph.node? id with
  | none => graph
  | some node =>
    let graph := graph.detachInputs id node.inputs
    let graph := graph.redirect id node.consumers (replacement? node)
    { graph with
      nodes := graph.nodes.free id
      previews := graph.previews.filter (·.1 != id)
      diagnostics := graph.diagnostics.clearNode id }.touch

/-- Free them in this order. -/
def unlinkAll (graph : Graph) (ids : List Handle) : Graph := ids.foldl Graph.unlink graph

end Graph

end Blockflow
