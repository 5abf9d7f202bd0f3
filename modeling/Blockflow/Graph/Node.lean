import Blockflow.Native.Basic

/-!
# Nodes

Every input pin stores its source, and every source keeps the reverse edge. Pins that wait for a
link to be resolved are listed as pending.
-/

namespace Blockflow

/-- What a node computes. -/
inductive Behavior where
  | const (value : Value)
  | param (index : Nat)
  | op (native : Native)
  /-- An operator under one of several names, dispatched on the operands. -/
  | virtual (names : List String)
  | pack
  | unpack (index : Nat)
  | call (circuit : String)
  | loopBegin
  | loopEnd
  | switch
  | pass
  | nested (block pin : Nat)

/-- How the compiler and the printer see a node. -/
inductive NodeKind where
  | instruction
  | loopBegin
  | loopEnd
  | switch
  | pass
  deriving DecidableEq, Repr

def NodeKind.name : NodeKind → String
  | .instruction => "Instr"
  | .loopBegin => "Begin"
  | .loopEnd => "End"
  | .switch => "Switch"
  | .pass => "Pass"

namespace Behavior

/-- The role that compilation sees. -/
def kind : Behavior → NodeKind
  | .loopBegin => .loopBegin
  | .loopEnd => .loopEnd
  | .switch => .switch
  | .pass | .nested .. => .pass
  | _ => .instruction

def text : Behavior → String
  | .const value => s!"const {value.text}"
  | .param index => s!"param {index}"
  | .op native => s!"op {native.name}"
  | .virtual names => "virtual " ++ "|".intercalate names
  | .pack => "pack"
  | .unpack index => s!"unpack {index}"
  | .call circuit => s!"call {circuit}"
  | .loopBegin => "begin"
  | .loopEnd => "end"
  | .switch => "switch"
  | .pass => "pass"
  | .nested block pin => s!"macro block {block} pin {pin}"

end Behavior

/-- A pin of a node. -/
structure Edge where
  node : Handle
  pin : Nat
  deriving DecidableEq, Repr

/-- A connection that is made when the node is evaluated. -/
inductive Pending where
  /-- To the node that stands for a link of the owning circuit. -/
  | link (name : String)
  /-- To an output of a circuit that a block of the owning circuit expands. -/
  | nestedOutput (block pin : Nat)
  deriving DecidableEq, Repr

/-- A node with its sources, the pins that wait for a link, and the pins that read it. -/
structure Node where
  behavior : Behavior
  inputs : List (Option Handle)
  pending : List (Nat × Pending) := []
  owner : Option Handle := none
  consumers : List Edge := []
  output : Option Value := none
  /-- One bit for every pin to be read again; pins from 31 on share a bit. -/
  dirty : Nat := 0
  queued : Bool := false
  address : Option Nat := none
  /-- The state of the graph at the last compilation. -/
  generation : Nat := 0

namespace Node

def make (behavior : Behavior) (inputs : Nat) (owner : Option Handle) : Node :=
  { behavior, inputs := List.replicate inputs none, owner }

def kind (node : Node) : NodeKind := node.behavior.kind

/-- Whether the node hands on its source. -/
def isPass (node : Node) : Bool := node.kind == .pass

/-- The node that a pin reads. -/
def source? (node : Node) (pin : Nat) : Option Handle := node.inputs[pin]?.join

/-- The mark of a pin; all pins from 31 on share one. -/
def pinBit (pin : Nat) : Nat := 1 <<< min pin 31

/-- A pin no longer waits for a link. -/
def settlePin (node : Node) (pin : Nat) : Node :=
  { node with pending := node.pending.filter (·.1 != pin) }

/-- At least that many pins. -/
def withPins (inputs : List (Option Handle)) (count : Nat) : List (Option Handle) :=
  inputs ++ List.replicate (count - inputs.length) none

/-- A pin reads a source, and is made if the node does not have it. -/
def setInput (node : Node) (pin : Nat) (source : Option Handle) : Node :=
  { node.settlePin pin with inputs := (withPins node.inputs (pin + 1)).set pin source }

/-- A pin waits for a link. -/
def setPending (node : Node) (pin : Nat) (pending : Pending) : Node :=
  let node := node.settlePin pin
  { node with pending := node.pending ++ [(pin, pending)] }

def removeConsumer (node : Node) (edge : Edge) : Node :=
  { node with consumers := node.consumers.filter (· != edge) }

/-- A reader is listed once. -/
def addConsumer (node : Node) (edge : Edge) : Node :=
  if edge ∈ node.consumers then node else { node with consumers := node.consumers ++ [edge] }

end Node

end Blockflow
