import Blockflow.Diagnostic.Basic

/-!
# Diagnostic chains

The diagnostics of a graph in the order of their arrival, at most one for every node.
-/

namespace Blockflow

/-- The diagnostics of a graph, in the order in which they came. -/
structure DiagnosticChain where
  entries : List Diagnostic := []
  deriving DecidableEq, Repr, Inhabited

namespace DiagnosticChain

/-- Forget what is said about a node. -/
def clearNode (chain : DiagnosticChain) (node : Handle) : DiagnosticChain :=
  ⟨chain.entries.filter fun entry => entry.locator.node ≠ some node⟩

/-- Add a diagnostic, in place of one about the same node. -/
def push (chain : DiagnosticChain) (d : Diagnostic) : DiagnosticChain :=
  let chain := match d.locator.node with
    | some node => chain.clearNode node
    | none => chain
  ⟨chain.entries ++ [d]⟩

def size (chain : DiagnosticChain) : Nat := chain.entries.length

def isEmpty (chain : DiagnosticChain) : Bool := chain.entries.isEmpty

/-- The diagnostics that keep a circuit from being compiled. -/
def definitions (chain : DiagnosticChain) : List Diagnostic :=
  chain.entries.filter Diagnostic.isDefinition

end DiagnosticChain

end Blockflow
