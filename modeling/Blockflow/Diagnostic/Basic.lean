import Blockflow.Arena
import Blockflow.Diagnostic.Problem

/-!
# Diagnostics

A diagnostic is a problem with the place where it arose. Places are added while a failure travels
outwards, and the innermost one stays; only the call trace grows.
-/

namespace Blockflow

/-- Where something went wrong. -/
structure Locator where
  circuit : Option String := none
  node : Option Handle := none
  pin : Option Nat := none
  address : Option Nat := none
  /-- The call sites that the failure left, innermost first. -/
  trace : List Nat := []
  deriving DecidableEq, Repr, Inhabited

/-- A part of a literal. -/
structure LiteralSpan where
  text : String
  start : Nat
  stop : Nat
  deriving DecidableEq, Repr

/-- A problem and where it is. -/
structure Diagnostic where
  problem : Problem
  kind : DiagnosticKind := problem.kind
  locator : Locator := {}
  literal : Option LiteralSpan := none
  deriving DecidableEq, Repr

namespace Locator

def describe (place : Locator) : String :=
  let parts := [place.circuit.map fun name => s!"circuit `{name}`",
    place.node.map fun node => s!"node {node.index}",
    place.pin.map fun pin => s!"pin {pin}",
    place.address.map fun address => s!"address {address}"].filterMap id
  ", ".intercalate (parts ++ place.trace.map fun call => s!"called from address {call}")

end Locator

namespace Diagnostic

/-- What a crash leaves behind. -/
def crash : Diagnostic := { problem := .indexOutOfRange }

def message (d : Diagnostic) : String := d.problem.message

def describe (d : Diagnostic) : String := d.kind.label ++ ": " ++ d.message

def isDefinition (d : Diagnostic) : Bool := d.kind == .definition

/-- Name the node, unless one is named. -/
def atNode (d : Diagnostic) (node : Handle) : Diagnostic :=
  { d with locator.node := d.locator.node <|> some node }

def atPin (d : Diagnostic) (pin : Nat) : Diagnostic :=
  { d with locator.pin := d.locator.pin <|> some pin }

def atAddress (d : Diagnostic) (address : Nat) : Diagnostic :=
  { d with locator.address := d.locator.address <|> some address }

/-- Name the circuit, unless one is named. -/
def inCircuit (d : Diagnostic) (circuit : String) : Diagnostic :=
  { d with locator.circuit := d.locator.circuit <|> some circuit }

/-- The failure left the call at `address`. -/
def calledFrom (d : Diagnostic) (address : Nat) : Diagnostic :=
  { d with locator.trace := d.locator.trace ++ [address] }

def withLiteral (d : Diagnostic) (text : String) (start stop : Nat) : Diagnostic :=
  { d with literal := some ⟨text, start, stop⟩ }

end Diagnostic

end Blockflow
