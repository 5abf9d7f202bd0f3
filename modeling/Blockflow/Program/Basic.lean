import Blockflow.Native.Basic

/-!
# Programs

A program is a tree of instructions over the addresses of a frame. A call names the slot of the
session in which the program of the called circuit is kept.
-/

namespace Blockflow

/-- The addresses of a loop. -/
structure Loop where
  init : Nat
  state : Nat
  next : Nat
  /-- The selector that ends the loop with path 0. -/
  cond : Nat
  /-- The last state, after the loop. -/
  out : Nat
  /-- The addresses from here up to `clearTo` are emptied before every round. -/
  clearFrom : Nat
  clearTo : Nat
  deriving DecidableEq, Repr

mutual

/-- Instructions read and write addresses of a frame. Loops and switches hold code. -/
inductive Instruction where
  | loadConst (value : Value) (out : Nat)
  | call (native : Native) (ins : List Nat) (out : Nat)
  | virtualCall (names : List String) (ins : List Nat) (out : Nat)
  | pack (ins : List Nat) (out : Nat)
  | unpack (index input out : Nat)
  | functionCall (circuit : String) (slot : Nat) (ins : List Nat) (out : Nat)
  | loop (addresses : Loop) (body : List Instruction)
  | switch (selector : Nat) (branches : List Branch) (out : Nat)

/-- Code of a switch, and where its result lies; without one the payload of the selector is passed
on. -/
inductive Branch where
  | mk (code : List Instruction) (result : Option Nat)

end

namespace Branch

def code : Branch → List Instruction
  | .mk code _ => code

def result : Branch → Option Nat
  | .mk _ result => result

end Branch

namespace Instruction

/-- The address that an instruction writes last. -/
def output : Instruction → Nat
  | .loadConst _ out | .call _ _ out | .virtualCall _ _ out | .pack _ out | .unpack _ _ out
  | .functionCall _ _ _ out | .switch _ _ out => out
  | .loop addresses _ => addresses.out

end Instruction

/-- A compiled circuit. -/
structure Program where
  name : String
  code : List Instruction
  frameSize : Nat
  /-- Arguments lie at the first addresses. -/
  params : Nat
  ret : Nat
  /-- Circuits called as functions, in the order of their first calls. -/
  callees : List String
  /-- Circuits expanded in place. -/
  inlined : List String

namespace Program

def size (program : Program) : Nat := program.code.length

end Program

/-- A call of a native at given addresses; a wrong number of inputs is refused here. -/
def Native.bind (native : Native) (ins : List Nat) (out : Nat) : Except Diagnostic Instruction :=
  if native.arity.accepts ins.length then .ok (.call native ins out)
  else .error { problem := .wrongInputCount native.name native.arity ins.length }

end Blockflow
