import Blockflow.Compile.Placement
import Blockflow.Program.Slots

/-!
# Emission

Every placed node gets an address in its scope and at most one instruction. The code of a scope is
complete when the node that runs it is reached.
-/

namespace Blockflow.Compile

/-- Where the values of nodes lie: parameters first, the others by their scopes. -/
structure Addresses where
  params : List (Handle × Nat)
  placement : Placement
  offsets : List (Handle × Nat)

namespace Addresses

/-- Parameters come first. -/
def find? (a : Addresses) (id : Handle) : Option Nat :=
  match a.params.lookup id with
  | some index => some index
  | none =>
    match a.placement.scopes.lookup id, a.offsets.lookup id with
    | some scope, some offset => some (a.placement.tree.address scope offset)
    | _, _ => none

/-- The address of a node, which must have one. -/
def get (a : Addresses) (id : Handle) : Except Diagnostic Nat :=
  match a.find? id with
  | some address => .ok address
  | none => .error (problemAt id .noAddress)

end Addresses

/-- Every visited node claims an offset in its scope. -/
def claimAll (p : Placement) : List Visit → Placement × List (Handle × Nat)
  | [] => (p, [])
  | visit :: order =>
    let (offset, tree) := p.tree.claim ((p.scopes.lookup visit.node).getD ScopeTree.rootId)
    let (p, offsets) := claimAll { p with tree } order
    (p, (visit.node, offset) :: offsets)

/-- The state of the emitter. -/
structure Emission where
  /-- Code by scope, latest instruction first. -/
  code : List (Nat × List Instruction) := []
  /-- Circuits called so far, in the order of their first calls. -/
  callees : List String := []
  slots : Slots

namespace Emission

/-- Add an instruction to the code of its scope. -/
def push (scope : Nat) (instruction : Instruction) : StateM Emission Unit :=
  modify fun e =>
    let before := (e.code.lookup scope).getD []
    { e with code := (scope, instruction :: before) :: e.code.filter (·.1 != scope) }

/-- The finished code of a scope, which goes into the instruction that owns the scope. -/
def take (scope : Nat) : StateM Emission (List Instruction) :=
  modifyGet fun e =>
    (((e.code.lookup scope).getD []).reverse, { e with code := e.code.filter (·.1 != scope) })

/-- The slot of a called circuit, which is noted as a callee. -/
def callee (name : String) : StateM Emission Nat :=
  modifyGet fun e =>
    let (slot, slots) := e.slots.slotOf name
    let callees := if name ∈ e.callees then e.callees else e.callees ++ [name]
    (slot, { e with slots, callees })

end Emission

abbrev Emit (α : Type) := Effect Emission α

/-- What is said of such a pin. -/
def unconnected (id : Handle) (pin : Nat) : Diagnostic :=
  Diagnostic.atNode (Diagnostic.atPin { problem := .unconnectedInput pin } pin) id

/-- Unconnected pins are errors. -/
def sourceAddress (a : Addresses) (visit : Visit) (pin : Nat) (source : Option Handle) :
    Except Diagnostic Nat :=
  match source with
  | some source => a.get source
  | none => .error (unconnected visit.node pin)

/-- The addresses of all sources; every pin must be connected. -/
def insOf (a : Addresses) (visit : Visit) : Except Diagnostic (List Nat) :=
  visit.sources.zipIdx.mapM fun (source, pin) => sourceAddress a visit pin source

/-- The address that a pin by its number reads; a node without the pin crashes the compiler. -/
def pinOf (ins : List Nat) (pin : Nat) : Except Diagnostic Nat :=
  match ins[pin]? with
  | some address => .ok address
  | none => .error .crash

/-- The instruction of a loop end, with the code of the scope of the loop. -/
def loopInstruction (a : Addresses) (order : List Visit) (visit : Visit) (out : Nat) :
    Emit Instruction := do
  match visit.sources.head?.join with
  | none => .fail (unconnected visit.node 0)
  | some first =>
    let firstSources := (order.find? (·.node = first)).elim [] Visit.sources
    match firstSources.head?.join with
    | none => .fail (unconnected first 0)
    | some init =>
      match a.placement.loops.lookup visit.node with
      | none => .fail .crash
      | some body =>
        let ins ← insOf a visit
        let init ← a.get init
        let state ← a.get first
        let next ← pinOf ins 1
        let cond ← pinOf ins 2
        let (clearFrom, clearTo) := a.placement.tree.extent body
        let code ← Emission.take body
        return .loop { init, state, next, cond, out, clearFrom, clearTo } code

/-- The branches of a switch; one that is not connected has no code and no result. -/
def branchesOf (a : Addresses) (scopes : List Nat) :
    List (Option Handle × Nat) → Emit (List Branch)
  | [] => return []
  | (source, index) :: rest => do
    let code ← match scopes[index]? with
      | some scope => Effect.ofState (Emission.take scope)
      | none => pure []
    let result ← source.mapM fun source => Effect.ofExcept (a.get source)
    return .mk code result :: (← branchesOf a scopes rest)

/-- The instruction of a switch, with the code of the scopes of its branches. -/
def switchInstruction (a : Addresses) (visit : Visit) (out : Nat) : Emit Instruction := do
  let scopes := (a.placement.branches.lookup visit.node).getD []
  let branches ← branchesOf a scopes (visit.sources.drop 1).zipIdx
  match visit.sources.head?.join with
  | none => .fail (unconnected visit.node 0)
  | some selector => return .switch (← a.get selector) branches out

/-- The instruction of a node. Parameters and begins of loops have none. -/
def instructionOf (graph : Graph) (a : Addresses) (order : List Visit) (visit : Visit) :
    Emit (Option Instruction) := do
  let out ← a.get visit.node
  match (graph.node? visit.node).map Node.behavior with
  | none => .fail (problemAt visit.node .nodeRemoved)
  | some (.const value) => return some (.loadConst value out)
  | some (.op native) => return some (← native.bind (← insOf a visit) out)
  | some (.virtual names) => return some (.virtualCall names (← insOf a visit) out)
  | some .pack => return some (.pack (← insOf a visit) out)
  | some (.unpack index) =>
    let input ← pinOf (← insOf a visit) 0
    return some (.unpack index input out)
  | some (.call circuit) =>
    let slot ← Emission.callee circuit
    return some (.functionCall circuit slot (← insOf a visit) out)
  | some .loopEnd => return some (← loopInstruction a order visit out)
  | some .switch => return some (← switchInstruction a visit out)
  | some (.param _) | some .loopBegin | some .pass | some (.nested ..) => return none

/-- Emit the instructions of the visited nodes, sources first. -/
def emit (graph : Graph) (a : Addresses) (order : List Visit) : List Visit → Emit Unit
  | [] => return ()
  | visit :: rest => do
    match ← instructionOf graph a order visit with
    | some instruction =>
      let scope := (a.placement.scopes.lookup visit.node).getD ScopeTree.rootId
      Emission.push scope instruction
    | none => pure ()
    emit graph a order rest

end Blockflow.Compile
