import Blockflow.Machine.Frame
import Blockflow.Session
import Blockflow.Value.Selector

/-!
# The machine

Every instruction and every round of a loop takes a step, so the steps that are left bound the
recursion. A failure leaves a call with the address of the call.
-/

namespace Blockflow

/-- A session with a running program: the frame, and what was used of budget and depth. -/
structure Machine where
  session : Session
  budget : Nat
  steps : Nat := 0
  depth : Nat := 0
  frame : Frame := {}

/-- A part of a run. -/
abbrev Exec (α : Type) := Effect Machine α

namespace Machine

/-- With the budget of the session. -/
def start (session : Session) : Machine := { session, budget := session.config.stepBudget }

/-- A bound on the recursion: where it is 0, taking a step fails. -/
def stepsLeft (m : Machine) : Nat := m.budget - m.steps

def exhausted (m : Machine) : Diagnostic := { problem := .stepBudgetExhausted m.budget }

/-- Count an instruction; beyond the budget that fails. -/
def step : Exec Unit := ⟨fun m =>
  let m := { m with steps := m.steps + 1 }
  if m.budget < m.steps then (.error m.exhausted, m) else (.ok (), m)⟩

def read (address : Nat) : Exec Value := ⟨fun m => (m.frame.get address, m)⟩

/-- Read several addresses. -/
def gather (addresses : List Nat) : Exec (List Value) := ⟨fun m => (m.frame.gather addresses, m)⟩

def write (address : Nat) (value : Value) : Exec Unit :=
  ⟨fun m => (.ok (), { m with frame := m.frame.set address value })⟩

/-- Empty a range of slots. -/
def clear (start stop : Nat) : Exec Unit :=
  ⟨fun m => (.ok (), { m with frame := m.frame.clear start stop })⟩

def onStore {α : Type} (action : Action α) : Exec α := ⟨fun m =>
  let (result, session) := (Session.onStore action).run m.session
  (result, { m with session })⟩

def methods : Exec Methods := ⟨fun m => (.ok m.session.methods, m)⟩

/-- What a switch picks: a type may have a method that makes the selector. -/
def select (address : Nat) : Exec Selector := do
  let value ← read address
  match (← methods).find? value.ty "switch" with
  | some method => Selector.ofValue (← onStore (method.call [value]))
  | none => Selector.ofValue value

/-- The program of a slot, which is compiled on the first call. -/
def program (circuit : String) (slot : Nat) : Exec Program := ⟨fun m =>
  let (result, session) := m.session.compileSlot slot circuit
  (result.mapError CompileFailure.diagnostic, { m with session })⟩

/-- Whether a call has the right number of arguments and may go deeper. -/
def mayCall (m : Machine) (program : Program) (arguments : Nat) : Except Diagnostic Unit :=
  if arguments ≠ program.params then
    .error { problem := .wrongArgumentCount program.name program.params arguments }
  else if m.session.config.maxCallDepth ≤ m.depth then
    .error { problem := .callDepthReached m.session.config.maxCallDepth }
  else .ok ()

/-- Start a round of a loop: its addresses hold the state and nothing else. -/
def enterRound (loop : Loop) (state : Value) : Exec Unit := do
  step
  clear loop.clearFrom loop.clearTo
  write loop.state state

/-- The next state of a loop, unless the condition ends it. -/
def nextState? (loop : Loop) : Exec (Option Value) := do
  let selector ← Selector.ofValue (← read loop.cond)
  if selector.path = 0 then return none
  return some (← read loop.next)

/-- The branch that a selector picks. -/
def branch (branches : List Branch) (selector : Selector) : Except Diagnostic Branch :=
  match branches[selector.path]? with
  | some branch => .ok branch
  | none => .error { problem := .pathWithoutBranch selector.path branches.length }

/-- The value of a branch that ran; without a result it is the payload of the selector. -/
def branchResult (branch : Branch) (selector : Selector) : Exec Value :=
  match branch.result with
  | some address => read address
  | none => return selector.payload

/-- Call a program on a frame of its own; `run` runs code. -/
def invokeWith (run : List Instruction → Exec Unit) (program : Program) (arguments : List Value) :
    Exec Value := ⟨fun m =>
  match m.mayCall program arguments.length with
  | .error d => (.error (d.inCircuit program.name), m)
  | .ok () =>
    let callee := { m with
      depth := m.depth + 1
      frame := Frame.withArguments program.frameSize arguments }
    let (result, callee) := (run program.code >>= fun _ => read program.ret).run callee
    (result.mapError (·.inCircuit program.name), { callee with depth := callee.depth - 1, frame :=
      m.frame })⟩

/-- Execute one instruction; `run` runs the code that it holds and `iterate` the rounds of a
loop. -/
def execute (run : List Instruction → Exec Unit)
    (iterate : Loop → List Instruction → Value → Exec Unit) : Instruction → Exec Unit
  | .loadConst value out => write out value
  | .call native ins out => do
    let args ← gather ins
    write out (← onStore (native.call args))
  | .virtualCall names ins out => do
    let args ← gather ins
    write out (← onStore ((← methods).dispatch names args))
  | .pack ins out => do
    let values ← gather ins
    write out (← onStore (Store.pack values))
  | .unpack index input out => do
    let value ← read input
    write out (← value.element index)
  | .functionCall circuit slot ins out => do
    let program ← program circuit slot
    let args ← gather ins
    write out (← (invokeWith run program args).mapFailure (·.calledFrom out))
  | .loop addresses body => do
    iterate addresses body (← read addresses.init)
  | .switch selector branches out => do
    let selector ← select selector
    let branch ← branch branches selector
    run branch.code
    write out (← branchResult branch selector)

mutual

/-- Run code. The fuel bounds the steps, which the budget does anyway. -/
def runWithin : Nat → List Instruction → Machine → Except Diagnostic Unit × Machine
  | _, [], m => (.ok (), m)
  | 0, instruction :: _, m =>
    (.error (m.exhausted.atAddress instruction.output), { m with steps := m.steps + 1 })
  | fuel + 1, instruction :: rest, m =>
    let executed := step >>= fun _ =>
      execute (fun code => ⟨runWithin fuel code⟩)
        (fun loop body state => ⟨iterateWithin fuel loop body state⟩) instruction
    match executed.run m with
    | (.error d, m) => (.error (d.atAddress instruction.output), m)
    | (.ok (), m) => runWithin fuel rest m

/-- Run the rounds of a loop from a state on, within a bound on the steps. -/
def iterateWithin : Nat → Loop → List Instruction → Value → Machine →
    Except Diagnostic Unit × Machine
  | 0, _, _, _, m => (.error m.exhausted, { m with steps := m.steps + 1 })
  | fuel + 1, loop, body, state, m =>
    let round := enterRound loop state >>= fun _ =>
      (⟨runWithin fuel body⟩ : Exec Unit) >>= fun _ => nextState? loop
    match round.run m with
    | (.error d, m) => (.error d, m)
    | (.ok (some next), m) => iterateWithin fuel loop body next m
    | (.ok none, m) => (write loop.out state).run m

end

/-- Run code on the steps that are left. -/
def run (code : List Instruction) : Exec Unit := ⟨fun m => runWithin m.stepsLeft code m⟩

/-- Call a program. -/
def invoke (program : Program) (arguments : List Value) :
    Exec Value := invokeWith run program arguments

end Machine

/-- Compile a circuit and call its program. -/
def Session.run (name : String) (arguments : List Value) : Effect Session Value := ⟨fun session =>
  match session.compile name with
  | (.error failure, session) => (.error failure.diagnostic, session)
  | (.ok program, session) =>
    let (result, m) := (Machine.invoke program arguments).run (Machine.start session)
    (result, m.session)⟩

end Blockflow
