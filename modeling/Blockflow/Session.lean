import Blockflow.Compile.Basic
import Blockflow.Config
import Blockflow.Graph.Settle

/-!
# Sessions

A circuit is compiled on first use, in a graph of its own that is settled first; one with definition
problems has no program.
-/

namespace Blockflow

/-- Everything that compiling and running share. -/
structure Session where
  store : Store := {}
  methods : Methods := {}
  library : Library := {}
  config : Config := {}
  slots : Slots := {}
  /-- How often a circuit was compiled, successfully or not. -/
  compiles : Nat := 0

/-- Why a circuit does not compile. -/
structure CompileFailure where
  circuit : String
  diagnostics : List Diagnostic

namespace CompileFailure

/-- The first problem stands for all. -/
def message (failure : CompileFailure) : String :=
  let first := (failure.diagnostics.head?.map Diagnostic.describe).getD ""
  s!"`{failure.circuit}` failed to compile: {first}"

/-- The first diagnostic stands for all. -/
def diagnostic (failure : CompileFailure) : Diagnostic :=
  failure.diagnostics.head?.getD { problem := .failedToCompile failure.circuit }

end CompileFailure

namespace Session

instance : Inhabited Session := ⟨{}⟩

/-- A new session over a library; the operators of the built-in types are in place. -/
def make (library : Library) (config : Config := {}) : Session :=
  let (methods, store) := Operators.install {} {}
  { store, methods, library, config }

/-- What graphs are settled in. -/
def environment (session : Session) : Environment :=
  { library := session.library, methods := session.methods }

def onStore {α : Type} (action : Action α) : Effect Session α := ⟨fun session =>
  let (result, store) := action.run session.store
  (result, { session with store })⟩

/-- Compile a circuit in a graph of its own, without looking for a program. -/
def compileFresh (session : Session) (name : String) : Except CompileFailure Program × Session :=
  let session := { session with compiles := session.compiles + 1 }
  let start : Workspace := { store := session.store }
  match (Expand.instantiate session.library name []).run start with
  | (.error d, w) => (.error ⟨name, [d]⟩, { session with store := w.store })
  | (.ok root, w) =>
    let (_, w) := w.settle session.environment session.config.settleLimit
    let session := { session with store := w.store }
    match w.graph.diagnostics.definitions with
    | [] =>
      let (result, _, slots) := Compile.compile w.graph root session.slots
      (result.mapError fun d => ⟨name, [d]⟩, { session with slots })
    | diagnostics => (.error ⟨name, diagnostics⟩, session)

/-- The program in a slot, compiled if the slot is empty. -/
def compileSlot (session : Session) (slot : Nat) (name : String) :
    Except CompileFailure Program × Session :=
  match session.slots.program? slot with
  | some program => (.ok program, session)
  | none =>
    match session.compileFresh name with
    | (.ok program, session) =>
      (.ok program, { session with slots := session.slots.fill slot program })
    | (.error failure, session) => (.error failure, session)

/-- Made if there is none. -/
def slotOf (session : Session) (name : String) : Nat × Session :=
  let (slot, slots) := session.slots.slotOf name
  (slot, { session with slots })

/-- The program of a circuit. -/
def compile (session : Session) (name : String) : Except CompileFailure Program × Session :=
  let (slot, session) := session.slotOf name
  session.compileSlot slot name

/-- Forget a circuit and the programs that were built from it. -/
def invalidate (session : Session) (name : String) : Session :=
  { session with slots := session.slots.invalidate name }

/-- Forget all programs. -/
def invalidateAll (session : Session) : Session :=
  { session with slots := session.slots.invalidateAll }

/-- A circuit changed: forget what was built from it, and start its expansions in a graph over. -/
def redefine (session : Session) (graph : Graph) (name : String) : Graph × Session :=
  (graph.redefine session.library.circuits name, session.invalidate name)

/-- Forget all programs, types and labels. Handles of types are never used again, so the methods of
forgotten types may stay. -/
def reset (session : Session) : Session :=
  let session := session.invalidateAll
  let store := { session.store with types := session.store.types.reset }
  let (methods, store) := Operators.install session.methods store
  { session with store, methods }

end Session

end Blockflow
