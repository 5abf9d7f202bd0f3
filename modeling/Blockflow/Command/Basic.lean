import Blockflow.Diagnostic.Report
import Blockflow.Json.Reader
import Blockflow.Json.Writer
import Blockflow.Machine.Basic
import Blockflow.Program.Printer
import Blockflow.Stored.Cache

/-!
# Commands

What the command line does, as a function from the texts of files to what it prints and writes.
-/

namespace Blockflow

/-- Options that all commands take. -/
structure Limits where
  config : Option String := none
  budget : Option Nat := none
  ticks : Option Nat := none
  deriving DecidableEq, Repr

/-- What to do with a module. -/
inductive Task where
  | run (circuit : String) (arguments : List String)
  | check
  | dump (circuit : String)
  | cache (circuit : String) (out : String)
  deriving DecidableEq, Repr

/-- A command line. -/
structure Command where
  modulePath : String
  limits : Limits := {}
  task : Task
  deriving DecidableEq, Repr

/-- What a command prints and writes. -/
structure Outcome where
  succeeded : Bool
  output : String := ""
  errors : String := ""
  written : Option (String × String) := none
  deriving DecidableEq, Repr

namespace Command

def unlines (lines : List String) : String := lines.foldl (fun text line => text ++ line ++ "\n") ""

/-- Read and decode a file; the failure is the line to be shown. -/
def load {α : Type} (read : String → Option String) (what path : String)
    (decode : Json → Option α) :
    Except String α :=
  match read path with
  | none => .error s!"Error: reading {what} {path}"
  | some text =>
    match (Json.read? text).bind decode with
    | none => .error s!"Error: parsing {what} {path}"
    | some a => .ok a

/-- The limits of a session: the configuration, with the given limits in place of its own. -/
def loadConfig (read : String → Option String) (limits : Limits) : Except String Config := do
  let config : Config ← match limits.config with
    | some path => load read "config" path Json.config?
    | none => .ok {}
  return { config with
    stepBudget := limits.budget.getD config.stepBudget
    settleLimit := limits.ticks.getD config.settleLimit }

/-- With the names of its circuits. -/
def loadSession (read : String → Option String) (command : Command) :
    Except String (Session × List String) := do
  let config ← loadConfig read command.limits
  let circuits ← load read "module" command.modulePath Json.module?
  return (Session.make (Library.builtin.insertAll circuits) config, circuits.map Circuit.name)

def failure (diagnostics : List Diagnostic) : Outcome :=
  { succeeded := false, errors := unlines (diagnostics.map Diagnostic.render) }

/-- Read the arguments and run a circuit on them. -/
def run (session : Session) (circuit : String) (arguments : List String) : Outcome :=
  match (arguments.mapM Literal.parseAuto).run session.store with
  | (.error d, _) => failure [d]
  | (.ok values, store) =>
    match (Session.run circuit values).run { session with store } with
    | (.ok value, session) =>
      { succeeded := true, output := session.store.output ++ value.text ++ "\n" }
    | (.error d, session) => { failure [d] with output := session.store.output }

/-- A circuit, instantiated and settled in a graph of its own. -/
def settled (session : Session) (store : Store) (name : String) :
    Except Diagnostic (Root × Graph) × Store :=
  match (Expand.instantiate session.library name []).run { store } with
  | (.error d, w) => (.error d, w.store)
  | (.ok root, w) =>
    let (_, w) := w.settle session.environment session.config.settleLimit
    (.ok (root, w.graph), w.store)

def diagnosticsOf (session : Session) : Store → List String → List Diagnostic
  | _, [] => []
  | store, name :: names =>
    match settled session store name with
    | (.error d, store) => d :: diagnosticsOf session store names
    | (.ok (_, graph), store) => graph.diagnostics.entries ++ diagnosticsOf session store names

/-- Report what is wrong with the circuits of a module. -/
def check (session : Session) (names : List String) : Outcome :=
  match diagnosticsOf session session.store names with
  | [] => { succeeded := true }
  | diagnostics =>
    { succeeded := false
      errors :=
        unlines (diagnostics.map Diagnostic.render ++ [s!"{diagnostics.length} diagnostics"]) }

/-- Show the program of a circuit. -/
def dump (session : Session) (circuit : String) : Outcome :=
  match session.compile circuit with
  | (.ok program, _) => { succeeded := true, output := program.listing }
  | (.error failed, _) => failure failed.diagnostics

/-- Store the outputs of a circuit. -/
def cache (session : Session) (circuit path : String) : Outcome :=
  match settled session session.store circuit with
  | (.error d, _) => failure [d]
  | (.ok (root, graph), _) =>
    if !graph.diagnostics.isEmpty then failure graph.diagnostics.entries
    else
      let cache := ConstantCache.capture graph root
      let stored := cache.values.length
      if stored ≠ root.outputs.length then
        { succeeded := false
          errors := unlines
            [s!"`{circuit}` is not constant: {stored} of {root.outputs.length} outputs settled"] }
      else
        { succeeded := true
          errors := unlines [s!"Wrote {stored} values to {path}"]
          written := some (path, cache.toJson.pretty) }

/-- The files that are read. -/
def inputs (command : Command) : List String := command.limits.config.toList ++ [command.modulePath]

/-- Load what a command needs and carry it out. -/
def execute (read : String → Option String) (command : Command) : Outcome :=
  match loadSession read command with
  | .error line => { succeeded := false, errors := unlines [line] }
  | .ok (session, names) =>
    match command.task with
    | .run circuit arguments => run session circuit arguments
    | .check => check session names
    | .dump circuit => dump session circuit
    | .cache circuit path => cache session circuit path

end Command

end Blockflow
