import Blockflow.Graph.Expand
import Blockflow.Stored.Value

/-!
# Stored constants

The outputs of a circuit without inputs can be stored and used in place of it.
-/

namespace Blockflow

/-- Stored outputs of a circuit. -/
structure ConstantCache where
  version : Nat
  circuit : String
  values : List (String × StoredValue)
  deriving BEq, Repr

namespace ConstantCache

def currentVersion : Nat := 1

def insert (cache : ConstantCache) (name : String) (value : StoredValue) : ConstantCache :=
  { cache with values := cache.values.filter (·.1 != name) ++ [(name, value)] }

def empty (circuit : String) : ConstantCache := ⟨currentVersion, circuit, []⟩

/-- Store what the outputs show. -/
def capture (graph : Graph) (root : Root) : ConstantCache :=
  (root.outputNames.zip root.outputs).foldl (fun cache (name, node) =>
    match graph.output? node with
    | some value => cache.insert name (.capture value)
    | none => cache) (empty root.name)

/-- Whether all outputs of the circuit are stored. -/
def covers (cache : ConstantCache) (circuit : String) (names : List String) : Bool :=
  cache.version == currentVersion && cache.circuit == circuit &&
    names.all fun name => (cache.values.lookup name).isSome

def toJson (cache : ConstantCache) : Json :=
  .object [("version", .integer cache.version), ("circuit", .string cache.circuit),
    ("values", .object (cache.values.map fun (name, value) => (name, value.toJson)))]

/-- The values by name; of a repeated name the last one counts. -/
def values? : Json → Option (List (String × StoredValue))
  | .object members => do
    let values ← members.mapM fun (name, value) => (StoredValue.ofJson? value).map (name, ·)
    return values.foldl (fun kept (name, value) => kept.filter (·.1 != name) ++ [(name, value)]) []
  | _ => none

def ofJson? (json : Json) : Option ConstantCache := do
  match ← Json.record? ["version", "circuit", "values"] json with
  | [version, circuit, values] =>
    return {
      version := ← Json.required? (Json.natBelow? (1 <<< 32)) version
      circuit := ← Json.required? Json.string? circuit
      values := ← Json.required? values? values }
  | _ => none

/-- The stored values of some outputs. -/
def select (cache : ConstantCache) (names : List String) : List (String × StoredValue) :=
  names.filterMap fun name => (cache.values.lookup name).map (name, ·)

def restoreAll : List (String × StoredValue) → Action (List (String × Value))
  | [] => return []
  | (name, stored) :: rest => do
    let value ← stored.restore
    return (name, value) :: (← restoreAll rest)

def addConstants : List (String × Value) → Edit (List Handle)
  | [] => return []
  | (_, value) :: rest => do
    let node ← Edit.onGraph (·.addNode (.const value) 0)
    return node :: (← addConstants rest)

/-- Instantiate a circuit from the cache if it covers all outputs with well-formed values, otherwise
expand the circuit. -/
def instantiate (library : Library) (name : String) (cache : ConstantCache) : Edit Root := do
  match library.circuit? name with
  | none => .refuse (.unknownCircuit name)
  | some circuit =>
    let names := circuit.outputPins.names
    if !circuit.inputs.isEmpty || !cache.covers name names then Expand.instantiate library name []
    else
      match ← (Edit.onStore (restoreAll (cache.select names))).attempt with
      | .error _ => Expand.instantiate library name []
      | .ok values =>
        let outputs ← addConstants values
        return { name := circuit.name, params := [], outputs, outputNames := values.map (·.1) }

end ConstantCache

end Blockflow
