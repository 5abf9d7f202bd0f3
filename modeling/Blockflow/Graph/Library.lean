import Blockflow.Graph.Basic

/-! # Libraries -/

namespace Blockflow

/-- A graph and the store of its values and types. -/
structure Workspace where
  graph : Graph := {}
  store : Store := {}

/-- A change of a workspace that may fail; what was done before the failure stays. -/
abbrev Edit (α : Type) := Effect Workspace α

namespace Edit

variable {α : Type}

def onGraph (op : Graph → α × Graph) : Edit α := ⟨fun w =>
  let (a, graph) := op w.graph
  (.ok a, { w with graph })⟩

def modifyGraph (op : Graph → Graph) : Edit Unit := onGraph fun graph => ((), op graph)

def graph : Edit Graph := ⟨fun w => (.ok w.graph, w)⟩

/-- Act on the store, and leave the graph alone. -/
def onStore (action : Action α) : Edit α := ⟨fun w =>
  let (result, store) := action.run w.store
  (result, { w with store })⟩

end Edit

/-- What an assembler is given: the block, its arguments, and the instance it is made for. -/
structure Assembly where
  owner : Handle
  block : Block
  arguments : List String
  circuits : List Circuit

/-- How a block type makes nodes; it answers with those of the outputs. -/
abbrev Assembler := Assembly → Edit (List Handle)

/-- Circuits and block types. -/
structure Library where
  circuits : List Circuit := []
  assemblers : List (String × Assembler) := []

def findCircuit? (circuits : List Circuit) (name : String) : Option Circuit :=
  circuits.find? (·.name == name)

namespace Library

instance : Inhabited Library := ⟨{}⟩

/-- The circuit of that name. -/
def circuit? (library : Library) (name : String) : Option Circuit :=
  findCircuit? library.circuits name

def assembler? (library : Library) (blockType : String) : Option Assembler :=
  library.assemblers.lookup blockType

/-- Undefine a circuit. -/
def erase (library : Library) (name : String) : Library :=
  { library with circuits := library.circuits.filter (·.name != name) }

/-- Add a circuit, in place of one of the same name. -/
def insert (library : Library) (circuit : Circuit) : Library :=
  let library := library.erase circuit.name
  { library with circuits := library.circuits ++ [circuit] }

/-- Later ones replace earlier ones. -/
def insertAll (library : Library) (circuits : List Circuit) : Library :=
  circuits.foldl Library.insert library

/-- Add a block type, in place of one of the same name. -/
def register (library : Library) (blockType : String) (assembler : Assembler) : Library :=
  let others := library.assemblers.filter (·.1 != blockType)
  { library with assemblers := others ++ [(blockType, assembler)] }

/-- The names of all circuits, in order. -/
def names (library : Library) : List String :=
  (library.circuits.map Circuit.name).mergeSort fun a b => decide (a ≤ b)

end Library

end Blockflow
