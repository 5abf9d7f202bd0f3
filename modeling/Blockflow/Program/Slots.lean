import Blockflow.Program.Basic

/-!
# Program slots

Every circuit that was asked for has a slot, empty until the circuit is compiled. Forgetting a
circuit takes its name away from the slot; calls that were compiled before keep the slot.
-/

namespace Blockflow

/-- A slot for the program of each circuit that was asked for. A forgotten circuit gets a new
one. -/
structure Slots where
  names : List (String × Nat) := []
  programs : Array (Option Program) := #[]

namespace Slots

instance : Inhabited Slots := ⟨{}⟩

/-- The slot of a circuit, a new one if it has none. -/
def slotOf (slots : Slots) (name : String) : Nat × Slots :=
  match slots.names.lookup name with
  | some slot => (slot, slots)
  | none =>
    (slots.programs.size,
      { names := slots.names ++ [(name, slots.programs.size)]
        programs := slots.programs.push none })

def program? (slots : Slots) (slot : Nat) : Option Program := slots.programs[slot]?.join

/-- Keep a program in a slot. -/
def fill (slots : Slots) (slot : Nat) (program : Program) : Slots :=
  { slots with programs := slots.programs.setIfInBounds slot (some program) }

/-- Whether the program in a slot calls a circuit, or a circuit was expanded in it. -/
def dependsOn (slots : Slots) (slot : Nat) (name : String) : Bool :=
  match slots.program? slot with
  | some program => program.callees.contains name || program.inlined.contains name
  | none => false

def erase (slots : Slots) (name : String) : Slots :=
  { slots with names := slots.names.filter (·.1 != name) }

/-- Forget the stale circuits, and with each one those that were built from it. Every round forgets
a circuit or drops a name from the list, and each forgotten circuit adds at most all others. -/
def eraseStale : Nat → List String → Slots → Slots
  | 0, _, slots => slots
  | _ + 1, [], slots => slots
  | fuel + 1, name :: stale, slots =>
    if (slots.names.lookup name).isNone then eraseStale fuel stale slots
    else
      let slots := slots.erase name
      let dependents := (slots.names.filter fun (_, slot) => slots.dependsOn slot name).map (·.1)
      eraseStale fuel (dependents ++ stale) slots

/-- Forget a circuit and every circuit that calls or inlines it, directly or through others. -/
def invalidate (slots : Slots) (name : String) : Slots :=
  let count := slots.names.length
  slots.eraseStale ((count + 1) * (count + 1)) [name]

def invalidateAll (slots : Slots) : Slots := { slots with names := [] }

end Slots

end Blockflow
