import Blockflow.Value.Basic

/-!
# Frames

The values of one call, by address. Reading an address that holds nothing is a failure, writing
makes room.
-/

namespace Blockflow

/-- The values of a running program, by address. -/
structure Frame where
  slots : Array (Option Value) := #[]

namespace Frame

instance : Inhabited Frame := ⟨{}⟩

def size (frame : Frame) : Nat := frame.slots.size

def isEmpty (frame : Frame) : Bool := frame.slots.isEmpty

def ofSize (size : Nat) : Frame := ⟨Array.replicate size none⟩

/-- A new frame with the arguments at its first addresses. -/
def withArguments (size : Nat) (arguments : List Value) : Frame :=
  ⟨(arguments.map some).toArray ++ Array.replicate (size - arguments.length) none⟩

def get? (frame : Frame) (address : Nat) : Option Value := frame.slots[address]?.join

/-- The value at an address, which must have been written. -/
def get (frame : Frame) (address : Nat) : Except Diagnostic Value :=
  match frame.get? address with
  | some value => .ok value
  | none => .error { problem := .unwrittenRead address }

/-- Fails at the first empty slot. -/
def gather (frame : Frame) (addresses : List Nat) : Except Diagnostic (List Value) :=
  addresses.mapM frame.get

/-- Write an address; the frame grows if it is too small. -/
def set (frame : Frame) (address : Nat) (value : Value) : Frame :=
  let room := frame.slots ++ Array.replicate (address + 1 - frame.size) none
  ⟨room.setIfInBounds address (some value)⟩

/-- Forget the values from one address up to another. -/
def clear (frame : Frame) (start stop : Nat) : Frame :=
  ⟨frame.slots.mapIdx fun address slot => if start ≤ address ∧ address < stop then none else slot⟩

end Frame

end Blockflow
