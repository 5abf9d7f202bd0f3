/-!
# Generational arenas

A handle names a slot and the generation of that slot. Freeing a value advances the generation, so
handles to it stay stale for ever. The slot that was freed last is reused first.
-/

namespace Blockflow

/-- A slot of an arena in one of its generations. -/
structure Handle where
  index : Nat
  generation : Nat
  deriving DecidableEq, Inhabited, Repr

/-- A slot; its generation counts how often it was freed. -/
structure Arena.Slot (α : Type) where
  generation : Nat
  value : Option α

/-- Values under handles that are never given out twice. -/
structure Arena (α : Type) where
  slots : Array (Arena.Slot α)
  /-- The vacant slots, last freed first. -/
  vacant : List Nat
  size : Nat

namespace Arena

variable {α : Type}

def empty : Arena α := ⟨#[], [], 0⟩

instance : Inhabited (Arena α) := ⟨empty⟩

def isEmpty (arena : Arena α) : Bool := arena.size == 0

/-- The value a handle stands for, while it is not stale. -/
def get? (arena : Arena α) (id : Handle) : Option α :=
  match arena.slots[id.index]? with
  | some slot => if slot.generation = id.generation then slot.value else none
  | none => none

def contains (arena : Arena α) (id : Handle) : Bool := (arena.get? id).isSome

/-- Put a value in the slot that was freed last, or in a new one. -/
def alloc (arena : Arena α) (value : α) : Handle × Arena α :=
  match arena.vacant with
  | index :: vacant =>
    let generation := (arena.slots[index]?.map Slot.generation).getD 0
    (⟨index, generation⟩,
      { slots := arena.slots.modify index fun slot => { slot with value := some value }
        vacant
        size := arena.size + 1 })
  | [] =>
    (⟨arena.slots.size, 0⟩,
      { arena with slots := arena.slots.push ⟨0, some value⟩, size := arena.size + 1 })

/-- Forget the value of a handle; a stale handle changes nothing. -/
def free (arena : Arena α) (id : Handle) : Arena α :=
  if arena.contains id then
    { slots := arena.slots.modify id.index fun slot => ⟨slot.generation + 1, none⟩
      vacant := id.index :: arena.vacant
      size := arena.size - 1 }
  else arena

/-- Change the value of a handle in place; a stale handle changes nothing. -/
def modify (arena : Arena α) (id : Handle) (f : α → α) : Arena α :=
  { arena with
    slots := arena.slots.modify id.index fun slot =>
      if slot.generation = id.generation then { slot with value := slot.value.map f } else slot }

/-- The stored values with their handles, in the order of the slots. -/
def toList (arena : Arena α) : List (Handle × α) :=
  arena.slots.toList.zipIdx.filterMap fun (slot, index) =>
    slot.value.map fun value => (⟨index, slot.generation⟩, value)

end Arena

end Blockflow
