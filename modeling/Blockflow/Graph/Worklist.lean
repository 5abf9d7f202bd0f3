import Blockflow.Arena

/-!
# Worklists

A queue of handles: what is pushed first comes out first. `toList` is the queue in that order.
-/

namespace Blockflow

/-- A queue; the end is kept in reverse. -/
structure Worklist where
  front : List Handle := []
  back : List Handle := []
  deriving Inhabited

namespace Worklist

/-- The entries, first come first. -/
def toList (queue : Worklist) : List Handle := queue.front ++ queue.back.reverse

def size (queue : Worklist) : Nat := queue.front.length + queue.back.length

def isEmpty (queue : Worklist) : Bool := queue.front.isEmpty && queue.back.isEmpty

def push (queue : Worklist) (id : Handle) : Worklist := { queue with back := id :: queue.back }

def pop? (queue : Worklist) : Option (Handle × Worklist) :=
  match queue.front with
  | id :: front => some (id, { queue with front })
  | [] =>
    match queue.back.reverse with
    | id :: front => some (id, ⟨front, []⟩)
    | [] => none

@[simp]
theorem toList_push (queue : Worklist) (id : Handle) :
    (queue.push id).toList = queue.toList ++ [id] := by
  simp [toList, push]

theorem isEmpty_iff (queue : Worklist) : queue.isEmpty ↔ queue.toList = [] := by
  simp [isEmpty, toList]

theorem size_eq (queue : Worklist) : queue.size = queue.toList.length := by
  simp [size, toList]

theorem pop?_eq_none (queue : Worklist) : queue.pop? = none ↔ queue.toList = [] := by
  obtain ⟨front, back⟩ := queue
  cases front with
  | cons id front => simp [pop?, toList]
  | nil => cases h : back.reverse <;> simp [pop?, toList, h]

theorem toList_of_pop? {queue rest : Worklist} {id : Handle}
    (popped : queue.pop? = some (id, rest)) :
    queue.toList = id :: rest.toList := by
  obtain ⟨front, back⟩ := queue
  cases front with
  | cons first front =>
    simp only [pop?, Option.some.injEq, Prod.mk.injEq] at popped
    obtain ⟨rfl, rfl⟩ := popped
    rfl
  | nil =>
    cases h : back.reverse with
    | nil => simp [pop?, h] at popped
    | cons first front =>
      simp only [pop?, h, Option.some.injEq, Prod.mk.injEq] at popped
      obtain ⟨rfl, rfl⟩ := popped
      simp [toList, h]

end Worklist

end Blockflow
