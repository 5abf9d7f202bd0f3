import Blockflow.Machine.Frame
import Blockflow.Proofs.Outcome

/-!
# Frames

What the addresses of a frame hold after each operation, and when a frame does not have to grow.
-/

namespace Blockflow.Frame

open Array

variable {size addr : Nat} {args : List Value} {frame : Frame}

lemma get?_set (frame : Frame) (addr other : Nat) (v : Value) :
    (frame.set addr v).get? other = if other = addr then some v else frame.get? other := by
  by_cases eq : other = addr
  · subst eq
    have bound : other < frame.slots.size + (other + 1 - frame.slots.size) := by omega
    simp [set, get?, size, bound]
  · have different : addr ≠ other := Ne.symm eq
    simp only [set, get?, size, getElem?_setIfInBounds, different, eq, if_false]
    rw [getElem?_append]
    split
    · rfl
    next outside =>
      rw [getElem?_eq_none (Nat.le_of_not_lt outside)]
      simp only [getElem?_replicate]
      split <;> rfl

lemma get?_clear (frame : Frame) (start stop addr : Nat) : (frame.clear start stop).get? addr =
      if start ≤ addr ∧ addr < stop then none else frame.get? addr := by
  simp only [clear, get?, getElem?_mapIdx]
  cases frame.slots[addr]? with
  | none => simp
  | some slot =>
    simp only [Option.map_some, Option.join_some]

lemma get?_withArguments (inside : addr < args.length) :
    (withArguments size args).get? addr = args[addr]? := by
  simp [withArguments, get?, getElem?_append, inside]

lemma size_set (inside : addr < frame.size) (v : Value) : (frame.set addr v).size = frame.size := by
  simp only [size] at inside
  have room : addr + 1 - frame.slots.size = 0 := by omega
  simp [set, size, room]

lemma size_clear (frame : Frame) (start stop : Nat) :
    (frame.clear start stop).size = frame.size := by
  simp [clear, size]

lemma size_withArguments (enough : args.length ≤ size) : (withArguments size args).size = size := by
  simp only [withArguments, Frame.size, size_append, List.size_toArray, List.length_map,
    size_replicate]
  omega

lemma get_of_get? (found : frame.get? addr = some v) : frame.get addr = .ok v := by
  rw [get, found]

lemma gather_of_get? (found : List.Forall₂ (fun addr v => frame.get? addr = some v) addrs vs) :
    frame.gather addrs = .ok vs :=
  mapM_eq_ok.mpr (found.imp fun _ _ => get_of_get?)

end Blockflow.Frame
