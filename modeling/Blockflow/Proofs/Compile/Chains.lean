import Blockflow.Compile.Order
import Blockflow.Proofs.Arena

/-!
# Chains of pass-through nodes

`resolve` follows what pass-through nodes read, and looks at one node more than the graph has. A
chain that ends meets no node twice, so the bound never cuts it short, and a chain that goes on
beyond the bound never ends.
-/

namespace Blockflow.Compile

open List

/-- A pass-through node without pending links hands on what it reads. -/
def HandsOn (g : Graph) (id src : Handle) : Prop :=
  ∃ n, g.node? id = some n ∧ n.isPass ∧ n.pending = [] ∧ n.source? 0 = some src

/-- Where a chain is after a number of steps. -/
def Follows (g : Graph) : Nat → Handle → Handle → Prop
  | 0, id, last => id = last
  | steps + 1, id, last => ∃ src, HandsOn g id src ∧ Follows g steps src last

/-- Where a chain ends, with what it stands for. -/
inductive ChainEnd (g : Graph) (id : Handle) : Except Diagnostic (Option Handle) → Prop where
  | computed {n : Node} (live : g.node? id = some n) (computes : n.isPass = false) :
      ChainEnd g id (.ok (some id))
  | dead (missing : g.node? id = none) : ChainEnd g id (.ok none)
  | unconnected {n : Node} (live : g.node? id = some n) (passes : n.isPass)
      (resolved : n.pending = []) (unread : n.source? 0 = none) : ChainEnd g id (.ok none)
  | waits {n : Node} (live : g.node? id = some n) (passes : n.isPass)
      (pending : n.pending ≠ []) : ChainEnd g id (.error (problemAt id .unresolvedOutput))

variable {g : Graph} {id last : Handle} {steps : Nat} {outcome : Except Diagnostic (Option Handle)}

/-! ## One look-up -/

lemma handsOn_or_chainEnd (g : Graph) (id : Handle) :
    (∃ src, HandsOn g id src) ∨ ∃ outcome, ChainEnd g id outcome := by
  cases live : g.node? id with
  | none => exact .inr ⟨_, .dead live⟩
  | some n =>
    cases passes : n.isPass with
    | false => exact .inr ⟨_, .computed live passes⟩
    | true =>
      by_cases resolved : n.pending = []
      · cases reads : n.source? 0 with
        | none => exact .inr ⟨_, .unconnected live passes resolved reads⟩
        | some src => exact .inl ⟨src, n, live, passes, resolved, reads⟩
      · exact .inr ⟨_, .waits live passes resolved⟩

lemma HandsOn.resolveWithin_succ (hands : HandsOn g id src) (lookups : Nat) :
    resolveWithin g (lookups + 1) id = resolveWithin g lookups src := by
  obtain ⟨n, live, passes, resolved, reads⟩ := hands
  simp [resolveWithin, live, passes, resolved, reads]

lemma ChainEnd.resolveWithin_succ (ends : ChainEnd g id outcome) (lookups : Nat) :
    resolveWithin g (lookups + 1) id = outcome := by
  cases ends with
  | computed live computes => simp [resolveWithin, live, computes]
  | dead missing => simp [resolveWithin, missing]
  | unconnected live passes resolved unread => simp [resolveWithin, live, passes, resolved, unread]
  | waits live passes pending => simp [resolveWithin, live, passes, pending]

lemma ChainEnd.not_handsOn (ends : ChainEnd g id outcome) : ¬HandsOn g id src := by
  rintro ⟨n, live, passes, resolved, reads⟩
  cases ends <;> simp_all

/-! ## Whole chains -/

namespace Follows

lemma resolveWithin_add (follows : Follows g steps id last) (lookups : Nat) :
    resolveWithin g (steps + lookups) id = resolveWithin g lookups last := by
  induction steps generalizing id with
  | zero => rw [follows, Nat.zero_add]
  | succ steps ih =>
    obtain ⟨src, hands, rest⟩ := follows
    rw [Nat.add_right_comm, hands.resolveWithin_succ, ih rest]

lemma steps_unique (first : Follows g steps id last) (second : Follows g steps' id last)
    (ends : ChainEnd g last outcome) : steps = steps' := by
  induction steps generalizing id steps' with
  | zero =>
    cases steps' with
    | zero => rfl
    | succ steps' =>
      obtain ⟨src, hands, -⟩ := second
      exact absurd hands (first ▸ ends).not_handsOn
  | succ steps ih =>
    obtain ⟨src, hands, rest⟩ := first
    cases steps' with
    | zero => exact absurd hands (second ▸ ends).not_handsOn
    | succ steps' =>
      obtain ⟨src', hands', rest'⟩ := second
      obtain ⟨n, live, -, -, reads⟩ := hands
      obtain ⟨n', live', -, -, reads'⟩ := hands'
      obtain rfl := Option.some.inj (live.symm.trans live')
      obtain rfl := Option.some.inj (reads.symm.trans reads')
      rw [ih rest rest']

/-- The nodes of a chain that ends are different live ones: each has its own distance from the
end. -/
lemma path (follows : Follows g steps id last) (ends : ChainEnd g last outcome) :
    ∃ path : List Handle, path.length = steps ∧ path.Nodup ∧
      ∀ met ∈ path, g.nodes.contains met ∧ ∃ distance ≤ steps, Follows g distance met last := by
  induction steps generalizing id with
  | zero => exact ⟨[], rfl, nodup_nil, by simp⟩
  | succ steps ih =>
    have whole := follows
    obtain ⟨src, hands, rest⟩ := follows
    obtain ⟨path, length, nodup, all⟩ := ih rest
    refine ⟨id :: path, congrArg (· + 1) length, nodup_cons.mpr ⟨fun mem => ?_, nodup⟩,
      forall_mem_cons.mpr ⟨?_, ?_⟩⟩
    · obtain ⟨-, distance, near, again⟩ := all id mem
      have eq := again.steps_unique whole ends
      omega
    · obtain ⟨n, live, -⟩ := hands
      exact ⟨Arena.contains_iff.mpr ⟨n, live⟩, steps + 1, Nat.le_refl _, whole⟩
    · intro met mem
      obtain ⟨live, distance, near, again⟩ := all met mem
      exact ⟨live, distance, Nat.le_succ_of_le near, again⟩

lemma le_size (wf : g.nodes.WellFormed) (follows : Follows g steps id last)
    (ends : ChainEnd g last outcome) :
    steps ≤ g.nodes.size := by
  obtain ⟨path, rfl, nodup, all⟩ := follows.path ends
  exact wf.length_le nodup fun met mem => (all met mem).1

end Follows

/-- A chain ends, or it goes on for any number of steps. -/
lemma ends_or_goes_on (g : Graph) (id : Handle) :
    (∃ steps last outcome, Follows g steps id last ∧ ChainEnd g last outcome) ∨ ∀ steps, ∃ last,
    Follows g steps id last := by
  refine or_iff_not_imp_left.mpr fun endless steps => ?_
  induction steps generalizing id with
  | zero => exact ⟨id, rfl⟩
  | succ steps ih =>
    rcases handsOn_or_chainEnd g id with ⟨src, hands⟩ | ⟨outcome, ends⟩
    · have rest : ¬∃ steps last outcome, Follows g steps src last ∧ ChainEnd g last outcome := by
        rintro ⟨steps, last, outcome, follows, ends⟩
        exact endless ⟨steps + 1, last, outcome, ⟨src, hands, follows⟩, ends⟩
      obtain ⟨last, follows⟩ := ih src rest
      exact ⟨last, src, hands, follows⟩
    · exact absurd ⟨0, id, outcome, rfl, ends⟩ endless

/-- A node resolves to what its chain stands for where it ends, whatever its length: to the node
that computes, to nothing at an unconnected pin or a dead handle, to a failure at pending links. The
failure for cycles is left for the chains that never end, and names the node behind all look-ups. -/
theorem resolve_exact (wf : g.nodes.WellFormed) (id : Handle)
    (outcome : Except Diagnostic (Option Handle)) :
    resolve g id = outcome ↔ (∃ steps last, Follows g steps id last ∧ ChainEnd g last outcome) ∨
      (∀ steps, ∃ last, Follows g steps id last) ∧
        ∃ last, Follows g (g.nodes.size + 1) id last ∧
        outcome = .error (problemAt last .passCycle) := by
  have finite : ∀ {steps last outcome}, Follows g steps id last → ChainEnd g last outcome →
      resolve g id = outcome := by
    intro steps last outcome follows ends
    have bound := follows.le_size wf ends
    rw [resolve, show g.nodes.size + 1 = steps + (g.nodes.size - steps + 1) by
      omega, follows.resolveWithin_add,
      ends.resolveWithin_succ]
  have endless : ∀ {last}, Follows g (g.nodes.size + 1) id last →
      resolve g id = .error (problemAt last .passCycle) := by
    intro last follows
    exact follows.resolveWithin_add 0
  constructor
  · rintro rfl
    rcases ends_or_goes_on g id with ⟨steps, last, outcome, follows, ends⟩ | always
    · exact .inl ⟨steps, last, follows, (finite follows ends).symm ▸ ends⟩
    · obtain ⟨last, follows⟩ := always (g.nodes.size + 1)
      exact .inr ⟨always, last, follows, endless follows⟩
  · rintro (⟨steps, last, follows, ends⟩ | ⟨-, last, follows, rfl⟩)
    · exact finite follows ends
    · exact endless follows

/-- A constant, a pass-through node that reads it and one that reads itself. -/
def passes : Graph :=
  let nodes := [(Behavior.const default, 0), (.pass, 1), (.pass, 1)].foldl
    (fun g (b, inputs) => (g.addNode b inputs none).2) ({} : Graph)
  (nodes.connect ⟨1, 0⟩ 0 (some ⟨0, 0⟩)).connect ⟨2, 0⟩ 0 (some ⟨2, 0⟩)

theorem passes_resolve : passes.nodes.WellFormed ∧
    (∃ steps last, Follows passes steps ⟨1, 0⟩ last ∧ ChainEnd passes last (.ok (some ⟨0, 0⟩))) ∧
    ∀ steps, ∃ last, Follows passes steps ⟨2, 0⟩ last := by
  have wf : passes.nodes.WellFormed := ⟨fun _ member => (by cases member), nodup_nil, Nat.le_refl 3⟩
  refine ⟨wf, ?_, ?_⟩
  · rcases (resolve_exact wf ⟨1, 0⟩ (.ok (some ⟨0, 0⟩))).mp rfl with ends | ⟨-, _, -, cycle⟩
    · exact ends
    · cases cycle
  · rcases (resolve_exact wf ⟨2, 0⟩ (.error (problemAt ⟨2, 0⟩ .passCycle))).mp rfl with ⟨_, _, -,
        ends⟩ | ⟨always, -⟩
    · cases ends
    · exact always

end Blockflow.Compile
