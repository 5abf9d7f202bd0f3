import Blockflow.Proofs.Compile.LoopEscape

/-!
# Compilation ends with a program or with a report about the definition

The instructions of some nodes read pins by their numbers: the only pin of an unpack, the next state
and the condition of a loop. A node without such a pin, and a loop that begins with a parameter and
so may have no scope, are not reported as problems of the definition.
-/

namespace Blockflow.Compile

open List

/-- The outputs of a root need the node, and it is no parameter. -/
def RootNeeds (g : Graph) (root : Root) (id : Handle) : Prop :=
  isParamOf root id = false ∧ ∃ output, IsOutput g root output ∧
    Relation.ReflTransGen (Reads g (isParamOf root)) output id

/-- The nodes that the outputs need have the pins that their instructions read, and no loop begins
with a parameter. -/
structure WellPinned (g : Graph) (root : Root) : Prop where
  unpack : ∀ {id : Handle} {n : Node} {i : Nat}, RootNeeds g root id → g.node? id = some n →
    n.behavior = .unpack i → 0 < n.inputs.length
  loopEnd : ∀ {id : Handle} {n : Node}, RootNeeds g root id → g.node? id = some n →
    n.behavior = .loopEnd → 2 < n.inputs.length
  begins : ∀ {loopBegin loopEnd : Handle}, LoopOf g root loopBegin loopEnd →
    isParamOf root loopBegin = false

variable {g : Graph} {root : Root} {d : Diagnostic}

lemma IsCrash.not_isWiring (missing : IsCrash d) : ¬IsWiring d := by
  rintro ⟨-, wiring⟩
  rw [show d.problem = _ from missing] at wiring
  exact wiring

section

variable (wellPinned : WellPinned g root)
include wellPinned

/-- Every loop has a scope once all nodes are placed: its begin lies there. -/
lemma plan_finds_scopes (failed : plan g root = .error d) : ¬IsCrash d := by
  intro missing
  obtain ⟨outs, walk, p, walked, placed, loop, closes, check⟩ :=
    plan_checks failed missing.not_isWiring
  obtain ⟨ordered, -⟩ := walkOutputs_ordered walked
  rcases checkLoop_fails _ p loop d check with ⟨-, escapes⟩ | ⟨-, unscoped⟩
  · simp [IsCrash, escapes] at missing
  · obtain ⟨visit, mem, isEnd, reads⟩ := ordered.end_reads closes
    obtain ⟨earlier, later, split⟩ := append_of_mem mem
    rcases ordered.before split loop.1 reads with isParam | visited
    · rw [wellPinned.begins ((mem_loops_iff walked loop.1 loop.2).mp closes)] at isParam
      cases isParam
    · have inside : loop.1 ∈ walk.done.reverse.map Visit.node := by
        rw [split, map_append]
        exact mem_append_left _ visited
      obtain ⟨scope, found⟩ := (placed.covers _).mp inside
      obtain ⟨loopEnd, owner, isBody⟩ := placed.begins found (ordered.closes _ closes).1
      cases (lookup_of_mem ordered.distinct closes).symm.trans owner
      cases unscoped.symm.trans isBody

lemma plan_furnished {plan : Plan} (planned : Compile.plan g root = .ok plan)
    (mem : visit ∈ plan.order) : Furnished g plan.addresses visit := by
  obtain ⟨loops, planned, resolves⟩ := plan_planned planned
  have ordered := planned.ordered
  obtain ⟨output, isOutput, needs⟩ := ordered.reached visit mem
  have needed : RootNeeds g root visit.node :=
    ⟨ordered.computed visit mem, output, (mem_iff_isOutput resolves output).mp isOutput, needs⟩
  obtain ⟨n, live, pins⟩ := sourcesOf_reads (ordered.sources visit mem)
  rw [Furnished, live, ← pins.length_eq]
  split
  next isUnpack => exact wellPinned.unpack needed live (Option.some.inj isUnpack)
  next isEnd =>
    refine ⟨wellPinned.loopEnd needed live (Option.some.inj isEnd), fun unscoped => ?_⟩
    obtain ⟨first, -, closes⟩ :=
      ordered.closed visit mem (by rw [kindOf_eq live, Node.kind, Option.some.inj isEnd]; rfl)
    obtain ⟨body, isBody, -⟩ := planned.inside _ closes
    cases unscoped.symm.trans isBody
  next => trivial

end

/-- If the needed nodes have the pins that their instructions read, compilation ends with a program
or with a definition diagnostic. -/
theorem compiles_or_reports_definition (graph : Graph) (root : Root) (slots : Slots)
    (wellPinned : WellPinned graph root) :
    (∃ program, (compile graph root slots).1 = .ok program) ∨
      ∃ d, (compile graph root slots).1 = .error d ∧ d.kind = .definition := by
  cases outcome : (compile graph root slots).1 with
  | ok program => exact .inl ⟨program, rfl⟩
  | error d =>
    refine .inr ⟨d, rfl, ?_⟩
    rcases (compile_asks _ root slots).2 d outcome with ⟨isDefinition,
        -⟩ | ⟨isDefinition, -⟩ | missing
    · exact isDefinition
    · exact isDefinition
    · exfalso
      rw [compile] at outcome
      split at outcome
      next failure failed =>
        cases outcome
        exact plan_finds_scopes wellPinned failed missing
      next plan planned =>
        split at outcome
        next failure e ran =>
          cases outcome
          rcases ((code_asks slots plan { slots } .refl).of_error ran).1 with wiring | ⟨-,
              visit, member, lacks⟩
          · exact IsCrash.not_isWiring missing wiring
          · exact lacks (plan_furnished wellPinned planned member)
        next => cases outcome

lemma ofNodes_node? {id : Handle} {n : Node} (found : (ofNodes nodes).node? id = some n) :
    ∃ entry ∈ nodes, n.behavior = entry.1 ∧ n.inputs.length = entry.2.length := by
  rw [Graph.node?, Arena.get?] at found
  split at found
  next slot at' =>
    simp only [ofNodes, getElem?_toArray, getElem?_map, Option.map_eq_some_iff] at at'
    obtain ⟨entry, mem, rfl⟩ := at'
    refine ⟨entry, mem_of_getElem? mem, ?_⟩
    split at found
    · cases found
      simp
    · cases found
  next => cases found

theorem packingLoop_wellPinned : WellPinned packingLoop (rootOf [3]) ∧
    ((∃ program, (compile packingLoop (rootOf [3]) {}).1 = .ok program) ∨
      ∃ d, (compile packingLoop (rootOf [3]) {}).1 = .error d ∧ d.kind = .definition) := by
  have wellPinned : WellPinned packingLoop (rootOf [3]) := by
    refine ⟨fun _ live isUnpack => ?_, fun _ live isEnd => ?_, fun _ => rfl⟩
    · obtain ⟨entry, member, behavior, -⟩ := ofNodes_node? live
      simp only [mem_cons, not_mem_nil, or_false] at member
      rcases member with rfl | rfl | rfl | rfl | rfl <;> cases isUnpack.symm.trans behavior
    · obtain ⟨entry, member, behavior, length⟩ := ofNodes_node? live
      rw [isEnd] at behavior
      simp only [mem_cons, not_mem_nil, or_false] at member
      rcases member with rfl | rfl | rfl | rfl | rfl <;>
          first | cases behavior; done | simp [length]
  exact ⟨wellPinned, compiles_or_reports_definition _ _ _ wellPinned⟩

/-- An unpack without a pin is not reported as a problem of the definition: the compiler crashes. -/
theorem unpack_without_pin_crashes :
    ∃ d, (compile (ofNodes [(.unpack 0, [])]) (rootOf [0]) {}).1 = .error d ∧ d.kind = .crash :=
  ⟨_, rfl, rfl⟩

end Blockflow.Compile
