import Blockflow.Proofs.Graph.Edits

/-!
# Growing graphs

Expanding and settling never change what a node computes, and make only nodes that the rules allow;
every diagnostic names a node, unless the graph does not settle. So the parameters of the settled
graph of a circuit are those of its root.
-/

namespace Blockflow

open Graph

/-- The later graph has the nodes of the earlier one, and new ones of the given kinds. -/
structure Graph.Grown (Makes : Behavior → Prop) (before after : Graph) : Prop where
  wellFormed : after.nodes.WellFormed
  kept : ∀ {id b}, behaviorOf before id = some b → behaviorOf after id = some b
  made : ∀ {id b}, behaviorOf after id = some b →
    behaviorOf before id = some b ∨ Makes b

namespace Graph.Grown

variable {Makes : Behavior → Prop} {first before after : Graph}

lemma refl (wf : g.nodes.WellFormed) : Grown Makes g g :=
  ⟨wf, fun found => found, .inl⟩

lemma rewrite (grown : Grown Makes first before) (same : SameBehaviors before after) :
    Grown Makes first after where
  wellFormed := same.wellFormed grown.wellFormed
  kept found := (same.behaviorOf_eq _).trans (grown.kept found)
  made found := grown.made ((same.behaviorOf_eq _).symm.trans found)

lemma of_nodes (grown : Grown Makes first before) (eq : after.nodes = before.nodes) :
    Grown Makes first after := grown.rewrite (.of_nodes (fun _ _ => rfl) eq)

lemma addNode (grown : Grown Makes first before) (makes : Makes b) (inputs : Nat)
    (owner : Option Handle) : Grown Makes first (before.addNode b inputs owner).2 := by
  obtain ⟨wf, -, found, -⟩ := addNode_facts grown.wellFormed b inputs owner
  refine ⟨wf, fun {id _} was => ?_, fun {id _} now => ?_⟩
  · obtain ⟨n, live, eq⟩ := Option.map_eq_some_iff.mp (grown.kept was)
    exact Option.map_eq_some_iff.mpr ⟨n, addNode_keeps grown.wellFormed b inputs owner live, eq⟩
  · rw [behaviorOf, found] at now
    split at now
    · cases now
      exact .inr makes
    · exact grown.made now

end Graph.Grown

variable {rules : EditRules} {start w w' : Workspace}

/-! ## Edits -/

lemma Edits.grown (grown : Grown rules.Makes first w.graph) (edits : Edits rules start w w') :
    Grown rules.Makes first w'.graph := by
  induction edits with
  | refl => exact grown
  | tail _ step ih =>
    cases step with
    | store => exact ih
    | expansions => exact ih.of_nodes rfl
    | addNode makes inputs owner => exact ih.addNode makes inputs owner
    | connect _ pin src => exact ih.rewrite (Keeps.connect _ _ pin src).sameBehaviors
    | addPending _ pin pending => exact ih.rewrite (Keeps.addPending _ _ pin pending).sameBehaviors

lemma Edits.notes (edits : Edits rules start w w') : SameNotes w.graph w'.graph := by
  induction edits with
  | refl => exact ⟨rfl, rfl⟩
  | tail _ step ih =>
    refine ih.trans ?_
    cases step with
    | store | expansions => exact ⟨rfl, rfl⟩
    | addNode _ inputs owner => exact addNode_notes _ _ inputs owner
    | connect _ pin src => exact (NodeEdit.connect _ _ pin src).notes
    | addPending _ pin pending =>
      exact SameNotes.trans ⟨rfl, rfl⟩ (NodeEdit.markDirty _ _ pin).notes

lemma Edits.extends' (edits : Edits rules start w w') : w.store.Extends w'.store := by
  induction edits with
  | refl => exact .refl _
  | tail _ step ih =>
    cases step with
    | store more => exact ih.trans more
    | _ => exact ih

/-! ## Settling -/

/-- The diagnostics of a graph name a node, or say that the graph does not settle. -/
def Diagnostic.Placed (d : Diagnostic) : Prop :=
  d.locator.node ≠ none ∨ ∃ limit, d.problem = .notSettled limit

namespace Workspace

/-- A property of workspaces that every step of settling keeps. -/
structure Settling (rules : EditRules) (env : Environment) (I : Workspace → Prop) : Prop where
  wellFormed : ∀ {w}, I w → w.graph.nodes.WellFormed
  edits : ∀ {w w'}, I w → Edits rules w w w' → I w'
  connect : ∀ {w} id pin src, I w → I { w with graph := w.graph.connect id pin src }
  clear : ∀ {w} id, I w → I (w.cleared id)
  pop : ∀ {w} worklist, I w → I { w with graph.worklist := worklist }
  idle : ∀ {w} id, I w →
    I { w with graph := w.graph.modifyNode id Node.rested }
  evaluate : ∀ {w id n}, I w → w.graph.node? id = some n →
    ∀ store, ((w.graph.evaluate env.methods id n).run w.store).2 = store → I { w with store }
  conclude : ∀ {w} id result, I w → I { w with graph := conclude w.graph id result }
  giveUp : ∀ {w} limit, I w →
    I { w with graph.diagnostics := w.graph.diagnostics.push { problem := .notSettled limit } }

namespace Settling

variable {rules : EditRules} {env : Environment} {I : Workspace → Prop} {w : Workspace}
  (settling : Settling rules env I) (lawful : rules.Expanding)
  (conforms : env.library.Conforms rules)
include settling lawful conforms

lemma process (id : Handle) (holds : I w) : I (process env id w) := by
  rw [Workspace.process]
  split
  · exact holds
  · have resolved : I (resolvePending env id (w.cleared id)).2 :=
      resolvePending_keeps lawful conforms (fun _ holds => settling.wellFormed holds)
        (fun _ _ holds edits => settling.edits holds edits)
        (fun _ pin src holds => settling.connect id pin src holds) (settling.clear id holds)
    dsimp only
    generalize resolvePending env id (w.cleared id) = outcome at resolved ⊢
    have idle := settling.idle id resolved
    obtain ⟨_ | _, w'⟩ := outcome
    · exact settling.conclude id _ idle
    · refine settling.conclude id _ ?_
      generalize { w' with
        graph := w'.graph.modifyNode id Node.rested } = w at idle ⊢
      show I ((Workspace.evaluate env id).run w).2
      rw [evaluate_eq]
      split
      · exact idle
      next found => exact settling.evaluate idle found _ rfl

lemma tick (steps : Nat) (holds : I w) : I (tick env steps w) :=
  tick_induction (fun holds _ => settling.process lawful conforms _ (settling.pop _ holds)) steps
    holds

lemma settle (limit : Nat) (holds : I w) : I (settle env limit w).2 :=
  settle_induction (fun holds _ => settling.process lawful conforms _ (settling.pop _ holds))
    (fun limit => settling.giveUp limit) limit holds

end Settling

/-- What stays true of a workspace while it settles. -/
structure Growing (Makes : Behavior → Prop) (first : Graph) (w : Workspace) : Prop where
  grown : Grown Makes first w.graph
  placed : ∀ d ∈ w.graph.diagnostics.entries, d.Placed

variable {rules : EditRules} {env : Environment} {first : Graph} {w : Workspace}
  {chain : DiagnosticChain}

lemma locate_placed (g : Graph) (id : Handle) (d : Diagnostic) : (locate g id d).Placed := by
  have node : (d.atNode id).locator.node ≠ none := by
    rw [Diagnostic.atNode]
    cases d.locator.node <;> simp
  refine .inl ?_
  rw [locate]
  split
  · exact node
  · exact node

lemma mem_clearNode {id : Handle} (mem : d ∈ (chain.clearNode id).entries) : d ∈ chain.entries :=
  (List.mem_filter.mp mem).1

lemma mem_push (mem : d ∈ (chain.push new).entries) : d ∈ chain.entries ∨ d = new := by
  rcases List.mem_append.mp mem with old | isNew
  · split at old
    · exact .inl (mem_clearNode old)
    · exact .inl old
  · exact .inr (List.mem_singleton.mp isNew)

lemma Growing.conclude (growing : w.Growing rules.Makes first) (id : Handle)
    (result : Except Diagnostic (Option Value)) :
    Growing rules.Makes first { w with graph := conclude w.graph id result } := by
  refine ⟨growing.grown.rewrite ((conclude_rewrites w.graph id result).imp ?_), ?_⟩
  · rintro _ _ _ ⟨_, _, rfl, -⟩
    rfl
  cases result with
  | ok v =>
    show ∀ d ∈ (w.graph.updateOutput id v).2.diagnostics.entries, d.Placed
    rw [(NodeEdit.updateOutput w.graph id v).notes.2]
    exact growing.placed
  | error failure =>
    show ∀ d ∈ (updateOutput
      { w.graph with diagnostics := w.graph.diagnostics.push (locate w.graph id failure) } id
        none).2.diagnostics.entries, d.Placed
    rw [(NodeEdit.updateOutput _ id none).notes.2]
    intro d mem
    rcases mem_push mem with old | rfl
    · exact growing.placed d old
    · exact locate_placed w.graph id failure

lemma growing_settling (rules : EditRules) (env : Environment) (first : Graph) :
    Settling rules env (Growing rules.Makes first) where
  wellFormed holds := holds.grown.wellFormed
  edits holds edits := ⟨edits.grown holds.grown, by rw [edits.notes.2]; exact holds.placed⟩
  connect {w} id pin src holds :=
    ⟨holds.grown.rewrite (Keeps.connect w.graph id pin src).sameBehaviors, by
      rw [(NodeEdit.connect w.graph id pin src).notes.2]; exact holds.placed⟩
  clear id holds := ⟨holds.grown.of_nodes rfl, fun d mem => holds.placed d (mem_clearNode mem)⟩
  pop worklist holds := ⟨holds.grown.of_nodes rfl, holds.placed⟩
  idle id holds := ⟨holds.grown.rewrite (.modifyNode _ id fun _ => rfl), holds.placed⟩
  evaluate holds _ _ _ := ⟨holds.grown, holds.placed⟩
  conclude id result holds := holds.conclude id result
  giveUp limit holds := by
    refine ⟨holds.grown.of_nodes rfl, fun d mem => ?_⟩
    rcases mem_push mem with old | rfl
    · exact holds.placed d old
    · exact .inr ⟨limit, rfl⟩

end Workspace

end Blockflow
