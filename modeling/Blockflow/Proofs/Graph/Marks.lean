import Blockflow.Proofs.Graph.Inputs

/-!
# Marks and the worklist

Which nodes wait to be evaluated is told by the marks of the nodes and by the worklist. Most edits
touch neither, or mark pins one after another.
-/

namespace Blockflow.Graph

/-- The edits that leave the marks of all nodes as they are. -/
abbrev SameMarks :
    Graph → Graph → Prop := Rewrites fun _ a b => b.queued = a.queued ∧ b.dirty = a.dirty

namespace SameMarks

variable (g : Graph) (id : Handle)

lemma of_nodes (eq : b.nodes = a.nodes) : SameMarks a b :=
  Rewrites.of_nodes (fun _ _ => ⟨rfl, rfl⟩) eq

lemma modifyNode (same : ∀ n, (f n).queued = n.queued ∧ (f n).dirty = n.dirty) :
    SameMarks g (g.modifyNode id f) :=
  Rewrites.modifyNode (R :=
    fun _ a b => b.queued = a.queued ∧ b.dirty = a.dirty) (fun _ _ => ⟨rfl, rfl⟩) g
    fun n _ => same n

lemma detachInputs (inputs : List (Option Handle)) : SameMarks g (g.detachInputs id inputs) :=
  (SameButReaders.detachInputs g id inputs).imp fun ⟨_, eq⟩ => by rw [eq]; exact ⟨rfl, rfl⟩

lemma rewire (pin : Nat) (old new : Option Handle) : SameMarks g (g.rewire id pin old new) := by
  refine (rewire_rewrites g id pin old new).imp ?_
  rintro other x y ⟨consumers, rfl⟩
  split <;> exact ⟨rfl, rfl⟩

end SameMarks

lemma worklist_detachInputs (g : Graph) (id : Handle) (inputs : List (Option Handle)) :
    (g.detachInputs id inputs).worklist = g.worklist := by
  rw [detachInputs]
  generalize inputs.zipIdx = pins
  induction pins generalizing g with
  | nil => rfl
  | cons entry pins ih =>
    obtain ⟨_ | _, _⟩ := entry <;> exact ih _

lemma worklist_rewire (g : Graph) (id : Handle) (pin : Nat) (old new : Option Handle) :
    (g.rewire id pin old new).worklist = g.worklist := by
  cases old <;> cases new <;> rfl

/-- A property that depends on the marks and the worklist only, and that is kept where a pin is
marked or a node taken out. -/
structure Marking (I : Graph → Prop) : Prop where
  same : ∀ {a b}, SameMarks a b → b.worklist = a.worklist → I a → I b
  markDirty : ∀ {g} (id : Handle) (pin : Nat), I g → I (g.markDirty id pin)
  without : ∀ {g} (id : Handle), I g → I (g.without id)

namespace Marking

variable {I : Graph → Prop} {g : Graph} (marking : Marking I)
include marking

lemma of_nodes (holds : I a) (nodes : b.nodes = a.nodes) (worklist : b.worklist = a.worklist) :
    I b :=
  marking.same (.of_nodes nodes) worklist holds

lemma addPending (id : Handle) (pin : Nat) (pending : Pending) (holds : I g) :
    I (g.addPending id pin pending) :=
  marking.markDirty id pin (marking.same (.modifyNode g id (f := (·.setPending pin pending))
    fun _ => ⟨rfl, rfl⟩) rfl holds)

lemma setPreview (param : Handle) (v : Value) (holds : I g) : I (g.setPreview param v) :=
  marking.markDirty param 0 (marking.of_nodes holds rfl rfl)

lemma connect (id : Handle) (pin : Nat) (src : Option Handle) (holds : I g) :
    I (g.connect id pin src) := by
  rw [connect_eq]
  split
  · exact holds
  next n _ =>
    have wired :=
      marking.same (.rewire g id pin (n.source? pin) (g.live? src)) (worklist_rewire ..) holds
    dsimp only
    split
    · exact marking.markDirty id pin wired
    · exact wired

lemma unlink (id : Handle) (holds : I g) : I (g.unlink id) :=
  unlink_induction (I :=
    I) (fun id inputs => marking.same (.detachInputs _ id inputs) (worklist_detachInputs ..))
    (fun id pin src => marking.connect id pin src) (fun id => marking.without id) id holds

lemma markEdges (edges : List Edge) (holds : I g) : I (g.markEdges edges) := by
  induction edges generalizing g with
  | nil => exact holds
  | cons edge edges ih => exact ih (marking.markDirty edge.node edge.pin holds)

lemma updateOutput (id : Handle) (v : Option Value) (holds : I g) : I (g.updateOutput id v).2 := by
  rw [Graph.updateOutput]
  split
  · exact holds
  · split
    · exact holds
    · exact marking.markEdges _ (marking.same (.modifyNode g id fun _ => ⟨rfl, rfl⟩) rfl holds)

lemma conclude (id : Handle) (result : Except Diagnostic (Option Value)) (holds : I g) :
    I (Workspace.conclude g id result) := by
  cases result with
  | ok v => exact marking.updateOutput id v holds
  | error d =>
    have noted : I { g with diagnostics := g.diagnostics.push (Workspace.locate g id d) } :=
      marking.of_nodes holds rfl rfl
    exact marking.updateOutput id none noted

end Marking

end Blockflow.Graph
