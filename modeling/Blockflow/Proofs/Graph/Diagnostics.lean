import Blockflow.Proofs.Graph.Consistency

/-!
# What diagnostics say of nodes

The chain of diagnostics names just the nodes whose last evaluation failed: such a node is there and
shows no value, and the chain has one entry for it. Evaluating a node and taking it out drop its
entry first.
-/

namespace Blockflow

open List

namespace DiagnosticChain

/-- The nodes that the entries name, in the order of the entries. -/
def named (chain : DiagnosticChain) : List Handle := chain.entries.filterMap (·.locator.node)

variable (chain : DiagnosticChain)

lemma named_clearNode (id : Handle) : (chain.clearNode id).named = chain.named.filter (· ≠ id) := by
  rw [named, clearNode, named]
  induction chain.entries with
  | nil => rfl
  | cons d entries ih =>
    cases place : d.locator.node with
    | none => simpa [place] using ih
    | some other => by_cases eq : other = id <;> simpa [place, eq] using ih

lemma named_push_of_none (placeless : d.Placeless) : (chain.push d).named = chain.named := by
  rw [push, show d.locator.node = none from placeless, named, filterMap_append, named]
  simp [show d.locator.node = none from placeless]

lemma named_push_of_some {id : Handle} (place : d.locator.node = some id) :
    (chain.push d).named = chain.named.filter (· ≠ id) ++ [id] := by
  rw [push, place, named, filterMap_append, ← named_clearNode, named]
  simp [place]

end DiagnosticChain

namespace Graph

/-- The diagnostics name nodes that are there and show no value, each once. No native of a node
names a node in its failures. -/
structure Noted (g : Graph) : Prop where
  wellFormed : g.nodes.WellFormed
  natives : ∀ {id native}, behaviorOf g id = some (.op native) → native.Placeless
  silent : ∀ id ∈ g.diagnostics.named, ∃ n, g.node? id = some n ∧ n.output = none
  once : g.diagnostics.named.Nodup

namespace Noted

variable {g after : Graph} (noted : Noted g) (id : Handle)
include noted

lemma rewrite (same : Rewrites (fun _ a b => b.behavior = a.behavior ∧ b.output = a.output) g after)
    (chain : after.diagnostics.named = g.diagnostics.named) : Noted after where
  wellFormed := same.wellFormed noted.wellFormed
  natives found :=
    noted.natives ((SameBehaviors.behaviorOf_eq (same.imp And.left) _).symm.trans found)
  silent other mem := by
    obtain ⟨n, live, silent⟩ := noted.silent other (chain ▸ mem)
    obtain ⟨n', live', -, output⟩ := same.later live
    exact ⟨n', live', output.trans silent⟩
  once := chain ▸ noted.once

lemma keeps (keeps : Keeps g after) (chain : after.diagnostics.named = g.diagnostics.named) :
    Noted after :=
  noted.rewrite (keeps.imp fun kept => ⟨kept.behavior, kept.output⟩) chain

lemma of_nodes (nodes : after.nodes = g.nodes)
    (eq : after.diagnostics.named = g.diagnostics.named) : Noted after :=
  noted.keeps (.of_nodes nodes) eq

lemma push (placeless : d.Placeless) : Noted { g with diagnostics := g.diagnostics.push d } :=
  noted.of_nodes rfl (DiagnosticChain.named_push_of_none _ placeless)

lemma clear : Noted { g with diagnostics := g.diagnostics.clearNode id } where
  wellFormed := noted.wellFormed
  natives := noted.natives
  silent other mem := by
    rw [DiagnosticChain.named_clearNode] at mem
    exact noted.silent other (mem_of_mem_filter mem)
  once := by
    rw [DiagnosticChain.named_clearNode]
    exact noted.once.filter _

lemma connect (pin : Nat) (src : Option Handle) : Noted (g.connect id pin src) :=
  noted.keeps (.connect g id pin src) (by rw [(NodeEdit.connect g id pin src).notes.2])

lemma addPending (pin : Nat) (pending : Pending) : Noted (g.addPending id pin pending) := by
  refine noted.keeps (.addPending g id pin pending) ?_
  rw [Graph.addPending, (NodeEdit.markDirty _ id pin).notes.2]
  rfl

lemma addNode (uses : b.Uses Native.Placeless) (inputs : Nat) (owner : Option Handle) :
    Noted (g.addNode b inputs owner).2 := by
  obtain ⟨wellFormed, -, found, -⟩ := addNode_facts noted.wellFormed b inputs owner
  refine ⟨wellFormed, fun {other native} computes => ?_, fun other mem => ?_, ?_⟩
  · rw [behaviorOf, found] at computes
    split at computes
    · exact uses native (Option.some.inj computes)
    · exact noted.natives computes
  · rw [(addNode_notes g b inputs owner).2] at mem
    obtain ⟨n, live, silent⟩ := noted.silent other mem
    exact ⟨n, addNode_keeps noted.wellFormed b inputs owner live, silent⟩
  · rw [(addNode_notes g b inputs owner).2]
    exact noted.once

lemma without : Noted (g.without id) where
  wellFormed := noted.wellFormed.free id
  natives {other native} computes := by
    rw [behaviorOf, node?_without] at computes
    split at computes
    · cases computes
    · exact noted.natives computes
  silent other mem := by
    have kept : other ∈ (g.diagnostics.clearNode id).named := mem
    rw [DiagnosticChain.named_clearNode] at kept
    obtain ⟨mem, differs⟩ := mem_filter.mp kept
    obtain ⟨n, live, silent⟩ := noted.silent other mem
    exact ⟨n, (node?_without g id other).trans ((if_neg (of_decide_eq_true differs)).trans live),
      silent⟩
  once := (noted.clear id).once

lemma unlink : Noted (g.unlink id) := by
  refine unlink_induction (I :=
    Noted) (fun id inputs noted => ?_) (fun id pin src noted => noted.connect id pin src)
    (fun id noted => noted.without id) id noted
  exact noted.keeps (keeps_detachInputs _ id inputs)
    (by rw [(NodeEdit.detachInputs _ id inputs).notes.2])

omit noted in
lemma locate_node (g : Graph) (placeless : d.Placeless) :
    (Workspace.locate g id d).locator.node = some id := by
  have place : (d.atNode id).locator.node = some id := by
    rw [Diagnostic.atNode, show d.locator.node = none from placeless]
    rfl
  rw [Workspace.locate]
  split
  · exact place
  · exact place

/-- The outcome of an evaluation of a node that no entry names. -/
lemma conclude (absent : id ∉ g.diagnostics.named) (live : g.contains id)
    (fails : FailsWith Diagnostic.Placeless result) : Noted (Workspace.conclude g id result) := by
  have rewrites := conclude_rewrites g id result
  have behaviors : SameBehaviors g (Workspace.conclude g id result) := by
    refine rewrites.imp ?_
    rintro _ _ _ ⟨_, _, rfl, -⟩
    rfl
  have others : ∀ other ∈ g.diagnostics.named,
      ∃ n, (Workspace.conclude g id result).node? other = some n ∧ n.output = none := by
    intro other mem
    obtain ⟨n, live, silent⟩ := noted.silent other mem
    obtain ⟨_, live', _, _, rfl, -⟩ := rewrites.later live
    refine ⟨_, live', ?_⟩
    have differs : other ≠ id := fun eq => absent (eq ▸ mem)
    simpa [differs] using silent
  suffices chain : (∀ other ∈ (Workspace.conclude g id result).diagnostics.named,
      ∃ n, (Workspace.conclude g id result).node? other = some n ∧ n.output = none) ∧
        (Workspace.conclude g id result).diagnostics.named.Nodup from
    ⟨rewrites.wellFormed noted.wellFormed,
      fun computes => noted.natives ((behaviors.behaviorOf_eq _).symm.trans computes),
      chain.1, chain.2⟩
  cases result with
  | ok v =>
    rw [show (Workspace.conclude g id (.ok v)).diagnostics = g.diagnostics from
      (NodeEdit.updateOutput g id v).notes.2]
    exact ⟨others, noted.once⟩
  | error d =>
    have named : (Workspace.conclude g id (.error d)).diagnostics.named =
        g.diagnostics.named ++ [id] := by
      rw [Workspace.conclude, (NodeEdit.updateOutput _ id none).notes.2,
        DiagnosticChain.named_push_of_some _ (locate_node id g (fails d rfl)), filter_eq_self.mpr]
      exact fun other mem => decide_eq_true fun eq => absent (eq ▸ mem)
    rw [named]
    refine ⟨fun other mem => ?_, nodup_append.mpr ⟨noted.once, nodup_singleton id, ?_⟩⟩
    · rcases mem_append.mp mem with old | isId
      · exact others other old
      · obtain rfl := mem_singleton.mp isId
        obtain ⟨n, live⟩ := contains_iff.mp live
        obtain ⟨_, live', _, _, rfl, -⟩ := rewrites.later live
        refine ⟨_, live', ?_⟩
        rw [if_pos rfl, refresh]
        cases n.output <;> rfl
    · rintro other mem _ isId rfl
      exact absent (mem_singleton.mp isId ▸ mem)

end Noted

end Graph

open Graph Workspace

variable {env : Environment} {w w' : Workspace}

/-- Edits that make nodes whose natives have a property, and wire any nodes. -/
def EditRules.making (P : Native → Prop) : EditRules := ⟨Behavior.Uses P, fun _ _ => True⟩

lemma EditRules.making_expanding (P : Native → Prop) : (making P).Expanding where
  const _ _ := nofun
  pack _ := nofun
  unpack _ _ := nofun
  nested _ _ _ := nofun
  wires _ := trivial
  earlier _ _ := trivial

lemma Graph.Noted.edits (noted : Noted w.graph)
    (edits : Edits (.making Native.Placeless) start w w') :
    Noted w'.graph := by
  induction edits with
  | refl => exact noted
  | tail _ step ih =>
    cases step with
    | store => exact ih
    | addNode uses inputs owner => exact ih.addNode uses inputs owner
    | connect _ pin src => exact ih.connect _ pin src
    | addPending _ pin pending => exact ih.addPending _ pin pending
    | expansions => exact ih.of_nodes rfl rfl

lemma noted_dismantling : Dismantling Noted where
  unlink id noted := noted.unlink id
  expansions _ noted := noted.of_nodes rfl rfl
  addPending id pin pending noted := noted.addPending id pin pending
  note placeless noted := noted.push placeless

/-! ## Evaluation -/

/-- Nothing that is looked up names a node in its failures. -/
structure Environment.Placeless (env : Environment) : Prop where
  conforms : env.library.Conforms (.making Native.Placeless)
  library : env.library.Placeless
  methods : env.methods.All Native.Placeless

lemma Workspace.resolvePending_fails (placeless : env.library.Placeless) (id : Handle)
    (w : Workspace) :
    FailsWith Diagnostic.Placeless (resolvePending env id w).1 := by
  have pin : ∀ owner pin pending,
      (resolvePin env id owner pin pending).FailsWith Diagnostic.Placeless := by
    intro owner pin pending
    cases pending with
    | link name =>
      exact .mapFailure (f :=
        (·.atPin pin)) (.bind (Expand.link_fails placeless owner name) fun _ _ => .ok _)
    | nestedOutput block output =>
      exact .mapFailure (f := (·.atPin pin))
        (.bind (Expand.nestedOutput_fails placeless owner block output) fun _ _ => .ok _)
  have pins : ∀ owner pending w,
      FailsWith Diagnostic.Placeless (resolvePins env id owner pending w).1 := by
    intro owner pending
    induction pending with
    | nil => exact fun _ => .ok _
    | cons entry rest ih =>
      intro w
      rw [resolvePins_cons]
      split
      · exact ih _
      next d failed => exact .error (pin _ _ _ w d failed)
  rw [resolvePending_eq]
  split
  · exact .ok _
  · split
    · exact .ok _
    · exact .error rfl
    · exact pins _ _ w

lemma Graph.Noted.process (placeless : env.Placeless) (id : Handle) (noted : Noted w.graph) :
    Noted (w.process env id).graph := by
  rw [process_eq]
  split
  · exact noted
  next there =>
    have live : w.graph.contains id := by simpa using there
    -- while the pins of the node are connected, no diagnostic comes or goes
    obtain ⟨resolved, chain, live⟩ : Noted (resolvePending env id (w.cleared id)).2.graph ∧
        (resolvePending env id (w.cleared id)).2.graph.diagnostics =
          w.graph.diagnostics.clearNode id ∧
        (resolvePending env id (w.cleared id)).2.graph.contains id := by
      refine resolvePending_keeps (EditRules.making_expanding _) placeless.conforms
        (I := fun u => Noted u.graph ∧ u.graph.diagnostics = w.graph.diagnostics.clearNode id ∧
          u.graph.contains id) (fun _ holds => holds.1.wellFormed) ?_ ?_ ⟨noted.clear id, rfl, live⟩
      · rintro u v ⟨noted, chain, live⟩ edits
        exact ⟨noted.edits edits, edits.notes.2.trans chain,
          (edits.contains noted.wellFormed).2 id live⟩
      · rintro u pin src ⟨noted, chain, live⟩
        exact ⟨noted.connect id pin src, (NodeEdit.connect u.graph id pin src).notes.2.trans chain,
          ((Keeps.connect u.graph id pin src).contains_iff id).mpr live⟩
    have ready : Noted (w.prepare env id).2.graph :=
      resolved.rewrite (.modifyNode (fun _ _ => ⟨rfl, rfl⟩) _ fun _ _ => ⟨rfl, rfl⟩) rfl
    have fails : FailsWith Diagnostic.Placeless (compute env id (w.prepare env id)).1 := by
      have waits := resolvePending_fails placeless.library id (w.cleared id)
      rw [prepare] at ready ⊢
      generalize resolvePending env id (w.cleared id) = outcome at waits ready ⊢
      obtain ⟨d | ⟨⟩, u⟩ := outcome
      · exact .error (waits d rfl)
      · rw [compute, evaluate_eq]
        split
        · exact .ok _
        next n live =>
          exact evaluate_fails placeless.methods _ id n (fun native computes =>
            ready.natives (Option.map_eq_some_iff.mpr ⟨n, live, computes⟩)) u.store
    refine (compute_graph env id _ ▸ ready).conclude id ?_ ?_ fails
    · rw [compute_graph]
      show id ∉ (resolvePending env id (w.cleared id)).2.graph.diagnostics.named
      rw [chain, DiagnosticChain.named_clearNode]
      simp
    · rw [compute_graph]
      exact ((modifyNode_rewrites _ id Node.rested).contains_iff id).mpr live

/-! ## What a host does -/

/-- The workspaces that a host reaches from an empty graph: it carries out operations, and takes the
diagnostics. -/
inductive Attended (store : Store) : Workspace → Prop where
  | start : Attended store { store }
  | operation {env : Environment} {w : Workspace} {op : Operation} (attended : Attended store w)
      (placeless : env.Placeless) (uses : op.Uses Native.Placeless) : Attended store
        (op.apply env w)
  | take {w : Workspace} (attended : Attended store w) : Attended store
      { w with graph.diagnostics := {} }

lemma Graph.Noted.apply (placeless : env.Placeless) (noted : Noted w.graph) {op : Operation}
    (uses : op.Uses Native.Placeless) : Noted (op.apply env w).graph := by
  have step : ∀ {w : Workspace} {id worklist}, Noted w.graph → w.graph.worklist.pop? =
      some (id, worklist) →
      Noted (Workspace.process env id { w with graph.worklist := worklist }).graph :=
    fun noted _ => process placeless _ (noted.of_nodes rfl rfl)
  cases op with
  | addNode b inputs => exact noted.addNode uses inputs none
  | connect id pin src => exact noted.connect id pin src
  | setPreview param v =>
    refine noted.rewrite ((setPreview_rewrites w.graph param v).imp ?_) ?_
    · rintro other x _ rfl
      split <;> exact ⟨rfl, rfl⟩
    · rw [Operation.apply, setPreview, (NodeEdit.markDirty _ param 0).notes.2]
  | remove id => exact noted_dismantling.remove id noted
  | redefine name => exact noted_dismantling.redefine env.library.circuits name noted
  | instantiate name args =>
    exact noted.edits (Expand.instantiate_editing (EditRules.making_expanding _) noted.wellFormed
      (fun _ _ computes => by cases computes) (fun _ computes => by
        cases computes) env.library name args).edits
  | tick steps => exact tick_induction (I := fun w => Noted w.graph) step steps noted
  | settle limit =>
    exact settle_induction (I :=
      fun w => Noted w.graph) step (fun _ noted => noted.push rfl) limit noted

/-- Whatever a host does with a graph whose natives and blocks name no node in their failures, every
entry of the diagnostics that names a node names one that is there and shows no value, and no two
entries name the same node. -/
theorem diagnostics_name_failed_nodes_once {store : Store} (attended : Attended store w) :
    (∀ d ∈ w.graph.diagnostics.entries, ∀ id, d.locator.node = some id →
        ∃ n, w.graph.node? id = some n ∧ n.output = none) ∧
      (w.graph.diagnostics.entries.filterMap (·.locator.node)).Nodup := by
  have noted : Noted w.graph := by
    induction attended with
    | start => exact ⟨Arena.wellFormed_empty, nofun, forall_mem_nil _, .nil⟩
    | operation _ placeless uses ih => exact ih.apply placeless uses
    | take _ ih => exact ⟨ih.wellFormed, ih.natives, forall_mem_nil _, .nil⟩
  exact ⟨fun d mem id place => noted.silent id (mem_filterMap.mpr ⟨d, mem, place⟩), noted.once⟩

lemma Environment.builtin_placeless : Environment.Placeless { library := .builtin } where
  conforms := by
    refine Library.builtin_conforms (P := Native.Placeless) (EditRules.making_expanding _)
      (fun b inner native computes => ?_) fun native known => ?_
    · rw [computes] at inner
      exact inner
    · exact fun vs s => ((Operators.natives_unplaced native known).call vs s).mono fun _ bare =>
        congrArg Locator.node bare
  library := Library.builtin_placeless
  methods _ mem := by cases mem

/-- A constant without elements is unpacked. -/
def unpacked : List Operation :=
  [.addNode (.const default) 0, .addNode (.unpack 0) 1,
    .connect ⟨1, 0⟩ 0 (some ⟨0, 0⟩), .settle 100]

theorem unpacked_names_failed_node : ∃ w, Attended {} w ∧
    w.graph.diagnostics.entries.filterMap (·.locator.node) = [⟨1, 0⟩] ∧
      ∃ n, w.graph.node? ⟨1, 0⟩ = some n ∧ n.output = none := by
  have step : ∀ {w} (op : Operation), op.Uses Native.Placeless → Attended {} w →
      Attended {} (op.apply { library := .builtin } w) :=
    fun op uses attended => attended.operation Environment.builtin_placeless uses
  have attended : Attended {} (Operation.applyAll unpacked) :=
    step (.settle 100) trivial (step (.connect ⟨1, 0⟩ 0 (some ⟨0, 0⟩)) trivial
      (step (.addNode (.unpack 0) 1) nofun (step (.addNode (.const default) 0) nofun .start)))
  have named : (Operation.applyAll unpacked).graph.diagnostics.entries.filterMap (·.locator.node) =
      [⟨1, 0⟩] := by
    decide +kernel
  obtain ⟨d, mem, place⟩ := mem_filterMap.mp (named ▸ mem_cons_self)
  exact ⟨_, attended, named, (diagnostics_name_failed_nodes_once attended).1 d mem _ place⟩

end Blockflow
