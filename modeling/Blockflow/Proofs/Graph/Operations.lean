import Blockflow.Proofs.Expand.BlockTypes
import Blockflow.Proofs.Graph.Removal

/-!
# Operations on a graph

What a host does with a graph: it adds and connects nodes, sets previews, instantiates circuits,
removes nodes, starts the expansions of a changed circuit over, and lets the graph settle. In every
graph that is reached in this way the two ends of all edges are in step, and unless nodes are taken
out of a graph in which pass-through nodes read each other in a circle, every source is there.
-/

namespace Blockflow

open Graph

inductive Operation where
  | addNode (b : Behavior) (inputs : Nat)
  | connect (id : Handle) (pin : Nat) (src : Option Handle)
  | setPreview (param : Handle) (v : Value)
  | remove (id : Handle)
  | instantiate (name : String) (args : List String)
  | redefine (name : String)
  | tick (steps : Nat)
  | settle (limit : Nat)

namespace Operation

def apply (env : Environment) (w : Workspace) : Operation → Workspace
  | addNode b inputs => { w with graph := (w.graph.addNode b inputs).2 }
  | connect id pin src => { w with graph := w.graph.connect id pin src }
  | setPreview param v => { w with graph := w.graph.setPreview param v }
  | remove id => { w with graph := w.graph.remove id }
  | instantiate name args => ((Expand.instantiate env.library name args).run w).2
  | redefine name => { w with graph := w.graph.redefine env.library.circuits name }
  | tick steps => w.tick env steps
  | settle limit => (w.settle env limit).2

def TakesOut : Operation → Prop
  | remove _ | redefine _ => True
  | _ => False

end Operation

/-- The workspaces that operations lead to from an empty graph; `Allowed` says what is done where,
and what is looked up. -/
inductive Reached (Allowed : Environment → Workspace → Operation → Prop) (store : Store) :
    Workspace → Prop where
  | start : Reached Allowed store { store }
  | step {env : Environment} {w : Workspace} {op : Operation} (reached : Reached Allowed store w)
      (allowed : Allowed env w op) : Reached Allowed store (op.apply env w)

/-- Instantiating a circuit only edits. -/
lemma Expand.instantiate_editing (lawful : rules.Expanding)
    (wf : start.graph.nodes.WellFormed) (param : ∀ i, rules.Makes (.param i))
    (pass : rules.Makes .pass) (lib : Library) (name : String) (args : List String) :
    Editing rules start (instantiate lib name args) := by
  rw [instantiate]
  split
  · exact .fail _
  · refine .bind (.ofExcept _) fun e => .bind (Editing.allocExpansion e) fun id => ?_
    refine .bind (.mapM (fun i => ?_) _) fun params => .bind (.mapM (fun link => ?_) _) fun outs =>
      .bind (Editing.modifyExpansion id _) fun _ => .pure _
    · exact Editing.of_step fun w => .addNode (param i) 0 (some id)
    · exact Editing.addNode lawful wf pass 1 (some id) fun n wires =>
        .bind (Editing.addPendingLink wires 0 link) fun _ => .pure _

/-- Any node may be made, and any node may be wired. -/
def EditRules.any : EditRules := ⟨fun _ => True, fun _ _ => True⟩

lemma EditRules.any_expanding : EditRules.any.Expanding :=
  ⟨fun _ => trivial, trivial, fun _ => trivial, fun _ _ => trivial, fun _ => trivial,
    fun _ _ => trivial⟩

/-! ## Edges -/

/-- A property of the edges of a graph that wiring and adding nodes keeps. -/
structure Graph.Rewiring (I : Graph → Prop) : Prop where
  wellFormed : ∀ {g}, I g → g.nodes.WellFormed
  sameEdges : ∀ {a b}, I a → SameEdges a b → I b
  connect : ∀ {g} id pin src, I g → I (g.connect id pin src)
  addNode : ∀ {g} behavior inputs owner, I g → I (g.addNode behavior inputs owner).2

namespace Graph.Rewiring

variable {I : Graph → Prop} (rewiring : Rewiring I) {rules : EditRules}
include rewiring

lemma edits (holds : I w.graph) (edits : Edits rules start w w') : I w'.graph := by
  induction edits with
  | refl => exact holds
  | tail _ step ih =>
    cases step with
    | store => exact ih
    | addNode _ inputs owner => exact rewiring.addNode _ inputs owner ih
    | connect _ pin src => exact rewiring.connect _ pin src ih
    | addPending _ pin pending => exact rewiring.sameEdges ih (.addPending _ _ pin pending)
    | expansions => exact rewiring.sameEdges ih (.of_nodes rfl)

lemma settling (rules : EditRules) (env : Environment) :
    Workspace.Settling rules env fun w => I w.graph where
  wellFormed holds := rewiring.wellFormed holds
  edits holds edits := rewiring.edits holds edits
  connect id pin src holds := rewiring.connect id pin src holds
  clear _ holds := rewiring.sameEdges holds (.of_nodes rfl)
  pop _ holds := rewiring.sameEdges holds (.of_nodes rfl)
  idle id holds := rewiring.sameEdges holds (.modifyNode _ id fun _ => ⟨rfl, rfl⟩)
  evaluate holds _ _ _ := holds
  conclude id result holds := rewiring.sameEdges holds (.conclude _ id result)
  giveUp _ holds := rewiring.sameEdges holds (.of_nodes rfl)

/-- Operations that take nothing out keep what wiring and adding nodes keeps. -/
lemma apply (conforms : env.library.Conforms .any) {op : Operation}
    (stays : ¬op.TakesOut) (holds : I w.graph) : I (op.apply env w).graph := by
  have lawful := EditRules.any_expanding
  cases op with
  | addNode b inputs => exact rewiring.addNode b inputs none holds
  | connect id pin src => exact rewiring.connect id pin src holds
  | setPreview param v => exact rewiring.sameEdges holds (.setPreview _ param v)
  | remove | redefine => exact absurd trivial stays
  | instantiate name args =>
    exact rewiring.edits holds (Expand.instantiate_editing lawful (rewiring.wellFormed holds)
      (fun _ => trivial) trivial env.library name args).edits
  | tick steps => exact (rewiring.settling .any env).tick lawful conforms steps holds
  | settle limit => exact (rewiring.settling .any env).settle lawful conforms limit holds

end Graph.Rewiring

namespace Graph

lemma wired_rewiring : Rewiring Wired where
  wellFormed wired := wired.wellFormed
  sameEdges wired eq := wired.sameEdges eq
  connect _ pin src wired := wired.connect not_false pin src
  addNode b inputs owner wired := wired.addNode b inputs owner

lemma sourced_rewiring : Rewiring fun g => Wired g ∧ Sourced g where
  wellFormed holds := holds.1.wellFormed
  sameEdges holds eq := ⟨holds.1.sameEdges eq, holds.2.sameEdges eq⟩
  connect id pin src holds := ⟨holds.1.connect not_false pin src, holds.2.connect id pin src⟩
  addNode b inputs owner holds :=
    ⟨holds.1.addNode b inputs owner, holds.2.addNode holds.1.wellFormed b inputs owner⟩

lemma sourced_empty : Sourced {} := by
  rintro id pin src ⟨n, live, -⟩
  cases live

end Graph

section

variable {Allowed : Environment → Workspace → Operation → Prop} {store : Store} {w : Workspace}

/-- Operations keep the two ends of all edges in step. -/
lemma Reached.wired (conforms : ∀ {env w op}, Allowed env w op → env.library.Conforms .any)
    (reached : Reached Allowed store w) : w.graph.Wired := by
  induction reached with
  | start => exact wired_empty
  | @step env w op _ allowed ih =>
    by_cases takesOut : op.TakesOut
    · cases op with
      | remove id => exact wired_dismantling.remove id ih
      | redefine name => exact wired_dismantling.redefine env.library.circuits name ih
      | _ => exact takesOut.elim
    · exact wired_rewiring.apply (conforms allowed) takesOut ih

/-- As long as nodes are taken out only where no pass-through nodes read each other in a circle,
every source is there. -/
lemma Reached.sourced (conforms : ∀ {env w op}, Allowed env w op → env.library.Conforms .any)
    (acyclic : ∀ {env w op}, Allowed env w op → op.TakesOut → w.graph.NoPassCycle)
    (reached : Reached Allowed store w) : w.graph.Sourced := by
  suffices both : w.graph.Wired ∧ w.graph.Sourced from both.2
  induction reached with
  | start => exact ⟨wired_empty, sourced_empty⟩
  | @step env w op _ allowed ih =>
    by_cases takesOut : op.TakesOut
    · have start := And.intro ih.1 (And.intro (acyclic allowed takesOut) ih.2)
      cases op with
      | remove id =>
        have kept := sourced_dismantling.remove id start
        exact ⟨kept.1, kept.2.2⟩
      | redefine name =>
        have kept := sourced_dismantling.redefine env.library.circuits name start
        exact ⟨kept.1, kept.2.2⟩
      | _ => exact takesOut.elim
    · exact sourced_rewiring.apply (conforms allowed) takesOut ih

/-- In every graph that operations lead to, a live source lists every pin that reads it exactly
once, and it lists no other pin; and if nodes are taken out only where no pass-through nodes read
each other in a circle, then no live node reads a node that is gone. -/
theorem edges_agree_at_both_ends
    (conforms : ∀ env w operation, Allowed env w operation → env.library.Conforms .any)
    (reached : Reached Allowed store w) :
    (∀ id node pin source provider, w.graph.node? id = some node → node.source? pin = some source →
        w.graph.node? source = some provider → provider.consumers.count ⟨id, pin⟩ = 1) ∧
      (∀ source provider edge, w.graph.node? source = some provider → edge ∈ provider.consumers →
        ∃ node, w.graph.node? edge.node = some node ∧ node.source? edge.pin = some source) ∧
      ((∀ env w operation, Allowed env w operation → operation.TakesOut → w.graph.NoPassCycle) →
        ∀ id node pin source, w.graph.node? id = some node → node.source? pin = some source →
          w.graph.contains source = true) := by
  have wired := reached.wired fun {env w operation} => conforms env w operation
  refine ⟨?_, ?_, ?_⟩
  · intro id node pin source provider live reads there
    obtain ⟨provider', there', listed⟩ :=
      wired.listed not_false ⟨node, live, reads⟩ (contains_iff.mpr ⟨provider, there⟩)
    cases there.symm.trans there'
    exact List.count_eq_one_of_mem (wired.nodup there) listed
  · intro source provider edge there listed
    exact wired.read ⟨provider, there, listed⟩
  · intro acyclic id node pin source live reads
    have sourced := reached.sourced (fun {env w operation} => conforms env w operation)
      fun {env w operation} => acyclic env w operation
    exact sourced id pin source ⟨node, live, reads⟩

end

/-- Several operations, with the built-in block types and no circuits. -/
def Operation.applyAll (operations : List Operation) : Workspace :=
  operations.foldl (apply { library := .builtin }) {}

lemma Reached.all (operations : List Operation)
    (allowed : ∀ w, ∀ op ∈ operations, Allowed { library := .builtin } w op) :
    Reached Allowed {} (Operation.applyAll operations) := by
  have onwards : ∀ {w}, Reached Allowed {} w →
      Reached Allowed {} (operations.foldl (Operation.apply { library := .builtin }) w) := by
    induction operations with
    | nil => exact fun reached => reached
    | cons op operations ih =>
      intro w reached
      exact ih (fun w other mem => allowed w other (List.mem_cons_of_mem _ mem))
        (.step reached (allowed w op List.mem_cons_self))
  exact onwards .start

/-- A parameter, and two pass-through nodes in a row behind it. -/
def chain : List Operation :=
  [.addNode (.param 0) 0, .addNode .pass 1, .addNode .pass 1, .connect ⟨1, 0⟩ 0 (some ⟨0, 0⟩),
    .connect ⟨2, 0⟩ 0 (some ⟨1, 0⟩)]

lemma noPassCycle_of_older {g : Graph}
    (older : ∀ entry ∈ g.nodes.toList, (entry.2.source? 0).all (·.index < entry.1.index)) :
    g.NoPassCycle := by
  have decreasing : ∀ {id src}, Relation.TransGen g.PassesOn id src → src.index < id.index := by
    intro id src passes
    have step : ∀ {id src}, g.PassesOn id src → src.index < id.index := by
      rintro id src ⟨n, live, -, reads⟩
      have known := older (id, n) (Arena.mem_toList.mpr live)
      rw [show n.source? 0 = some src from reads] at known
      simpa using known
    induction passes with
    | single passes => exact step passes
    | tail _ passes ih => exact Nat.lt_trans (step passes) ih
  exact fun id cycle => Nat.lt_irrefl _ (decreasing cycle)

theorem chain_edges_agree :
    ∃ w node provider, Reached (fun env w operation => env.library = .builtin ∧
        (operation.TakesOut → w.graph.NoPassCycle)) {} w ∧
      w.graph.node? ⟨2, 0⟩ = some node ∧ node.source? 0 = some ⟨0, 0⟩ ∧
      w.graph.node? ⟨0, 0⟩ = some provider ∧ provider.consumers.count ⟨⟨2, 0⟩, 0⟩ = 1 ∧
      ∀ id node pin source, w.graph.node? id = some node → node.source? pin = some source →
        w.graph.contains source = true := by
  have acyclic : (Operation.applyAll chain).graph.NoPassCycle :=
    noPassCycle_of_older (by decide +kernel)
  have reached : Reached (fun env w operation => env.library = .builtin ∧
      (operation.TakesOut → w.graph.NoPassCycle)) {}
      (Operation.apply { library := .builtin } (Operation.applyAll chain) (.remove ⟨1, 0⟩)) := by
    refine .step (.all chain fun w operation member => ⟨rfl, fun takesOut => ?_⟩)
      ⟨rfl, fun _ => acyclic⟩
    simp only [chain, List.mem_cons, List.not_mem_nil, or_false] at member
    rcases member with rfl | rfl | rfl | rfl | rfl <;> exact takesOut.elim
  have reads : ((Operation.apply { library := .builtin } (Operation.applyAll chain)
      (.remove ⟨1, 0⟩)).graph.node? ⟨2, 0⟩).bind (·.source? 0) = some ⟨0, 0⟩ := by decide +kernel
  obtain ⟨node, live, source⟩ := Option.bind_eq_some_iff.mp reads
  have there : (Operation.apply { library := .builtin } (Operation.applyAll chain)
      (.remove ⟨1, 0⟩)).graph.contains ⟨0, 0⟩ = true := by decide +kernel
  obtain ⟨provider, provides⟩ := contains_iff.mp there
  have conforms : Library.builtin.Conforms .any :=
    Library.builtin_conforms (P := fun _ => True) EditRules.any_expanding (fun _ _ => trivial)
      fun _ _ => trivial
  obtain ⟨listed, -, sources⟩ := edges_agree_at_both_ends (fun env _ _ ⟨isBuiltin, _⟩ => by
    rw [isBuiltin]
    exact conforms) reached
  exact ⟨_, node, provider, reached, live, source, provides,
    listed _ node 0 _ provider live source provides,
    sources fun _ _ _ allowed => allowed.2⟩

/-- A pass-through node that reads itself is removed, and another one reads it. -/
def selfReading : List Operation :=
  [.addNode .pass 1, .addNode .pass 1, .connect ⟨0, 0⟩ 0 (some ⟨0, 0⟩),
    .connect ⟨1, 0⟩ 0 (some ⟨0, 0⟩),
    .remove ⟨0, 0⟩]

/-- The reader of a removed node goes on reading it if the node was its own source. -/
theorem reader_of_removed_self_reader :
    ∃ w node, Reached (fun env _ _ => env.library = .builtin) {} w ∧
    w.graph.node? ⟨1, 0⟩ = some node ∧
      node.source? 0 = some ⟨0, 0⟩ ∧ w.graph.contains ⟨0, 0⟩ = false := by
  have reached : Reached (fun env _ _ => env.library = .builtin) {}
      (Operation.applyAll selfReading) :=
    .all selfReading fun _ _ _ => rfl
  have reads : ((Operation.applyAll selfReading).graph.node? ⟨1, 0⟩).bind (·.source? 0) =
      some ⟨0, 0⟩ := by
    decide +kernel
  obtain ⟨node, live, source⟩ := Option.bind_eq_some_iff.mp reads
  exact ⟨_, node, reached, live, source, by decide +kernel⟩

end Blockflow
