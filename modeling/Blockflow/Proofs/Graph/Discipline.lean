import Blockflow.Proofs.Graph.Operations
import Blockflow.Proofs.Graph.Queue

/-!
# The discipline of the worklist

A node is marked exactly as long as it waits, and it waits exactly as long as the worklist has it,
which is once. Handles of removed nodes may stay in the worklist; they were issued before, so no
later node has them, and taking them from the worklist does nothing.
-/

namespace Blockflow

open List Workspace Operation

namespace Graph

/-- The nodes that wait: the one that is being evaluated, and those in the worklist. -/
def waiting (busy : Option Handle) (g : Graph) : List Handle := busy.toList ++ g.worklist.toList

/-- What the marks of the nodes and the worklist say of each other, while the node `busy` is being
evaluated. The handles of `Stale` were issued before and stand for no node. -/
structure Disciplined (Stale : Handle → Prop) (busy : Option Handle) (g : Graph) : Prop where
  wellFormed : g.nodes.WellFormed
  once : (g.waiting busy).Nodup
  issued : ∀ id ∈ g.waiting busy, g.nodes.Issued id
  stale : ∀ {id}, Stale id → g.nodes.Issued id ∧ g.contains id = false
  marked : ∀ {id n}, g.node? id = some n → (n.queued ↔ n.dirty ≠ 0)
  listed : ∀ {id n}, g.node? id = some n → (n.queued ↔ id ∈ g.waiting busy)

variable {Stale : Handle → Prop} {busy : Option Handle} {g after : Graph} {id : Handle}

lemma Rewrites.stays_gone (rewrites : Rewrites R g after)
    (gone : g.nodes.Issued id ∧ g.contains id = false) :
    after.nodes.Issued id ∧ after.contains id = false := by
  refine ⟨rewrites.issued gone.1, Bool.eq_false_iff.mpr fun live => ?_⟩
  cases gone.2.symm.trans ((rewrites.contains_iff id).mp live)

namespace Disciplined

lemma empty (store : Store) : Disciplined (fun _ => False) none ({ store } : Workspace).graph where
  wellFormed := Arena.wellFormed_empty
  once := .nil
  issued := forall_mem_nil _
  stale none := none.elim
  marked live := by cases live
  listed live := by cases live

section

variable (holds : Disciplined Stale busy g)
include holds

/-! ## Edits -/

lemma sameMarks (same : SameMarks g after) (worklist : after.worklist = g.worklist) :
    Disciplined Stale busy after := by
  have waiting : after.waiting busy = g.waiting busy := by rw [waiting, waiting, worklist]
  refine ⟨same.wellFormed holds.wellFormed, waiting ▸ holds.once, fun other mem => ?_,
    fun isStale => same.stays_gone (holds.stale isStale), fun live => ?_, fun live => ?_⟩
  · exact same.issued (holds.issued other (waiting ▸ mem))
  · obtain ⟨n, was, queued, dirty⟩ := same.earlier live
    rw [queued, dirty]
    exact holds.marked was
  · obtain ⟨n, was, queued, -⟩ := same.earlier live
    rw [queued, waiting]
    exact holds.listed was

/-- One node is marked, and it is among those that wait if it was not before. -/
lemma wake (id : Handle) (wellFormed : after.nodes.WellFormed)
    (issued : ∀ other, g.nodes.Issued other → after.nodes.Issued other)
    (others : ∀ other, other ≠ id → after.node? other = g.node? other)
    (woken : ∃ n, after.node? id = some n ∧ n.queued ∧ n.dirty ≠ 0) (current : ¬Stale id)
    (once : (after.waiting busy).Nodup)
    (mem_iff : ∀ other, other ∈ after.waiting busy ↔ other ∈ g.waiting busy ∨ other = id) :
    Disciplined Stale busy after := by
  obtain ⟨n, live, queued, dirty⟩ := woken
  refine ⟨wellFormed, once, fun other mem => ?_, fun {other} isStale => ?_,
    fun {other _} live' => ?_,
    fun {other _} live' => ?_⟩
  · rcases (mem_iff other).mp mem with old | rfl
    · exact issued other (holds.issued other old)
    · exact .inl (contains_iff.mpr ⟨n, live⟩)
  · obtain ⟨was, gone⟩ := holds.stale isStale
    refine ⟨issued other was, ?_⟩
    rw [contains, Arena.contains, ← node?, others other fun eq => current (eq ▸ isStale)]
    exact gone
  · by_cases eq : other = id
    · cases live.symm.trans (eq ▸ live')
      exact ⟨fun _ => dirty, fun _ => queued⟩
    · exact holds.marked (others other eq ▸ live')
  · rw [mem_iff]
    by_cases eq : other = id
    · cases live.symm.trans (eq ▸ live')
      exact ⟨fun _ => .inr eq, fun _ => queued⟩
    · rw [holds.listed (others other eq ▸ live')]
      exact ⟨.inl, fun mem => mem.resolve_right eq⟩

omit holds in
lemma nodup_push (once : list.Nodup) (absent : id ∉ list) : (list ++ [id]).Nodup := by
  refine nodup_append.mpr ⟨once, nodup_singleton id, fun other mem last isLast eq => ?_⟩
  exact absent (mem_singleton.mp isLast ▸ eq ▸ mem)

lemma markDirty (id : Handle) (pin : Nat) : Disciplined Stale busy (g.markDirty id pin) := by
  cases live : g.node? id with
  | none =>
    rw [Graph.markDirty, live]
    exact holds
  | some n =>
    have rewrites := markDirty_rewrites g id pin
    have nodes := fun other => node?_markDirty g id pin other
    have pushes : (g.markDirty id pin).waiting busy = g.waiting busy ++ if n.queued then []
        else [id] := by
      rw [Graph.markDirty, live]
      dsimp only
      split
      · exact (append_nil _).symm
      · exact (congrArg (busy.toList ++ ·) (Worklist.toList_push g.worklist id)).trans
          (append_assoc ..).symm
    refine holds.wake id (rewrites.wellFormed holds.wellFormed) (fun _ was => rewrites.issued was)
      (fun other differs => (nodes other).trans (if_neg differs))
        ⟨_, (nodes id).trans (by rw [if_pos rfl, live]; rfl),
        rfl, by simp [Node.pinBit, Nat.or_eq_zero_iff, Nat.shiftLeft_eq]⟩ (fun isStale => ?_) ?_
        fun other => ?_
    · cases (holds.stale isStale).2.symm.trans (contains_iff.mpr ⟨n, live⟩)
    -- a node that is queued is listed already
    all_goals
      rw [pushes]
      cases queued : n.queued
    · exact nodup_push holds.once fun mem => by
        cases queued.symm.trans ((holds.listed live).mpr mem)
    · exact (append_nil _).symm ▸ holds.once
    · simp
    · have mem := (holds.listed live).mp queued
      simp only [if_true, append_nil, iff_self_or]
      rintro rfl
      exact mem

/-- The handle of a new node is new, so it is not listed twice. -/
lemma addNode (b : Behavior) (inputs : Nat) (owner : Option Handle) :
    Disciplined Stale busy (g.addNode b inputs owner).2 := by
  obtain ⟨wellFormed, fresh, found, issued⟩ := addNode_facts holds.wellFormed b inputs owner
  have pushes : (g.addNode b inputs owner).2.waiting busy =
      g.waiting busy ++ [(g.addNode b inputs owner).1] := by
    rw [waiting, waiting, worklist_addNode holds.wellFormed, append_assoc]
  refine holds.wake _ wellFormed issued (fun other differs => (found other).trans (if_neg differs))
    ⟨_, (found _).trans (if_pos rfl), rfl, by
      simp [Node.pinBit]⟩ (fun isStale => fresh (holds.stale isStale).1) ?_
    fun other => ?_
  · rw [pushes]
    exact nodup_push holds.once fun mem => fresh (holds.issued _ mem)
  · rw [pushes, mem_append, mem_singleton]

lemma without (id : Handle) : Disciplined Stale busy (g.without id) := by
  have kept : ∀ {other n}, (g.without id).node? other = some n → g.node? other = some n := by
    intro other n live
    rw [node?_without] at live
    split at live
    · cases live
    · exact live
  refine ⟨holds.wellFormed.free id, holds.once, fun other mem => (holds.issued other mem).free id,
    fun {other} isStale => ?_, fun live => holds.marked (kept live), fun live =>
    holds.listed (kept live)⟩
  obtain ⟨issued, gone⟩ := holds.stale isStale
  refine ⟨issued.free id, Bool.eq_false_iff.mpr fun live => ?_⟩
  obtain ⟨n, live⟩ := contains_iff.mp live
  cases gone.symm.trans (contains_iff.mpr ⟨n, kept live⟩)

end

lemma marking (Stale : Handle → Prop) (busy : Option Handle) :
    Marking (Disciplined Stale busy) where
  same eq worklist holds := holds.sameMarks eq worklist
  markDirty id pin holds := holds.markDirty id pin
  without id holds := holds.without id

/-! ## Evaluation -/

lemma pop (holds : Disciplined Stale none g) {worklist : Worklist}
    (popped : g.worklist.pop? = some (id, worklist)) :
    Disciplined Stale (some id) { g with worklist } := by
  have eq : waiting (some id) { g with worklist } = g.waiting none :=
    (Worklist.toList_of_pop? popped).symm
  exact ⟨holds.wellFormed, eq ▸ holds.once, eq ▸ holds.issued, holds.stale, holds.marked,
    eq ▸ holds.listed⟩

/-- The node that was evaluated is no longer marked, if it is still there. -/
lemma idle (holds : Disciplined Stale (some id) g) :
    Disciplined Stale none (g.modifyNode id Node.rested) := by
  have rewrites := modifyNode_rewrites g id Node.rested
  obtain ⟨absent, once⟩ := nodup_cons.mp (show (id :: g.worklist.toList).Nodup from holds.once)
  refine ⟨rewrites.wellFormed holds.wellFormed, once,
    fun other mem => rewrites.issued (holds.issued other (mem_cons_of_mem _ mem)),
    fun isStale => rewrites.stays_gone (holds.stale isStale), fun live =>
    ?_, fun {other _} live => ?_⟩
  · obtain ⟨before, was, rfl⟩ := rewrites.earlier live
    split
    · simp
    · exact holds.marked was
  · obtain ⟨before, was, rfl⟩ := rewrites.earlier live
    change _ ↔ other ∈ g.worklist.toList
    by_cases eq : other = id
    · rw [eq]
      simpa using absent
    · rw [if_neg eq, holds.listed was]
      exact mem_cons.trans (or_iff_right eq)

end Disciplined

lemma Marking.dismantling {I : Graph → Prop} (marking : Marking I) : Dismantling I where
  unlink id holds := marking.unlink id holds
  expansions _ holds := marking.of_nodes holds rfl rfl
  addPending id pin pending holds := marking.addPending id pin pending holds
  note _ holds := marking.of_nodes holds rfl rfl

end Graph

open Graph (Disciplined)

variable {Stale : Handle → Prop} {env : Environment} {w : Workspace} {id : Handle}

namespace Graph.Disciplined

lemma edits (holds : Disciplined Stale busy w.graph)
    (edits : Edits rules start w w') : Disciplined Stale busy w'.graph := by
  induction edits with
  | refl => exact holds
  | tail _ step ih =>
    cases step with
    | store => exact ih
    | addNode _ inputs owner => exact ih.addNode _ inputs owner
    | connect _ pin src => exact (marking Stale busy).connect _ pin src ih
    | addPending _ pin pending => exact (marking Stale busy).addPending _ pin pending ih
    | expansions => exact ih.sameMarks (.of_nodes rfl) rfl

/-- A node is evaluated: while its pins are connected it still counts as waiting, so it is not
pushed again. -/
lemma process (conforms : env.library.Conforms .any) (holds : Disciplined Stale (some id) w.graph) :
    Disciplined Stale none (w.process env id).graph := by
  rw [process_eq]
  cases live : w.graph.contains id with
  | false =>
    have others : ∀ {other n}, w.graph.node? other = some n → other ≠ id := by
      rintro _ n live' rfl
      cases live.symm.trans (contains_iff.mpr ⟨n, live'⟩)
    exact ⟨holds.wellFormed, (nodup_cons.mp holds.once).2, fun other mem =>
      holds.issued other (mem_cons_of_mem _ mem), holds.stale, holds.marked, fun live' =>
        (holds.listed live').trans (mem_cons.trans (or_iff_right (others live')))⟩
  | true =>
    have resolved : Disciplined Stale (some id) (resolvePending env id (w.cleared id)).2.graph :=
      resolvePending_keeps EditRules.any_expanding conforms (I :=
        fun u => Disciplined Stale (some id) u.graph)
        (fun _ holds => holds.wellFormed) (fun _ _ holds edits => holds.edits edits)
        (fun _ pin src holds => (marking Stale (some id)).connect id pin src holds)
        (holds.sameMarks (.of_nodes rfl) rfl)
    have ready := resolved.idle
    rw [compute_graph]
    exact (marking Stale none).conclude id _ ready

end Graph.Disciplined

/-! ## What a host does -/

/-- What a host brings about from a workspace: it carries out operations, and stores outputs and
marks pins by hand; `Allowed` says what is looked up, which may change at any time. -/
inductive Handled (Allowed : Environment → Prop) (start : Workspace) : Workspace → Prop where
  | start : Handled Allowed start start
  | operation {env : Environment} {w : Workspace} (op : Operation) (allowed : Allowed env)
      (handled : Handled Allowed start w) : Handled Allowed start (op.apply env w)
  | updateOutput {w : Workspace} (id : Handle) (v : Option Value)
      (handled : Handled Allowed start w) :
      Handled Allowed start { w with graph := (w.graph.updateOutput id v).2 }
  | markDirty {w : Workspace} (id : Handle) (pin : Nat) (handled : Handled Allowed start w) :
      Handled Allowed start { w with graph := w.graph.markDirty id pin }

namespace Graph.Disciplined

lemma apply (conforms : env.library.Conforms .any) (holds : Disciplined Stale none w.graph)
    (op : Operation) :
    Disciplined Stale none (op.apply env w).graph := by
  have step : ∀ {w : Workspace} {id worklist}, Disciplined Stale none w.graph →
      w.graph.worklist.pop? = some (id, worklist) →
        Disciplined Stale none (Workspace.process env id
          { w with graph.worklist := worklist }).graph :=
    fun holds popped => (holds.pop popped).process conforms
  cases op with
  | addNode b inputs => exact holds.addNode b inputs none
  | connect id pin src => exact (marking Stale none).connect id pin src holds
  | setPreview param v => exact (marking Stale none).setPreview param v holds
  | remove id => exact (marking Stale none).dismantling.remove id holds
  | redefine name => exact (marking Stale none).dismantling.redefine env.library.circuits name holds
  | instantiate name args =>
    exact holds.edits (Expand.instantiate_editing EditRules.any_expanding holds.wellFormed
      (fun _ => trivial) trivial
      env.library name args).edits
  | tick steps =>
    exact tick_induction (I := fun w => Disciplined Stale none w.graph) step steps holds
  | settle limit =>
    exact settle_induction (I := fun w => Disciplined Stale none w.graph) step
      (fun _ holds => holds.sameMarks (.of_nodes rfl) rfl) limit holds

end Graph.Disciplined

section

variable {Allowed : Environment → Prop} {start : Workspace}

lemma Handled.disciplined (conforms : ∀ env, Allowed env → env.library.Conforms .any)
    (handled : Handled Allowed start w) (holds : Disciplined Stale none start.graph) :
    Disciplined Stale none w.graph := by
  induction handled with
  | start => exact holds
  | operation op allowed _ ih => exact ih.apply (conforms _ allowed) op
  | updateOutput id v _ ih => exact (Disciplined.marking Stale none).updateOutput id v ih
  | markDirty id pin _ ih => exact ih.markDirty id pin

/-- Whatever a host does, between two operations a node waits exactly if some pin of it is marked,
and exactly if it is in the worklist, where it is once. A handle in the worklist whose node is gone
stands for no node ever after, so whenever it is taken from the worklist nothing is evaluated, and
nothing changes. -/
theorem worklist_has_marked_nodes_once (conforms : ∀ env, Allowed env → env.library.Conforms .any)
    {store : Store}
    (handled : Handled Allowed { store } w) :
    (∀ id node, w.graph.node? id = some node → (node.queued = true ↔ node.dirty ≠ 0) ∧
        w.graph.worklist.toList.count id = if node.queued then 1 else 0) ∧
      ∀ id ∈ w.graph.worklist.toList, w.graph.contains id = false → ∀ w', Handled Allowed w w' →
        w'.graph.contains id = false ∧
        ∀ env worklist, Workspace.process env id { w' with graph.worklist := worklist } =
          { w' with graph.worklist := worklist } := by
  have holds := handled.disciplined conforms (.empty store)
  refine ⟨fun id node live => ⟨holds.marked live, ?_⟩, fun id member gone w' handled' => ?_⟩
  · rw [show w.graph.worklist.toList = w.graph.waiting none from rfl, holds.once.count]
    simp only [holds.listed live]
  · have stale : Disciplined (· = id) none w.graph :=
      { holds with stale := fun same => same ▸ ⟨holds.issued id member, gone⟩ }
    have gone' := ((handled'.disciplined conforms stale).stale rfl).2
    refine ⟨gone', fun env worklist => ?_⟩
    rw [process, show Graph.contains { w'.graph with worklist } id = false from gone']
    rfl

end

/-- A node takes the place of another one that was removed while it waited. -/
def replaced : List Operation := [.addNode .pass 1, .remove ⟨0, 0⟩, .addNode .pass 1]

theorem removed_node_in_worklist :
    ∃ w node, Handled (·.library = .builtin) {} w ∧ w.graph.worklist.toList = [⟨0, 0⟩, ⟨0, 1⟩] ∧
      w.graph.contains ⟨0, 0⟩ = false ∧ w.graph.node? ⟨0, 1⟩ = some node ∧ node.queued = true ∧
      node.dirty ≠ 0 ∧
      w.graph.worklist.toList.count ⟨0, 1⟩ = 1 ∧
      ∀ w', Handled (·.library = .builtin) w w' → ∀ env, w'.process env ⟨0, 0⟩ = w' := by
  have step : ∀ {w} operation, Handled (·.library = .builtin) {} w →
      Handled (·.library = .builtin) {} (apply { library := .builtin } w operation) :=
    fun operation => .operation operation rfl
  have handled : Handled (·.library = .builtin) {} (applyAll replaced) :=
    step (.addNode .pass 1) (step (.remove ⟨0, 0⟩) (step (.addNode .pass 1) .start))
  have waits : ((applyAll replaced).graph.node? ⟨0, 1⟩).any (·.queued) = true := by decide +kernel
  obtain ⟨node, live, queued⟩ := Option.any_eq_true _ _ |>.mp waits
  have list : (applyAll replaced).graph.worklist.toList = [⟨0, 0⟩, ⟨0, 1⟩] := by decide +kernel
  have gone : (applyAll replaced).graph.contains ⟨0, 0⟩ = false := by decide +kernel
  have conforms : Library.builtin.Conforms .any :=
    Library.builtin_conforms (P := fun _ => True) EditRules.any_expanding (fun _ _ => trivial)
      fun _ _ => trivial
  obtain ⟨waiting, stale⟩ := worklist_has_marked_nodes_once
    (fun env (isBuiltin : env.library = .builtin) => isBuiltin.symm ▸ conforms) handled
  obtain ⟨marked, once⟩ := waiting ⟨0, 1⟩ node live
  refine ⟨_, node, handled, list, gone, live, queued, marked.mp queued, ?_, fun w' handled' env =>
    (stale ⟨0, 0⟩ (list ▸ mem_cons_self) gone w' handled').2 env w'.graph.worklist⟩
  rw [once, if_pos queued]

end Blockflow
