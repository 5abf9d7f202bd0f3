import Blockflow.Proofs.Graph.Updates
import Mathlib.Data.List.Nodup

/-!
# The worklist

A node is pushed only if it does not wait already, so the worklist has every node at most once, and
all nodes in it wait. What is pushed while a node is evaluated is therefore easy to tell: the nodes
that are made on the way, and then, if the output changed, the nodes that read it and did not wait.
-/

namespace Blockflow

open List Graph Bool

namespace Graph

def Queued (g : Graph) (id : Handle) : Prop := ∃ n, g.node? id = some n ∧ n.queued

/-- The worklist has no node twice, and all of its nodes wait. -/
structure Orderly (g : Graph) : Prop where
  once : g.worklist.toList.Nodup
  queued : ∀ id ∈ g.worklist.toList, g.Queued id

/-- Nodes with a property were pushed that did not wait; all others are where they were. -/
structure Enqueues (new : Handle → Prop) (before after : Graph) : Prop where
  stays : ∀ {id}, before.Queued id → after.Queued id
  pushed : ∃ pushed, after.worklist.toList = before.worklist.toList ++ pushed ∧ pushed.Nodup ∧
    ∀ id ∈ pushed, new id ∧ ¬before.Queued id ∧ after.Queued id

variable {new : Handle → Prop} {a b c g : Graph}

lemma Rewrites.queued (rewrites : Rewrites R a b)
    (kept : ∀ {id x y}, R id x y → x.queued → y.queued) {id : Handle} (queued : a.Queued id) :
    b.Queued id := by
  obtain ⟨n, live, isQueued⟩ := queued
  obtain ⟨n', live', step⟩ := rewrites.later live
  exact ⟨n', live', kept step isQueued⟩

lemma worklist_addNode (wf : g.nodes.WellFormed) (b : Behavior) (inputs : Nat)
    (owner : Option Handle) :
    (g.addNode b inputs owner).2.worklist.toList =
      g.worklist.toList ++ [(g.addNode b inputs owner).1] := by
  obtain ⟨-, -, isNew, -⟩ := Arena.alloc_facts wf (Node.make b inputs owner)
  have marked : ∀ g' : Graph, g'.nodes = (g.nodes.alloc (Node.make b inputs owner)).2 →
      g'.worklist = g.worklist →
      (g'.markDirty (g.nodes.alloc (Node.make b inputs owner)).1 0).worklist =
        g.worklist.push (g.nodes.alloc (Node.make b inputs owner)).1 := by
    intro g' nodes worklist
    rw [markDirty, node?, nodes, isNew, if_pos rfl, ← worklist]
    rfl
  rw [← Worklist.toList_push]
  cases owner <;> exact congrArg Worklist.toList (marked _ rfl rfl)

namespace Enqueues

lemma of_worklist (stays : ∀ {id}, a.Queued id → b.Queued id) (eq : b.worklist = a.worklist) :
    Enqueues new a b :=
  ⟨stays, [], by rw [eq, append_nil], .nil, nofun⟩

lemma refl (g : Graph) : Enqueues new g g := of_worklist (fun queued => queued) rfl

lemma trans (first : Enqueues new a b) (second : Enqueues new b c) : Enqueues new a c where
  stays queued := second.stays (first.stays queued)
  pushed := by
    obtain ⟨pushed, isList, once, facts⟩ := first.pushed
    obtain ⟨pushed', isList', once', facts'⟩ := second.pushed
    refine ⟨pushed ++ pushed', by rw [isList', isList, append_assoc], ?_, fun id mem => ?_⟩
    · refine nodup_append.mpr ⟨once, once', ?_⟩
      rintro id mem _ mem' rfl
      exact (facts' id mem').2.1 (facts id mem).2.2
    · rcases mem_append.mp mem with mem | mem
      · obtain ⟨isNew, idle, queued⟩ := facts id mem
        exact ⟨isNew, idle, second.stays queued⟩
      · obtain ⟨isNew, idle, queued⟩ := facts' id mem
        exact ⟨isNew, fun was => idle (first.stays was), queued⟩

lemma imp {new' : Handle → Prop} (enqueues : Enqueues new a b) (weaker : ∀ id, new id → new' id) :
    Enqueues new' a b where
  stays := enqueues.stays
  pushed := by
    obtain ⟨pushed, isList, once, facts⟩ := enqueues.pushed
    exact ⟨pushed, isList, once, fun id mem => ⟨weaker id (facts id mem).1, (facts id mem).2⟩⟩

lemma orderly (enqueues : Enqueues new a b) (orderly : a.Orderly) : b.Orderly := by
  obtain ⟨pushed, isList, once, facts⟩ := enqueues.pushed
  constructor
  · rw [isList]
    refine nodup_append.mpr ⟨orderly.once, once, ?_⟩
    rintro id mem _ mem' rfl
    exact (facts id mem').2.1 (orderly.queued id mem)
  · intro id mem
    rw [isList] at mem
    rcases mem_append.mp mem with mem | mem
    · exact enqueues.stays (orderly.queued id mem)
    · exact (facts id mem).2.2

lemma markDirty (g : Graph) (id : Handle) (pin : Nat) :
    Enqueues (fun other => other = id ∧ g.contains id) g (g.markDirty id pin) where
  stays := (Keeps.markDirty g id pin).queued fun kept => kept.queued
  pushed := by
    cases live : g.node? id with
    | none =>
      have eq : g.markDirty id pin = g := by rw [Graph.markDirty, live]
      exact ⟨[], by rw [eq, append_nil], .nil, forall_mem_nil _⟩
    | some n =>
      have worklist : (g.markDirty id pin).worklist =
          if n.queued then g.worklist else g.worklist.push id := by
        rw [Graph.markDirty, live]
        dsimp only
        split <;> rfl
      rw [worklist]
      split
      · exact ⟨[], by rw [append_nil], .nil, forall_mem_nil _⟩
      next idle =>
        refine ⟨[id], Worklist.toList_push _ _, nodup_singleton id, fun other mem => ?_⟩
        obtain rfl := mem_singleton.mp mem
        refine ⟨⟨rfl, contains_iff.mpr ⟨n, live⟩⟩, ?_, ?_⟩
        · rintro ⟨n', live', queued⟩
          cases live.symm.trans live'
          exact idle queued
        · exact ⟨_, by rw [node?_markDirty, if_pos rfl, live]; rfl, rfl⟩

lemma markEdges (g : Graph) (edges : List Edge) :
    Enqueues (fun id => g.contains id ∧ ∃ pin, (⟨id, pin⟩ : Edge) ∈ edges) g
      (g.markEdges edges) := by
  induction edges generalizing g with
  | nil => exact .refl g
  | cons edge edges ih =>
    refine ((markDirty g edge.node edge.pin).imp ?_).trans ((ih _).imp ?_)
    · rintro id ⟨rfl, live⟩
      exact ⟨live, edge.pin, mem_cons_self⟩
    · rintro id ⟨live, pin, mem⟩
      exact ⟨((Keeps.markDirty g edge.node edge.pin).contains_iff id).mp live, pin,
        mem_cons_of_mem _ mem⟩

lemma connect (g : Graph) (id : Handle) (pin : Nat) (src : Option Handle) :
    Enqueues (· = id) g (g.connect id pin src) := by
  rw [connect_eq]
  split
  · exact .refl g
  next n _ =>
    have wired : Enqueues (· = id) g (g.rewire id pin (n.source? pin) (g.live? src)) :=
      .of_worklist ((Keeps.rewire g id pin _ _).queued fun kept => kept.queued) (worklist_rewire ..)
    dsimp only
    split
    · exact wired.trans ((markDirty _ id pin).imp fun _ facts => facts.1)
    · exact wired

lemma addPending (g : Graph) (id : Handle) (pin : Nat) (pending : Pending) :
    Enqueues (· = id) g (g.addPending id pin pending) := by
  refine trans (b := g.modifyNode id (·.setPending pin pending)) ?_
    ((markDirty _ id pin).imp fun _ facts => facts.1)
  exact .of_worklist ((Keeps.modifyNode (f := (·.setPending pin pending)) g id fun _ =>
    ⟨rfl, rfl, rfl, fun queued => queued⟩).queued fun kept => kept.queued) rfl

lemma addNode (wf : g.nodes.WellFormed) (b : Behavior) (inputs : Nat) (owner : Option Handle) :
    Enqueues (fun id => g.contains id = false) g (g.addNode b inputs owner).2 := by
  obtain ⟨-, fresh, found, -⟩ := addNode_facts wf b inputs owner
  have absent : g.contains (g.addNode b inputs owner).1 = false :=
    eq_false_iff.mpr fun live => fresh (.inl live)
  constructor
  · rintro id ⟨n, live, queued⟩
    exact ⟨n, addNode_keeps wf b inputs owner live, queued⟩
  · refine ⟨[_], worklist_addNode wf b inputs owner, nodup_singleton _, fun id mem => ?_⟩
    obtain rfl := mem_singleton.mp mem
    refine ⟨absent, ?_, _, by rw [found, if_pos rfl], rfl⟩
    rintro ⟨n, live, -⟩
    cases absent.symm.trans (contains_iff.mpr ⟨n, live⟩)

end Enqueues

end Graph

/-! ## Edits -/

lemma Edits.enqueues (wf : w.graph.nodes.WellFormed)
    (edits : Edits (.fresh P) w w w') :
    Enqueues (fun id => w.graph.contains id = false) w.graph w'.graph := by
  induction edits with
  | refl => exact .refl _
  | @tail u v edits step ih =>
    obtain ⟨wf', later⟩ := Edits.contains wf edits
    refine ih.trans ?_
    cases step with
    | store => exact .refl _
    | expansions => exact .of_worklist (fun queued => queued) rfl
    | @connect id absent pin src =>
      refine (Enqueues.connect u.graph id pin src).imp fun other eq => ?_
      subst eq
      exact eq_false_iff.mpr absent
    | @addPending id absent pin pending =>
      refine (Enqueues.addPending u.graph id pin pending).imp fun other eq => ?_
      subst eq
      exact eq_false_iff.mpr absent
    | @addNode b _ inputs owner =>
      refine (Enqueues.addNode wf' b inputs owner).imp fun other absent => ?_
      exact eq_false_iff.mpr fun live => by cases absent.symm.trans (later other live)

namespace Workspace

variable {P : Native → Prop} {env : Environment} {w : Workspace} {id : Handle}

/-- Connecting the pins of a node that waits pushes nothing but new nodes. -/
lemma resolvePending_enqueues (conforms : env.library.Conforms (.fresh P))
    (wf : w.graph.nodes.WellFormed)
    (queued : w.graph.Queued id) :
    Enqueues (fun other => w.graph.contains other = false) w.graph
      (resolvePending env id w).2.graph := by
  refine (resolvePending_keeps (I :=
    fun w' => w'.graph.nodes.WellFormed ∧ (∀ other, w.graph.contains other →
    w'.graph.contains other) ∧ w'.graph.Queued id ∧
      Enqueues (fun other => w.graph.contains other = false) w.graph w'.graph)
    (EditRules.fresh_expanding P) conforms (fun _ holds => holds.1) ?_ ?_ ⟨wf, fun _ live => live,
      queued, .refl _⟩).2.2.2
  · rintro u v ⟨wf', later, queued', enqueues⟩ edits
    obtain ⟨wf'', later'⟩ := Edits.contains wf' edits
    have more := edits.enqueues wf'
    refine ⟨wf'', fun other live => later' other (later other live), more.stays queued',
      enqueues.trans (more.imp ?_)⟩
    exact fun other absent => eq_false_iff.mpr fun live => by
      cases absent.symm.trans (later other live)
  · rintro u pin src ⟨wf', later, queued', enqueues⟩
    have keeps := Keeps.connect u.graph id pin src
    have more := Enqueues.connect u.graph id pin src
    refine ⟨keeps.wellFormed wf', fun other live =>
      (keeps.contains_iff other).mpr (later other live), more.stays queued',
      enqueues.trans ⟨more.stays, ?_⟩⟩
    obtain ⟨pushed, isList, once, facts⟩ := more.pushed
    refine ⟨pushed, isList, once, fun other mem => ?_⟩
    obtain ⟨rfl, idle, -⟩ := facts other mem
    exact absurd queued' idle

end Workspace

namespace Graph

/-- A node was taken from the worklist and is about to be evaluated. -/
structure Taken (g : Graph) (id : Handle) : Prop extends g.Orderly where
  waits : g.Queued id
  absent : id ∉ g.worklist.toList

lemma Orderly.pop {g : Graph} (orderly : g.Orderly) {id : Handle} {worklist : Worklist}
    (popped : g.worklist.pop? = some (id, worklist)) : Taken { g with worklist } id := by
  have isList := Worklist.toList_of_pop? popped
  have once := orderly.once
  rw [isList] at once
  obtain ⟨absent, once⟩ := nodup_cons.mp once
  exact ⟨⟨once, fun other mem => orderly.queued other (isList ▸ mem_cons_of_mem _ mem)⟩,
    orderly.queued id (isList ▸ mem_cons_self), absent⟩

/-- What was pushed while a node was made ready: new nodes, and none if the node waited for
nothing. -/
structure Readied (id : Handle) (before after : Graph) : Prop extends after.Orderly where
  pushed : ∃ pushed, after.worklist.toList = before.worklist.toList ++ pushed ∧
    (∀ other ∈ pushed, before.contains other = false) ∧
      ∀ n, before.node? id = some n → n.pending = [] → pushed = []

end Graph

namespace Workspace

variable {P : Native → Prop} {env : Environment} {w : Workspace} {id : Handle}

lemma resolvePending_idle (env : Environment) (live : w.graph.node? id = some n)
    (idle : n.pending = []) : resolvePending env id w = (.ok (), w) := by
  rw [resolvePending_eq, live]
  dsimp only
  rw [idle]

lemma prepare_readied (conforms : env.library.Conforms (.fresh P)) (wf : w.graph.nodes.WellFormed)
    (taken : w.graph.Taken id) : Readied id w.graph (w.prepare env id).2.graph := by
  obtain ⟨n, live, queued⟩ := taken.waits
  have enqueues := resolvePending_enqueues (w := w.cleared id) conforms wf ⟨n, live, queued⟩
  have orderly := enqueues.orderly ⟨taken.once, taken.queued⟩
  obtain ⟨pushed, isList, -, facts⟩ := enqueues.pushed
  have absent : id ∉ (resolvePending env id (w.cleared id)).2.graph.worklist.toList := by
    rw [isList]
    intro mem
    rcases mem_append.mp mem with mem | mem
    · exact taken.absent mem
    · cases (facts id mem).1.symm.trans (contains_iff.mpr ⟨n, live⟩)
  refine ⟨⟨orderly.once, fun other mem => ?_⟩, ?_⟩
  · obtain ⟨n', live', queued'⟩ := orderly.queued other mem
    have differs : other ≠ id := by
      rintro rfl
      exact absent mem
    exact ⟨n', (node?_modifyNode _ _ _ _).trans ((if_neg differs).trans live'), queued'⟩
  · refine ⟨pushed, isList, fun other mem => (facts other mem).1, fun n' live' idle => ?_⟩
    have eq := resolvePending_idle (w := w.cleared id) env live' idle
    rw [eq] at isList
    exact (self_eq_append_right.mp isList)

end Workspace

namespace Graph

variable {g : Graph} {id : Handle}

lemma updateOutput_enqueues (g : Graph) (id : Handle) (v : Option Value) :
    Enqueues (fun other => ∃ n reader pin, g.node? id = some n ∧ g.node? other = some reader ∧
      (⟨other, pin⟩ : Edge) ∈ n.consumers ∧ sameOutput n.output v = false) g
    (g.updateOutput id v).2 := by
  rw [updateOutput]
  cases live : g.node? id with
  | none => exact .refl g
  | some n =>
    dsimp only
    split
    · exact .refl g
    next differs =>
      have keeps : Rewrites (fun _ a b => b.queued = a.queued) g
          (g.modifyNode id fun n => { n with output := v }) :=
        .modifyNode (R := fun _ a b => b.queued = a.queued) (fun _ _ => rfl) g fun _ _ => rfl
      refine Enqueues.trans (.of_worklist (keeps.queued fun eq queued => eq.trans queued) rfl)
        ((Enqueues.markEdges _ n.consumers).imp ?_)
      rintro other ⟨contains, pin, reads⟩
      obtain ⟨reader, isReader⟩ := contains_iff.mp ((keeps.contains_iff other).mp contains)
      exact ⟨n, reader, pin, rfl, isReader, reads, eq_false_iff.mpr differs⟩

end Graph

end Blockflow
