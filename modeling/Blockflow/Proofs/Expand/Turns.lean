import Blockflow.Proofs.Expand.Pins
import Blockflow.Proofs.Graph.Queue

/-!
# One turn of settling

A node that is taken from the worklist has its pins connected, is evaluated, and its output is
stored. What this can do to a graph is said here once: the graph grows as the blueprint says, the
nodes that were there show what they showed, new nodes show nothing, and then the output of the one
node may change.
-/

namespace Blockflow

open Chart Workspace

namespace Graph

/-- The nodes that were there show what they showed and go on waiting, but for one that may stop
waiting; new nodes wait and show nothing. -/
structure Retains (busy : Option Handle) (before after : Graph) : Prop where
  later : ∀ {id n}, before.node? id = some n → ∃ n', after.node? id = some n' ∧
    n'.output = n.output ∧ (some id ≠ busy → n.queued → n'.queued)
  fresh : ∀ {id n}, after.node? id = some n → before.node? id = none → n.output = none ∧ n.queued
  previews : after.previews = before.previews

namespace Retains

variable {busy : Option Handle} {a b c : Graph}

lemma of_keeps (keeps : Keeps a b) (previews : b.previews = a.previews) : Retains busy a b where
  later live := by
    obtain ⟨n', live', kept⟩ := keeps.later live
    exact ⟨n', live', kept.output, fun _ => kept.queued⟩
  fresh live absent := by
    obtain ⟨n, was, -⟩ := keeps.earlier live
    cases absent.symm.trans was
  previews := previews

lemma trans (first : Retains busy a b) (second : Retains busy b c)
    (stays : ∀ id, busy = some id → a.contains id) : Retains busy a c where
  later live := by
    obtain ⟨n', live', output, queued⟩ := first.later live
    obtain ⟨n'', live'', output', queued'⟩ := second.later live'
    exact ⟨n'', live'', output'.trans output, fun differs isQueued =>
      queued' differs (queued differs isQueued)⟩
  fresh {id n} live absent := by
    cases between : b.node? id with
    | none => exact second.fresh live between
    | some n' =>
      obtain ⟨n'', live'', output, queued⟩ := second.later between
      cases live.symm.trans live''
      obtain ⟨silent, isQueued⟩ := first.fresh between absent
      refine ⟨output.trans silent, queued (fun isBusy => ?_) isQueued⟩
      obtain ⟨n, was⟩ := contains_iff.mp (stays id isBusy.symm)
      cases absent.symm.trans was
  previews := second.previews.trans first.previews

lemma shown (retains : Retains busy a b) {id : Handle} (live : b.node? id = some n)
    (shown : n.output = some v) : ∃ before, a.node? id = some before ∧ before.output = some v := by
  cases was : a.node? id with
  | none => cases (retains.fresh live was).1.symm.trans shown
  | some before =>
    obtain ⟨n', live', output, -⟩ := retains.later was
    cases live.symm.trans live'
    exact ⟨before, rfl, output.symm.trans shown⟩

lemma output?_eq (retains : Retains busy a b) {id : Handle} (was : a.contains id) :
    b.output? id = a.output? id := by
  obtain ⟨n, live⟩ := contains_iff.mp was
  obtain ⟨n', live', output, -⟩ := retains.later live
  rw [output?, output?, live, live']
  exact output

end Retains

variable (g : Graph) (id : Handle) (result : Except Diagnostic (Option Value))

/-- The readers of a node are pushed if it shows something else than before. -/
lemma conclude_enqueues :
    Enqueues (fun other => ∃ n reader pin, g.node? id = some n ∧ g.node? other = some reader ∧
      (⟨other, pin⟩ : Edge) ∈ n.consumers ∧ sameOutput n.output (shownBy result) = false) g
        (conclude g id result) := by
  cases result with
  | ok v => exact updateOutput_enqueues g id v
  | error d =>
    have noted := updateOutput_enqueues
      { g with diagnostics := g.diagnostics.push (locate g id d) } id none
    exact ⟨noted.stays, noted.pushed⟩

lemma conclude_previews : (conclude g id result).previews = g.previews := by
  cases result with
  | ok v => exact (NodeEdit.updateOutput g id v).notes.1
  | error d => exact (NodeEdit.updateOutput _ id none).notes.1

end Graph

open Graph

variable {P : Native → Prop} {bp : Blueprint P} {chart chart' : Chart} {w w' : Workspace}

/-! ## Making a node ready -/

lemma Edits.retains (wf : w.graph.nodes.WellFormed)
    (edits : Edits rules start w w') (stays : ∀ id, busy = some id → w.graph.contains id) :
    Retains busy w.graph w'.graph := by
  induction edits with
  | refl => exact .of_keeps (.refl _) rfl
  | @tail u v before step ih =>
    refine ih.trans ?_ stays
    cases step with
    | store | expansions => exact .of_keeps (.of_nodes rfl) rfl
    | @addNode b _ inputs owner =>
      have wf' := (Edits.contains wf before).1
      obtain ⟨-, -, found, -⟩ := addNode_facts wf' b inputs owner
      have notes := addNode_notes u.graph b inputs owner
      refine ⟨fun {id n} live =>
        ⟨n, addNode_keeps wf' b inputs owner live, rfl, fun _ queued => queued⟩,
        fun {id n} live absent => ?_, notes.1⟩
      replace live := (found id).symm.trans live
      split at live
      · cases live
        exact ⟨rfl, rfl⟩
      · cases absent.symm.trans live
    | @connect other _ pin src =>
      exact .of_keeps (Keeps.connect u.graph other pin src)
        (NodeEdit.connect u.graph other pin src).notes.1
    | @addPending other _ pin pending =>
      exact .of_keeps (Keeps.addPending u.graph other pin pending)
        (NodeEdit.markDirty (u.graph.modifyNode other (·.setPending pin pending)) other pin).notes.1

namespace Workspace

variable {env : Environment} {id : Handle}

/-- A node that is made ready goes on showing what it showed, and so do all others. -/
lemma prepare_retains (conforms : env.library.Conforms (.fresh P)) (wf : w.graph.nodes.WellFormed)
    (contains : w.graph.contains id) : Retains (some id) w.graph (w.prepare env id).2.graph := by
  have stays : ∀ other, some id = some other → w.graph.contains other := by
    rintro _ ⟨⟩
    exact contains
  have resolved : (resolvePending env id (w.cleared id)).2.graph.nodes.WellFormed ∧
      Retains (some id) w.graph (resolvePending env id (w.cleared id)).2.graph := by
    refine resolvePending_keeps (EditRules.fresh_expanding P) conforms
      (I := fun u => u.graph.nodes.WellFormed ∧ Retains (some id) w.graph u.graph)
        (fun _ holds => holds.1) ?_ ?_ ?_
    · rintro u u' ⟨wf', retains⟩ edits
      refine ⟨(edits.contains wf').1, retains.trans (edits.retains wf' fun other eq => ?_) stays⟩
      obtain ⟨n, live⟩ := contains_iff.mp (stays other eq)
      obtain ⟨n', live', -⟩ := retains.later live
      exact contains_iff.mpr ⟨n', live'⟩
    · rintro u pin src ⟨wf', retains⟩
      have keeps := Keeps.connect u.graph id pin src
      exact ⟨keeps.wellFormed wf',
        retains.trans (.of_keeps keeps (NodeEdit.connect u.graph id pin src).notes.1) stays⟩
    · exact ⟨wf, .of_keeps (.of_nodes rfl) rfl⟩
  refine resolved.2.trans ?_ stays
  have rewrites := modifyNode_rewrites (resolvePending env id (w.cleared id)).2.graph id Node.rested
  refine ⟨fun {other n} live => ?_, fun {other n} live absent => ?_, rfl⟩
  · obtain ⟨n', live', eq⟩ := rewrites.later live
    refine ⟨n', live', ?_, fun differs queued => ?_⟩
    · rw [eq]
      split <;> rfl
    · rw [eq, if_neg fun isId => differs (congrArg some isId)]
      exact queued
  · obtain ⟨n', was, -⟩ := rewrites.earlier live
    cases absent.symm.trans was

/-- The pins of a node are connected as the blueprint says, but for those that are barred; if all
are connected, the node can be evaluated. -/
lemma prepare_advances (lib : env.library = bp.library) (realizes : Realizes bp chart w)
    (quiet : w.graph.Quiet) (live : w.graph.node? id = some n)
    (once : (n.pending.map Prod.fst).Nodup)
    (accounted : (∃ place, chart.node place = some id) ∨ n.form.GivenUp) :
    ∃ chart' form, Advances bp id chart w chart' (w.prepare env id).2 ∧
      (w.prepare env id).2.graph.form? id = some form ∧
      (∀ place, chart'.node place = some id → ∀ entry ∈ form.pending,
        bp.Barred (w.prepare env id).2.store place entry.1) ∧
      ((w.prepare env id).1 = .ok () → form.pending = []) := by
  have cleared : Advances bp id chart w chart (w.cleared id) :=
    .of_forms realizes (R :=
      fun _ x y => y = x) (.of_nodes (fun _ _ => rfl) rfl) (fun eq => congrArg _ eq) rfl
  have isForm := form?_of_node? live
  -- the pins that are not connected are barred, if there are any
  obtain ⟨chart', form, advances, isForm', barred, finished⟩ : ∃ chart' form,
      Advances bp id chart w chart'
      (resolvePending env id (w.cleared id)).2 ∧
      (resolvePending env id (w.cleared id)).2.graph.form? id = some form ∧
      (∀ place, chart'.node place = some id → ∀ entry ∈ form.pending, bp.Barred
        (resolvePending env id (w.cleared id)).2.store place entry.1) ∧
      ((resolvePending env id (w.cleared id)).1 = .ok () → form.pending = []) := by
    rcases accounted with ⟨place, shown⟩ | givenUp
    · obtain ⟨chart', form, advances, isForm', barred, finished⟩ :=
        resolvePending_advances lib cleared.realizes (cleared.quiet quiet) shown live once
      refine ⟨chart', form, cleared.trans advances, isForm', fun place' shown' => ?_, finished⟩
      cases advances.realizes.nodeOnce (advances.node shown) shown'
      exact barred
    · rw [resolvePending_idle env (w := w.cleared id) live givenUp.pending]
      refine ⟨chart, n.form, cleared, isForm, fun _ _ entry mem => ?_, fun _ => givenUp.pending⟩
      rw [givenUp.pending] at mem
      cases mem
  have marked : Advances bp id chart' _ chart' (w.prepare env id).2 :=
    .of_forms advances.realizes (modifyNode_rewrites _ id Node.rested) (fun eq => by
      rw [eq]; split <;> rfl) rfl
  refine ⟨chart', form, advances.trans marked, ?_, barred, finished⟩
  exact (form?_modifyNode_same _ id Node.rested (fun _ => rfl) id).trans isForm'

end Workspace

variable {env : Environment} {shows : Option Value → Option Value → Prop}
  {strict : Prop} {id : Handle}

lemma Workspace.process_orderly
    (conforms : env.library.Conforms (.fresh P))
    (sound : SoundFor shows P strict env.methods (some id) w)
    (taken : w.graph.Taken id) : (w.process env id).graph.Orderly := by
  obtain ⟨n, live, -⟩ := taken.waits
  have contains := contains_iff.mpr ⟨n, live⟩
  have readied := prepare_readied conforms sound.wired.wellFormed taken
  obtain ⟨-, _, live', -⟩ := sound.prepare conforms contains
  rw [process_eq, contains]
  generalize w.prepare env id = outcome at readied live'
  obtain ⟨d | ⟨⟩, u⟩ := outcome
  · exact (conclude_enqueues u.graph id (.error d)).orderly readied.toOrderly
  · rw [compute_ok live']
    exact (conclude_enqueues _ _ _).orderly readied.toOrderly

/-! ## The turn as a whole -/

/-- One turn: a node is made ready, evaluated if it waits for nothing, and its output is stored. -/
structure Turn (bp : Blueprint P) (ms : Methods) (id : Handle) (chart : Chart) (w : Workspace)
    (chart' : Chart) (ready : Workspace) (n : Node) (result : Except Diagnostic (Option Value))
    (w' : Workspace) :
    Prop where
  advances : Advances bp id chart w chart' ready
  retains : Retains (some id) w.graph ready.graph
  live : ready.graph.node? id = some n
  idle : n.queued = false
  wired : ready.graph.Wired
  barred : ∀ place, chart'.node place = some id → ∀ entry ∈ n.pending,
    bp.Barred ready.store place entry.1
  worklist : w.graph.Taken id → Readied id w.graph ready.graph
  outcome : n.pending = [] ∧ (ready.graph.evaluate ms id n).run ready.store = (result, w'.store) ∨
    n.pending ≠ [] ∧ w'.store = ready.store ∧ ∃ d, result = .error d
  graph : w'.graph = conclude ready.graph id result

lemma Workspace.process_turn (lib : env.library = bp.library)
    (conforms : env.library.Conforms (.fresh P))
    (realizes : Realizes bp chart w) (quiet : w.graph.Quiet)
    (sound : SoundFor shows P strict env.methods (some id) w) (live : w.graph.node? id = some n)
    (accounted : (∃ place, chart.node place = some id) ∨ n.form.GivenUp) :
    ∃ chart' ready n result, Turn bp env.methods id chart w chart' ready n result
      (w.process env id) := by
  have contains := contains_iff.mpr ⟨n, live⟩
  obtain ⟨chart', form, advances, isForm, barred, finished⟩ :=
    prepare_advances lib realizes quiet live (sound.pinsOnce live) accounted
  have retains := prepare_retains conforms realizes.nodes contains
  have readied : w.graph.Taken id → Readied id w.graph (w.prepare env id).2.graph :=
    prepare_readied conforms realizes.nodes
  obtain ⟨prepared, ready, live', idle, fails⟩ := sound.prepare conforms contains
  have wired := prepared.wired
  cases isForm.symm.trans (form?_of_node? live')
  rw [process_eq, contains]
  generalize w.prepare env id =
    outcome at advances retains readied wired live' isForm barred finished fails ⊢
  obtain ⟨d | ⟨⟩, u⟩ := outcome
  · exact ⟨chart', u, ready, .error d, advances, retains, live', idle, wired, barred, readied,
      .inr ⟨fails d rfl, rfl, d, rfl⟩, rfl⟩
  · rw [compute_ok live']
    exact ⟨chart', u, ready, _, advances, retains, live', idle, wired, barred, readied,
      .inl ⟨finished rfl, rfl⟩, rfl⟩

namespace Turn

variable {ms : Methods} {id : Handle} {ready : Workspace} {n : Node}
  {result : Except Diagnostic (Option Value)}

variable (turn : Turn bp ms id chart w chart' ready n result w')
include turn

lemma store (grows : Store.Grows (ready.graph.evaluate ms id n)) :
    ready.store.Extends w'.store := by
  rcases turn.outcome with ⟨-, ran⟩ | ⟨-, eq, -⟩
  · have more := grows.extends' ready.store
    rw [ran] at more
    exact more
  · rw [eq]
    exact .refl _

/-- The forms after the turn are those of the graph that was made ready. -/
lemma form? (other : Handle) :
    w'.graph.form? other = ready.graph.form? other := by rw [turn.graph, form?_conclude]

/-- Only the node that was evaluated shows something else than before; new nodes show nothing. -/
lemma output (live : w'.graph.node? other = some after) :
    (∃ before, w.graph.node? other = some before ∧
      after.output =
        (if other = id then refresh before.output (shownBy result) else before.output) ∧
      (other ≠ id → before.queued → after.queued)) ∨ w.graph.node? other = none ∧
    after.output = none ∧ after.queued := by
  rw [turn.graph] at live
  obtain ⟨between, was, _, _, rfl, queued, -⟩ :=
    (conclude_rewrites ready.graph id result).earlier live
  cases first : w.graph.node? other with
  | none =>
    obtain ⟨silent, isQueued⟩ := turn.retains.fresh was first
    refine .inr ⟨rfl, ?_, queued isQueued⟩
    rw [if_neg, silent]
    rintro rfl
    cases turn.live.symm.trans was
    cases turn.idle.symm.trans isQueued
  | some before =>
    obtain ⟨between', was', output', queued'⟩ := turn.retains.later first
    cases was.symm.trans was'
    exact .inl ⟨before, rfl, by
      rw [output'], fun differs isQueued =>
        queued (queued' (fun eq => differs (Option.some.inj eq)) isQueued)⟩

end Turn

end Blockflow
