import Blockflow.Proofs.Graph.Propagation

/-!
# Evaluating nodes one after another

Edits that wire only nodes of their own keep a graph sound, and so does the evaluation of a node:
its pending pins are connected, its value is computed and stored, and the nodes that read it are
woken if the value changed. A pin whose link is not found goes on waiting for it.
-/

namespace Blockflow

open Graph List Workspace

/-- All natives that a node computes have a property. -/
def Behavior.Uses (P : Native → Prop) (b : Behavior) : Prop :=
  ∀ native, b = .op native → P native

/-- Edits that only wire the nodes that they make. -/
def EditRules.fresh (P : Native → Prop) : EditRules :=
  ⟨Behavior.Uses P, fun start id => ¬start.graph.contains id⟩

lemma EditRules.fresh_expanding (P : Native → Prop) : (fresh P).Expanding where
  const _ _ := nofun
  pack _ := nofun
  unpack _ _ := nofun
  nested _ _ _ := nofun
  wires absent := absent
  earlier later absent was := absent (later _ was)

variable {shows : Option Value → Option Value → Prop} {P : Native → Prop} {strict : Prop}
  {ms : Methods}
  {busy : Option Handle} {w w' : Workspace}

/-! ## Edits -/

/-- Nodes that were there before an edit wait for the same links. -/
lemma Edits.pending (wf : w.graph.nodes.WellFormed) (edits : Edits (.fresh P) start w w')
    {id : Handle} (was : start.graph.contains id) {n : Node} (live : w.graph.node? id = some n) :
    ∃ n', w'.graph.node? id = some n' ∧ n'.pending = n.pending := by
  induction edits with
  | refl => exact ⟨n, live, rfl⟩
  | @tail u v before step ih =>
    obtain ⟨n', live', eq⟩ := ih
    cases step with
    | store | expansions => exact ⟨n', live', eq⟩
    | addNode _ inputs owner =>
      exact ⟨n', addNode_keeps (Edits.contains wf before).1 _ inputs owner live', eq⟩
    | @connect other wires pin src =>
      obtain ⟨n'', live'', connected⟩ := (connect_rewrites u.graph other pin src).later live'
      refine ⟨n'', live'', ?_⟩
      rw [connected.pending, if_neg, eq]
      rintro rfl
      exact wires was
    | @addPending other wires pin pending =>
      have differs : id ≠ other := by
        rintro rfl
        exact wires was
      refine ⟨n', ?_, eq⟩
      rw [addPending, node?_markDirty, if_neg differs, node?_modifyNode, if_neg differs]
      exact live'

lemma SoundFor.edits (sound : SoundFor shows P strict ms busy w) (edits : Edits (.fresh P) w w w') :
    SoundFor shows P strict ms busy w' := by
  -- what the edit made waits to be evaluated, so it may be connected to nodes without a value
  suffices both : SoundFor shows P strict ms busy w' ∧ ∀ {id n}, w'.graph.node? id = some n →
      ¬w.graph.contains id → n.queued from both.1
  induction edits with
  | refl => exact ⟨sound, fun live absent => absurd (contains_iff.mpr ⟨_, live⟩) absent⟩
  | @tail u v _ step ih =>
    obtain ⟨sound', waiting⟩ := ih
    cases step with
    | store extends' => exact ⟨sound'.store extends', waiting⟩
    | expansions expansions => exact ⟨sound'.expansions expansions, waiting⟩
    | @addNode b uses inputs owner =>
      refine ⟨sound'.addNode uses inputs owner, fun {id n} live absent => ?_⟩
      obtain ⟨-, -, found, -⟩ := addNode_facts sound'.wired.wellFormed b inputs owner
      have live' : (u.graph.addNode b inputs owner).2.node? id = some n := live
      rw [found] at live'
      split at live'
      · cases live'
        rfl
      · exact waiting live' absent
    | @connect other wires pin src =>
      refine ⟨sound'.connect other pin src fun _ n live _ idle => ?_, fun live absent => ?_⟩
      · cases idle.symm.trans (waiting live wires)
      · obtain ⟨before, was, kept⟩ := (Keeps.connect u.graph other pin src).earlier live
        exact kept.queued (waiting was absent)
    | @addPending other _ pin pending =>
      refine ⟨sound'.addPending other pin pending, fun live absent => ?_⟩
      obtain ⟨before, was, kept⟩ := (Keeps.addPending u.graph other pin pending).earlier live
      exact kept.queued (waiting was absent)

/-! ## Evaluating a node -/

namespace Workspace

variable {env : Environment} {n : Node}

/-- A node is made ready to be evaluated: what was said about it is forgotten, and its pending pins
are connected. -/
def prepare (env : Environment) (id : Handle) (w : Workspace) :
    Except Diagnostic Unit × Workspace :=
  let outcome :=
    resolvePending env id { w with graph.diagnostics := w.graph.diagnostics.clearNode id }
  (outcome.1, { outcome.2 with
    graph := outcome.2.graph.modifyNode id fun n => { n with queued := false, dirty := 0 } })

/-- A node that is ready is evaluated. -/
def compute (env : Environment) (id : Handle) : Except Diagnostic Unit × Workspace →
    Except Diagnostic (Option Value) × Workspace
  | (.ok (), w) => (evaluate env id).run w
  | (.error d, w) => (.error d, w)

lemma process_eq (env : Environment) (id : Handle) (w : Workspace) : w.process env id =
    if !w.graph.contains id then w
    else { (compute env id (w.prepare env id)).2 with
      graph :=
        conclude (compute env id (w.prepare env id)).2.graph id
          (compute env id (w.prepare env id)).1 } := by
  rw [process, prepare]
  dsimp only
  split
  · rfl
  · generalize resolvePending env id _ = outcome
    obtain ⟨d | ⟨⟩, w'⟩ := outcome <;> rfl

lemma compute_graph (env : Environment) (id : Handle) (ready : Except Diagnostic Unit × Workspace) :
    (compute env id ready).2.graph = ready.2.graph := by
  obtain ⟨d | ⟨⟩, u⟩ := ready
  · rfl
  · rw [compute, evaluate_eq]
    split <;> rfl

lemma compute_ok {id : Handle} (live : u.graph.node? id = some n) :
    compute env id (.ok (), u) = (((u.graph.evaluate env.methods id n).run u.store).1,
      { u with store := ((u.graph.evaluate env.methods id n).run u.store).2 }) := by
  rw [compute, evaluate_eq, live]
  rfl

/-- A pin that could not be connected goes on waiting for its link. -/
lemma resolvePins_pending (conforms : env.library.Conforms (.fresh P)) (id owner : Handle)
    (entries : List (Nat × Pending)) (wf : w.graph.nodes.WellFormed)
    (live : w.graph.node? id = some n) :
    ∃ n', (resolvePins env id owner entries w).2.graph.node? id = some n' ∧
      (∀ entry ∈ n.pending, entry.1 ∉ entries.map Prod.fst → entry ∈ n'.pending) ∧
      ((entries.map Prod.fst).Nodup → (∀ entry ∈ entries, entry ∈ n.pending) →
        ∀ d, (resolvePins env id owner entries w).1 = .error d → n'.pending ≠ []) := by
  induction entries generalizing w n with
  | nil => exact ⟨n, live, fun _ mem _ => mem, fun _ _ d failed => by cases failed⟩
  | cons entry entries ih =>
    obtain ⟨pin, pending⟩ := entry
    have lawful := EditRules.fresh_expanding P
    rw [resolvePins_cons]
    obtain ⟨between, edits, outcome⟩ := resolvePin_edits lawful conforms wf id owner pin pending
    obtain ⟨middle, live', eq⟩ := edits.pending wf (contains_iff.mpr ⟨n, live⟩) live
    have wf' := (edits.contains wf).1
    rcases outcome with ⟨d, failed⟩ | ⟨src, connected⟩
    · -- the link is not found, and no later pin is this one
      rw [failed]
      obtain ⟨last, live'', kept, -⟩ := ih wf' live'
      refine ⟨last, live'', fun entry mem unlisted => ?_, fun nodup among _ _ => ?_⟩
      · rw [map_cons, mem_cons, not_or] at unlisted
        exact kept entry (eq ▸ mem) unlisted.2
      · have stays := kept (pin, pending) (eq ▸ among _ mem_cons_self) (nodup_cons.mp nodup).1
        exact ne_nil_of_mem stays
    · rw [connected]
      obtain ⟨after, live'', step⟩ := (connect_rewrites between.graph id pin src).later live'
      have wf'' := (Keeps.connect between.graph id pin src).wellFormed wf'
      obtain ⟨last, live''', kept, fails⟩ :=
        ih
          (show ({ between with graph :=
            between.graph.connect id pin src } : Workspace).graph.nodes.WellFormed
          from wf'') live''
      have stays : ∀ entry ∈ n.pending, entry.1 ≠ pin → entry ∈ after.pending := by
        intro entry mem differs
        rw [step.pending, if_pos rfl, eq]
        exact mem_filter.mpr ⟨mem, by simpa using differs⟩
      refine ⟨last, live''', fun entry mem unlisted => ?_, fun nodup among d failed => ?_⟩
      · rw [map_cons, mem_cons, not_or] at unlisted
        exact kept entry (stays entry mem unlisted.1) unlisted.2
      · obtain ⟨first, rest⟩ := nodup_cons.mp nodup
        refine fails rest
          (fun entry mem => stays entry (among entry (mem_cons_of_mem _ mem)) ?_) d failed
        intro isPin
        exact first (isPin ▸ mem_map.mpr ⟨entry, mem, rfl⟩)

lemma resolvePending_pending (conforms : env.library.Conforms (.fresh P)) (id : Handle)
    (wf : w.graph.nodes.WellFormed) (live : w.graph.node? id = some n)
    (pinsOnce : (n.pending.map Prod.fst).Nodup) :
    ∃ n', (resolvePending env id w).2.graph.node? id = some n' ∧
      ∀ d, (resolvePending env id w).1 = .error d → n'.pending ≠ [] := by
  rw [resolvePending_eq, live]
  dsimp only
  split
  · exact ⟨n, live, fun d failed => by cases failed⟩
  next nonempty => exact ⟨n, live, fun d _ => nonempty⟩
  next owner _ _ =>
    obtain ⟨n', live', -, fails⟩ := resolvePins_pending conforms id owner n.pending wf live
    exact ⟨n', live', fails pinsOnce fun _ mem => mem⟩

end Workspace

namespace SoundFor

variable {env : Environment} {id : Handle}

lemma pop (sound : SoundFor shows P strict ms none w) {worklist : Worklist}
    (popped : w.graph.worklist.pop? = some (id, worklist)) :
    SoundFor shows P strict ms (some id) { w with graph.worklist := worklist } := by
  refine sound.rewrite (R :=
    fun _ a b => b = a) (.of_nodes (fun _ _ => rfl) rfl) (fun eq => congrArg _ eq)
    (fun eq nodup => eq ▸ nodup) (sound.wired.sameEdges (.of_nodes rfl)) ?_ ?_
  · intro other n live differs queued
    have mem := sound.waits other n live nofun queued
    rw [Worklist.toList_of_pop? popped, mem_cons] at mem
    exact mem.resolve_left fun eq => differs (congrArg some eq)
  · rintro other n _ was - rfl differs idle settled
    exact (sound.fine was nofun idle settled).transfer rfl rfl (fun _ _ => rfl) rfl rfl
      (fun known => known) (.refl _)

lemma skip (sound : SoundFor shows P strict ms (some id) w) (gone : w.graph.contains id = false) :
    SoundFor shows P strict ms none w := by
  have differs : ∀ {other n}, w.graph.node? other = some n → some other ≠ some id := by
    rintro other n live eq
    cases eq
    cases gone.symm.trans (contains_iff.mpr ⟨n, live⟩)
  exact ⟨sound.wired, sound.natives, sound.pinsOnce,
    fun other n live _ queued => sound.waits other n live (differs live) queued,
    fun live _ idle settled => sound.fine live (differs live) idle settled⟩

lemma idle (sound : SoundFor shows P strict ms (some id) w) : SoundFor shows P strict ms (some id)
    { w with graph := w.graph.modifyNode id Node.rested } := by
  have rewrites := modifyNode_rewrites w.graph id Node.rested
  have others : ∀ {other : Handle} {a b : Node}, (b = if other = id then a.rested else a) →
        b.behavior = a.behavior ∧ b.pending = a.pending ∧ b.output = a.output ∧
          (b.queued → a.queued) := by
    rintro other a b rfl
    split
    · exact ⟨rfl, rfl, rfl, nofun⟩
    · exact ⟨rfl, rfl, rfl, fun queued => queued⟩
  refine sound.rewrite rewrites (fun step => (others step).1)
    (fun step nodup => (others step).2.1 ▸ nodup)
    (sound.wired.sameEdges (.modifyNode _ id fun _ => ⟨rfl, rfl⟩))
    (sound.waits.rewrite rewrites (fun step => (others step).2.2.2) rfl) ?_
  intro other n n' was _ step differs idle settled
  have isOther : other ≠ id := fun eq => differs (congrArg some eq)
  rw [if_neg isOther] at step
  subst step
  refine (sound.fine was differs idle settled).transfer rfl rfl (fun src _ => ?_) rfl rfl
    (fun known => known) (.refl _)
  rw [output?, output?, node?_modifyNode]
  split
  next eq =>
    subst eq
    cases w.graph.node? src <;> rfl
  next => rfl

/-- The new output of a node is stored; the nodes that read it wait to be evaluated again. -/
lemma updateOutput (sound : SoundFor shows P strict ms (some id) w) {n : Node}
    (showing : Showing shows) (live : w.graph.node? id = some n) (idle : n.queued = false)
    (v : Option Value)
    (same : sameOutput n.output v → shows n.output v)
    (computed : n.pending = [] →
      ∃ earlier, ((w.graph.evaluate ms id n).run earlier).2.Extends w.store ∧
        match ((w.graph.evaluate ms id n).run earlier).1 with
        | .ok made => made = v
        | .error _ => v = none ∧ ((∀ native, P native → native.Placeless) → w.graph.Records id)) :
    SoundFor shows P strict ms none { w with graph := (w.graph.updateOutput id v).2 } := by
  have waits : w.graph.Waits none := by
    intro other n' live' _ queued
    by_cases same : other = id
    · subst same
      cases live.symm.trans live'
      cases idle.symm.trans queued
    · exact sound.waits other n' live' (fun isId => same (Option.some.inj isId)) queued
  have rewrites := updateOutput_rewrites w.graph id v
  have notes := (NodeEdit.updateOutput w.graph id v).notes
  refine sound.rewrite rewrites (fun step => ?_) (fun step nodup => ?_)
    (sound.wired.sameEdges (.updateOutput w.graph id v))
      ((Waits.marking none).updateOutput id v waits) ?_
  · obtain ⟨_, _, rfl, -⟩ := step
    rfl
  · obtain ⟨_, _, rfl, -⟩ := step
    exact nodup
  rintro other before _ was - ⟨dirty, queued, rfl, kept, woken⟩ - idle' settled
  -- a node that was not woken reads what it read before
  have unread : ∀ src, some src ∈ before.inputs → (w.graph.updateOutput id v).2.output? src =
      w.graph.output? src := by
    intro src mem
    obtain ⟨pin, reads⟩ := mem_inputs_iff.mp mem
    have unchanged : src = id → sameOutput n.output v := by
      rintro rfl
      obtain ⟨n', live', listed⟩ :=
        sound.wired.listed not_false ⟨before, was, reads⟩ (contains_iff.mpr ⟨n, live⟩)
      cases live.symm.trans live'
      by_contra changed
      cases idle'.symm.trans (woken live (Bool.not_eq_true _ ▸ changed) listed)
    have step := rewrites.rel src
    rw [output?, output?]
    generalize (w.graph.updateOutput id v).2.node? src = after at step
    cases found : w.graph.node? src <;> rw [found] at step <;> cases step
    next => rfl
    next step =>
      obtain ⟨_, _, rfl, -⟩ := step
      split
      next isId =>
        subst isId
        cases live.symm.trans found
        exact if_pos (unchanged rfl)
      next => rfl
  by_cases isId : other = id
  · subst isId
    cases live.symm.trans was
    obtain ⟨earlier, known, made⟩ := computed settled
    have shown : shows (refresh n.output v) v := by
      rw [refresh]
      split
      next kept => exact same kept
      next => exact showing.refl v
    have again : (w.graph.updateOutput other v).2.evaluate ms other
        { n with dirty, queued, output := refresh n.output v } = w.graph.evaluate ms other n :=
      evaluate_congr rfl (readings_eq rfl unread) (by rw [notes.1])
    refine .inl ⟨earlier, ?_⟩
    rw [if_pos rfl, again]
    refine ⟨known, ?_⟩
    cases outcome : ((w.graph.evaluate ms other n).run earlier).1 <;> rw [outcome] at made
    case ok => exact made ▸ shown
    case error =>
      obtain ⟨rfl, records⟩ := made
      refine ⟨showing.none shown, fun placeless => ?_⟩
      obtain ⟨d, mem, names⟩ := records placeless
      exact ⟨d, by rw [notes.2]; exact mem, names⟩
  · exact (sound.fine was (fun same => isId (Option.some.inj same))
      (idle_of_queued kept idle') settled).transfer rfl rfl
      unread (by rw [notes.1]) (if_neg isId) (Exists.imp fun _ => And.imp_left fun mem =>
        notes.2 ▸ mem) (.refl _)

lemma conclude (sound : SoundFor shows P strict ms (some id) w) (showing : Showing shows)
    (live : w.graph.node? id = some n) (idle : n.queued = false)
    (result : Except Diagnostic (Option Value))
    (same : ∀ made, result = .ok made → sameOutput n.output made → shows n.output made)
    (computed : n.pending = [] →
      ∃ earlier, ((w.graph.evaluate ms id n).run earlier).2.Extends w.store ∧
        ((w.graph.evaluate ms id n).run earlier).1 = result ∧
        ∀ d, result = .error d → (∀ native, P native → native.Placeless) → d.locator.node = none) :
    SoundFor shows P strict ms none { w with graph := conclude w.graph id result } := by
  cases result with
  | ok v =>
    refine sound.updateOutput showing live idle v (same v rfl) fun settled => ?_
    obtain ⟨earlier, known, made, -⟩ := computed settled
    exact ⟨earlier, known, by rw [made]⟩
  | error d =>
    have silent : sameOutput n.output none → shows n.output none := fun kept =>
      eq_none_of_sameOutput kept ▸ showing.refl _
    refine (sound.push (locate w.graph id d)).updateOutput showing live idle none silent
      fun settled => ?_
    obtain ⟨earlier, known, made, places⟩ := computed settled
    have same : evaluate ms
        { w.graph with diagnostics := w.graph.diagnostics.push (locate w.graph id d) } id n =
        w.graph.evaluate ms id n := evaluate_congr rfl rfl rfl
    refine ⟨earlier, ?_, ?_⟩
    · exact known
    · rw [same, made]
      refine ⟨rfl, fun placeless => ⟨locate w.graph id d, by simp [DiagnosticChain.push], ?_⟩⟩
      have unplaced := places d rfl placeless
      have placed : (d.atNode id).locator.node = some id := by
        rw [Diagnostic.atNode, unplaced]
        rfl
      rw [locate]
      split
      · exact placed
      · exact placed

/-- The pending pins of a node are connected before it is evaluated. -/
lemma prepare (conforms : env.library.Conforms (.fresh P))
    (sound : SoundFor shows P strict ms (some id) w)
    (contains : w.graph.contains id) :
    SoundFor shows P strict ms (some id) (w.prepare env id).2 ∧
      ∃ n, (w.prepare env id).2.graph.node? id = some n ∧ n.queued = false ∧
        ∀ d, (w.prepare env id).1 = .error d → n.pending ≠ [] := by
  obtain ⟨n, live⟩ := contains_iff.mp contains
  have cleared := sound.clear
  have resolved : SoundFor shows P strict ms (some id) (resolvePending env id (w.cleared id)).2 :=
    resolvePending_keeps (EditRules.fresh_expanding P) conforms
      (fun _ holds => holds.wired.wellFormed) (fun _ _ holds edits => holds.edits edits)
      (fun w pin src holds => holds.connect id pin src fun _ _ _ isOther =>
        absurd rfl isOther) cleared
  obtain ⟨after, live', fails⟩ := resolvePending_pending conforms id cleared.wired.wellFormed live
    (cleared.pinsOnce live)
  refine ⟨resolved.idle, after.rested, ?_, rfl, fails⟩
  show (modifyNode _ id _).node? id = _
  rw [node?_modifyNode, if_pos rfl, live', Option.map_some]

/-- Evaluating a node brings it up to date. -/
lemma process (showing : Showing shows) (arePure : ∀ native, P native → native.Pure)
    (all : env.methods.All P)
    (conforms : env.library.Conforms (.fresh P))
    (sound : SoundFor shows P strict env.methods (some id) w)
    (same : ∀ n made, (w.prepare env id).2.graph.node? id = some n →
      (((w.prepare env id).2.graph.evaluate env.methods id n).run (w.prepare env id).2.store).1 =
        .ok made →
      sameOutput n.output made → shows n.output made) :
    SoundFor shows P strict env.methods none (w.process env id) := by
  rw [process_eq]
  split
  next gone => exact sound.skip (by simpa using gone)
  next there =>
    obtain ⟨prepared, n, live, idle, fails⟩ := sound.prepare conforms (by simpa using there)
    generalize w.prepare env id = outcome at prepared live fails same ⊢
    rcases outcome with ⟨d | ⟨⟩, u⟩
    · exact prepared.conclude showing live idle _ (fun _ isMade => by cases isMade) fun settled =>
        absurd settled (fails d rfl)
    · rw [compute_ok live]
      have steady :=
        evaluate_steady (fun entry mem method among => arePure _ (all entry mem method among))
        u.graph id n fun native computes => arePure _ (prepared.natives live computes)
      refine (prepared.store (steady.grows.extends' u.store)).conclude showing live idle _
        (fun made isMade => same n made live isMade) fun _ =>
        ⟨u.store, .refl _, rfl, fun d failed placeless => ?_⟩
      exact evaluate_fails (fun entry mem method among => placeless _ (all entry mem method among))
        u.graph id n (fun native computes => placeless _ (prepared.natives live computes))
          u.store d failed

end SoundFor

/-! ## Running -/

namespace Sound

variable {env : Environment}

section

variable (arePure : ∀ native, P native → native.Pure) (all : env.methods.All P)
  (conforms : env.library.Conforms (.fresh P))
include arePure all conforms

lemma step {id : Handle} {worklist : Worklist} (sound : Sound P strict env.methods none w)
    (popped : w.graph.worklist.pop? = some (id, worklist)) :
    Sound P strict env.methods none (process env id { w with graph.worklist := worklist }) :=
  SoundFor.process showing_shows arePure all conforms (sound.pop popped) fun _ _ _ _ kept =>
    .inr kept

lemma tick (sound : Sound P strict env.methods none w) (steps : Nat) :
    Sound P strict env.methods none (w.tick env steps) :=
  tick_induction (step arePure all conforms) steps sound

lemma settle (sound : Sound P strict env.methods none w) (limit : Nat) :
    Sound P strict env.methods none (w.settle env limit).2 :=
  settle_induction (step arePure all conforms) (fun _ sound => sound.push _) limit sound

end

end Sound

end Blockflow
