import Blockflow.Proofs.Expand.Failures
import Blockflow.Proofs.Graph.Wiring

/-!
# Taking nodes out

A node is taken out in three steps: its sources forget it, its readers go on with what takes its
place, and its handle is freed. Tearing down an expansion, removing an output of a nested circuit
and starting over the expansions of a circuit take out one node after another, so `Dismantling`
lists all that a property has to survive.
-/

namespace Blockflow

open List Option Graph

namespace Graph

variable {src other id : Handle} {pin : Nat} {g : Graph} {n : Node}

/-! ## One node -/

section

variable (g : Graph) (id : Handle) (inputs : List (Option Handle))

lemma keeps_detachInputs :
    Keeps g (g.detachInputs id inputs) := .of_readers (.detachInputs g id inputs)

lemma lists_detachInputs : (g.detachInputs id inputs).Lists src edge ↔
      g.Lists src edge ∧ ¬(edge.node = id ∧ inputs[edge.pin]? = some (some src)) := by
  have fold : ∀ (pins : List (Option Handle × Nat)) (g : Graph),
      (pins.foldl (fun (g : Graph) entry => g.detach entry.1 ⟨id, entry.2⟩) g).Lists src edge ↔
        g.Lists src edge ∧ ¬(edge.node = id ∧ (some src, edge.pin) ∈ pins) := by
    intro pins
    induction pins with
    | nil => simp
    | cons entry pins ih =>
      intro g
      obtain ⟨reader, place⟩ := edge
      obtain ⟨other, pin⟩ := entry
      rw [foldl_cons, ih, lists_detach]
      simp only [mem_cons, Prod.mk.injEq, Edge.mk.injEq]
      constructor
      · rintro ⟨⟨lists, first⟩, rest⟩
        refine ⟨lists, ?_⟩
        rintro ⟨rfl, ⟨rfl, rfl⟩ | mem⟩
        · exact first ⟨rfl, rfl, rfl⟩
        · exact rest ⟨rfl, mem⟩
      · rintro ⟨lists, none⟩
        refine ⟨⟨lists, ?_⟩, fun ⟨isId, mem⟩ => none ⟨isId, .inr mem⟩⟩
        rintro ⟨rfl, rfl, rfl⟩
        exact none ⟨rfl, .inl ⟨rfl, rfl⟩⟩
  have folded := fold inputs.zipIdx g
  rw [mem_zipIdx_iff_getElem?] at folded
  exact folded

lemma reads_detachInputs : (g.detachInputs id inputs).Reads other pin src ↔ g.Reads other pin src :=
  (SameButReaders.detachInputs g id inputs).reads_iff

lemma listsOnce_detachInputs : ListsOnce g (g.detachInputs id inputs) := by
  rw [detachInputs]
  generalize inputs.zipIdx = pins
  induction pins generalizing g with
  | nil => exact .of_nodes rfl
  | cons entry pins ih => exact (ListsOnce.detach g entry.1 ⟨id, entry.2⟩).trans (ih _)

lemma keeps_redirect (consumers : List Edge) (src : Option Handle) :
    Keeps g (g.redirect id consumers src) := by
  rw [redirect]
  induction consumers generalizing g with
  | nil => exact .refl g
  | cons edge consumers ih =>
    rw [foldl_cons]
    refine .trans ?_ (ih _)
    split
    · exact .refl g
    · exact .connect g edge.node edge.pin src

end

lemma live?_eq {a b : Graph} (same : ∀ id, b.contains id ↔ a.contains id)
    (src : Option Handle) : b.live? src = a.live? src := by
  rw [live?, live?]
  cases src with
  | none => rfl
  | some src =>
    have equal : b.contains src = a.contains src := Bool.eq_iff_iff.mpr (same src)
    rw [filter_some, filter_some, equal]

/-- The readers of a node read what takes its place; all other pins read what they read before. -/
lemma reads_redirect (g : Graph) (id : Handle) (consumers : List Edge) (new : Option Handle) :
    (g.redirect id consumers new).Reads other pin src ↔
      if other ≠ id ∧ ⟨other, pin⟩ ∈ consumers then
        g.contains other ∧ g.live? new = some src
      else g.Reads other pin src := by
  rw [redirect]
  induction consumers generalizing g with
  | nil => simp
  | cons edge consumers ih =>
    obtain ⟨reader, place⟩ := edge
    rw [foldl_cons, ih]
    have keeps := Keeps.connect g reader place new
    have step : ∀ g' : Graph, g' = (if reader = id then g else g.connect reader place new) →
        (g'.contains other ↔ g.contains other) ∧ g'.live? new = g.live? new := by
      rintro _ rfl
      split
      · exact ⟨.rfl, rfl⟩
      · exact ⟨keeps.contains_iff other, live?_eq keeps.contains_iff new⟩
    obtain ⟨contains, live⟩ := step _ rfl
    rw [contains, live]
    by_cases isId : other = id
    · -- pins of the node itself stay as they are
      subst isId
      simp only [ne_eq, not_true_eq_false, false_and, if_false]
      split
      · exact .rfl
      next differs => rw [reads_connect, if_neg fun eq => differs eq.1.symm]
    · by_cases later : ⟨other, pin⟩ ∈ consumers
      · simp [isId, later]
      · by_cases first : other = reader ∧ pin = place
        · obtain ⟨rfl, rfl⟩ := first
          simp [isId, later, reads_connect]
        · have absent : ¬(⟨other, pin⟩ : Edge) ∈ (⟨reader, place⟩ : Edge) :: consumers := by
            rw [mem_cons, Edge.mk.injEq]
            exact fun mem => mem.elim first later
          simp only [later, absent, and_false, if_false]
          split
          · exact .rfl
          · rw [reads_connect, if_neg first]

/-- The graph without a node. -/
def without (g : Graph) (id : Handle) : Graph :=
  { g with
    nodes := g.nodes.free id
    previews := g.previews.filter (·.1 != id)
    diagnostics := g.diagnostics.clearNode id }.touch

lemma unlink_eq (live : g.node? id = some n) : g.unlink id =
      ((g.detachInputs id n.inputs).redirect id n.consumers (replacement? n)).without id := by
  rw [unlink, live]
  rfl

/-- What survives every step of taking a node out survives the whole. -/
lemma unlink_induction {I : Graph → Prop}
    (detach : ∀ {g} id inputs, I g → I (g.detachInputs id inputs))
    (connect : ∀ {g} id pin src, I g → I (g.connect id pin src))
    (without : ∀ {g} id, I g → I (g.without id)) (id : Handle) (holds : I g) : I (g.unlink id) := by
  have redirect : ∀ (consumers : List Edge) (src : Option Handle) {g : Graph}, I g →
      I (g.redirect id consumers src) := by
    intro consumers src
    induction consumers with
    | nil => exact fun holds => holds
    | cons edge consumers ih =>
      intro g holds
      rw [redirect, foldl_cons]
      split
      · exact ih holds
      · exact ih (connect edge.node edge.pin src holds)
  cases live : g.node? id with
  | none =>
    rw [unlink, live]
    exact holds
  | some n =>
    rw [unlink_eq live]
    exact without id (redirect _ _ (detach id n.inputs holds))

lemma node?_without (g : Graph) (id other : Handle) :
    (g.without id).node? other = if other = id then none else g.node? other :=
  Arena.get?_free g.nodes id other

/-- What became of the nodes of a graph when one of them was taken out. -/
lemma node?_unlink (live : g.node? id = some n) : ∃ between, Keeps g between ∧
      ∀ other, (g.unlink id).node? other = if other = id then none else between.node? other := by
  refine ⟨_, (keeps_detachInputs g id n.inputs).trans
    (keeps_redirect _ id n.consumers (replacement? n)), fun other => ?_⟩
  rw [unlink_eq live, node?_without]

lemma contains_unlink (live : g.node? id = some n)
    (other : Handle) : (g.unlink id).contains other ↔ other ≠ id ∧ g.contains other := by
  obtain ⟨between, keeps, nodes⟩ := node?_unlink live
  rw [contains_iff, nodes, ← keeps.contains_iff, contains_iff]
  split
  next eq => simp [eq]
  next differs => simp [differs]

lemma reads_unlink (live : g.node? id = some n) : (g.unlink id).Reads other pin src ↔ other ≠ id ∧
        if ⟨other, pin⟩ ∈ n.consumers then
          g.contains other ∧ g.live? (replacement? n) = some src
        else g.Reads other pin src := by
  have detached := keeps_detachInputs g id n.inputs
  have moved : ((g.detachInputs id n.inputs).redirect id n.consumers (replacement? n)).Reads
      other pin src ↔ if other ≠ id ∧ ⟨other, pin⟩ ∈ n.consumers then
        g.contains other ∧ g.live? (replacement? n) = some src
      else g.Reads other pin src := by
    rw [reads_redirect, live?_eq detached.contains_iff, detached.contains_iff, reads_detachInputs]
  have gone : (g.unlink id).Reads other pin src ↔ other ≠ id ∧
      ((g.detachInputs id n.inputs).redirect id n.consumers (replacement? n)).Reads
        other pin src := by
    rw [unlink_eq live]
    simp only [Reads, node?_without]
    by_cases eq : other = id
    · simp [eq]
    · simp [eq]
  rw [gone, moved]
  by_cases eq : other = id
  · simp [eq]
  · simp [eq]

namespace WiredBut

variable {g : Graph}

lemma detachInputs (wired : Wired g) {id : Handle} (live : g.node? id = some n) :
    WiredBut (· = id) (g.detachInputs id n.inputs) ∧
      ∀ {src edge}, (g.detachInputs id n.inputs).Lists src edge → edge.node ≠ id := by
  have keeps := keeps_detachInputs g id n.inputs
  have others : ∀ {src edge}, (g.detachInputs id n.inputs).Lists src edge → edge.node ≠ id := by
    rintro src ⟨reader, pin⟩ lists rfl
    rw [lists_detachInputs] at lists
    obtain ⟨n', live', reads⟩ := wired.read lists.1
    cases live.symm.trans live'
    exact lists.2 ⟨rfl, join_eq_some_iff.mp reads⟩
  refine ⟨⟨keeps.wellFormed wired.wellFormed, ?_, ?_, ?_, ?_⟩, others⟩
  · exact fun reads => keeps.issued (wired.issued ((reads_detachInputs ..).mp reads))
  · intro other pin src stays reads contains
    rw [reads_detachInputs] at reads
    rw [keeps.contains_iff] at contains
    rw [lists_detachInputs]
    exact ⟨wired.listed not_false reads contains, fun isId => stays isId.1⟩
  · intro src edge lists
    rw [reads_detachInputs]
    exact wired.read ((lists_detachInputs ..).mp lists).1
  · intro src provider live
    obtain ⟨before, was, once⟩ := (listsOnce_detachInputs g id n.inputs).earlier live
    exact once (wired.nodup was)

lemma redirect {id : Handle} (wired : WiredBut (· = id) g)
    (others : ∀ {src edge}, g.Lists src edge → edge.node ≠ id) (consumers : List Edge)
    (src : Option Handle) : WiredBut (· = id) (g.redirect id consumers src) ∧
      ∀ {src' edge}, (g.redirect id consumers src).Lists src' edge → edge.node ≠ id := by
  rw [Graph.redirect]
  induction consumers generalizing g with
  | nil => exact ⟨wired, others⟩
  | cons edge consumers ih =>
    rw [foldl_cons]
    split
    · exact ih wired others
    next differs =>
      refine ih (wired.connect differs edge.pin src) fun {src' edge'} lists => ?_
      rcases lists_connect lists with rfl | was
      · exact differs
      · exact others was

/-- Taking out a node keeps the two ends of all edges in step. -/
lemma unlink (wired : Wired g) (id : Handle) : Wired (g.unlink id) := by
  cases live : g.node? id with
  | none =>
    rw [Graph.unlink, live]
    exact wired
  | some n =>
    obtain ⟨detached, own⟩ := wired.detachInputs live
    obtain ⟨redirected, others⟩ := detached.redirect own n.consumers (replacement? n)
    rw [unlink_eq live]
    generalize (g.detachInputs id n.inputs).redirect id n.consumers (replacement? n) = between
      at redirected others
    have reads : ∀ {other pin src}, (between.without id).Reads other pin src ↔
        other ≠ id ∧ between.Reads other pin src := by
      intro other pin src
      simp only [Reads, node?_without]
      by_cases eq : other = id <;> simp [eq]
    have lists : ∀ {src edge}, (between.without id).Lists src edge ↔ src ≠ id ∧
        between.Lists src edge := by
      intro src edge
      simp only [Lists, node?_without]
      by_cases eq : src = id <;> simp [eq]
    refine ⟨redirected.wellFormed.free id, ?_, ?_, ?_, ?_⟩
    · exact fun now => (redirected.issued (reads.mp now).2).free id
    · intro other pin src _ now contains
      obtain ⟨differs, was⟩ := reads.mp now
      obtain ⟨provider, live'⟩ := contains_iff.mp contains
      rw [node?_without] at live'
      split at live'
      · cases live'
      next stays =>
        exact lists.mpr ⟨stays, redirected.listed differs was (contains_iff.mpr ⟨provider, live'⟩)⟩
    · intro src edge now
      obtain ⟨-, was⟩ := lists.mp now
      exact reads.mpr ⟨others was, redirected.read was⟩
    · intro src provider live'
      rw [node?_without] at live'
      split at live'
      · cases live'
      · exact redirected.nodup live'

end WiredBut

variable {g : Graph} {id src : Handle} {n : Node}

/-! ## Pass-through nodes -/

/-- A pass-through node hands on what it reads. -/
def PassesOn (g : Graph) (id src : Handle) : Prop :=
  ∃ n, g.node? id = some n ∧ n.isPass ∧ n.source? 0 = some src

/-- No pass-through node hands on its own value, directly or through others. -/
def NoPassCycle (g : Graph) : Prop := ∀ id, ¬Relation.TransGen g.PassesOn id id

lemma NoPassCycle.mono {a b : Graph} (acyclic : a.NoPassCycle)
    (passes : ∀ id src, b.PassesOn id src → Relation.TransGen a.PassesOn id src) : b.NoPassCycle :=
  fun id cycle => acyclic id (Relation.TransGen.closed passes _ _ cycle)

/-- What a node hands on to its readers when it is taken out. -/
lemma replacement_passes (live : g.node? id = some n)
    (target : g.live? (replacement? n) = some src) : g.PassesOn id src := by
  have isReplacement := (filter_eq_some_iff.mp target).1
  rw [replacement?] at isReplacement
  split at isReplacement
  next passes => exact ⟨n, live, passes, isReplacement⟩
  next => cases isReplacement

/-- After a node is taken out, its pass-through readers hand on what it handed on. -/
lemma Wired.passesOn_unlink (wired : Wired g) (live : g.node? id = some n)
    (passes : (g.unlink id).PassesOn other src) :
    g.PassesOn other src ∨ g.PassesOn other id ∧ g.PassesOn id src := by
  obtain ⟨reader, live', isPass, reads⟩ := passes
  obtain ⟨between, keeps, nodes⟩ := node?_unlink live
  -- the reader was a pass-through node before, perhaps with another source
  have before : ∃ reader', g.node? other = some reader' ∧ reader'.isPass := by
    have found := nodes other
    rw [live'] at found
    split at found
    · cases found
    · obtain ⟨reader', was, kept⟩ := keeps.earlier found.symm
      exact ⟨reader', was, by rw [Node.isPass, Node.kind, ← kept.behavior]; exact isPass⟩
  obtain ⟨reader', was, isPass'⟩ := before
  have passesBefore : ∀ {target}, g.Reads other 0 target → g.PassesOn other target := by
    rintro target ⟨reader'', was', reads'⟩
    cases was.symm.trans was'
    exact ⟨reader', was, isPass', reads'⟩
  obtain ⟨-, moved⟩ := (reads_unlink live).mp ⟨reader, live', reads⟩
  split at moved
  next listed =>
    exact .inr ⟨passesBefore (wired.read ⟨n, live, listed⟩), replacement_passes live moved.2⟩
  next => exact .inl (passesBefore moved)

lemma NoPassCycle.unlink (acyclic : g.NoPassCycle) (wired : Wired g) (id : Handle) :
    (g.unlink id).NoPassCycle := by
  cases live : g.node? id with
  | none =>
    rw [Graph.unlink, live]
    exact acyclic
  | some n =>
    refine acyclic.mono fun other src passes => ?_
    rcases wired.passesOn_unlink live passes with direct | ⟨first, second⟩
    · exact .single direct
    · exact .tail (.single first) second

/-- Without a cycle of pass-through nodes, no pin is left reading a node that was taken out. -/
lemma Sourced.unlink (sourced : Sourced g) (wired : Wired g)
    (acyclic : g.NoPassCycle) (id : Handle) : Sourced (g.unlink id) := by
  cases live : g.node? id with
  | none =>
    rw [Graph.unlink, live]
    exact sourced
  | some n =>
    intro other pin src reads
    rw [contains_unlink live]
    obtain ⟨differs, moved⟩ := (reads_unlink live).mp reads
    split at moved
    · -- the pin was moved to what the node handed on, and that is not the node itself
      refine ⟨?_, (filter_eq_some_iff.mp moved.2).2⟩
      rintro rfl
      exact acyclic src (.single (replacement_passes live moved.2))
    next unlisted =>
      refine ⟨?_, sourced other pin src moved⟩
      rintro rfl
      obtain ⟨n', live', mem⟩ :=
        wired.listed not_false moved (contains_iff.mpr ⟨n, live⟩)
      cases live.symm.trans live'
      exact unlisted mem

/-! ## Many nodes -/

/-- A property of graphs that survives every step of tearing down and starting over. -/
structure Dismantling (I : Graph → Prop) : Prop where
  unlink : ∀ {g} id, I g → I (g.unlink id)
  expansions : ∀ {g} expansions, I g → I { g with expansions }
  addPending : ∀ {g} id pin pending, I g → I (g.addPending id pin pending)
  note : ∀ {g d}, d.Placeless → I g → I { g with diagnostics := g.diagnostics.push d }

namespace Dismantling

variable {I : Graph → Prop} {g : Graph} (dismantling : Dismantling I)
include dismantling

variable (ids : List Handle) (circuits : List Circuit) (id : Handle)

lemma unlinkAll (holds : I g) : I (g.unlinkAll ids) := by
  induction ids generalizing g with
  | nil => exact holds
  | cons id ids ih => exact ih (dismantling.unlink id holds)

lemma teardown (holds : I g) : I (g.teardown id) := by
  rw [Graph.teardown]
  generalize g.expansions.size + 1 = depth
  -- the expansions nested in one are torn down before its own nodes are taken out
  induction depth generalizing g id with
  | zero => exact holds
  | succ depth ih =>
    rw [teardownTo]
    split
    · exact holds
    next e _ =>
      have children : ∀ (ids : List Handle) {g}, I g → I (ids.foldl (teardownTo depth) g) := by
        intro ids
        induction ids with
        | nil => exact fun holds => holds
        | cons child ids next => exact fun holds => next (ih child holds)
      exact dismantling.unlinkAll _ (children _ (dismantling.expansions _ holds))

lemma teardownAll (holds : I g) : I (g.teardownAll ids) := by
  induction ids generalizing g with
  | nil => exact holds
  | cons id ids ih => exact ih (dismantling.teardown id holds)

lemma remove (holds : I g) : I (g.remove id) := by
  have release : ∀ {g} owner n, I g → I (g.releaseNested owner n) := by
    intro g owner n holds
    rw [releaseNested]
    split
    · exact holds
    · split
      · exact holds
      · exact dismantling.teardownAll _ (dismantling.unlinkAll _ (dismantling.expansions _ holds))
  rw [Graph.remove]
  split
  · exact holds
  · split
    · exact release _ id (dismantling.unlink id holds)
    · exact dismantling.unlink id holds

lemma expandAgain (site : CallSite) (holds : I g) : I (g.expandAgain site) := by
  have await : ∀ (ids : List Handle) {g}, I g → I (ids.foldl awaitNested g) := by
    intro ids
    induction ids with
    | nil => exact fun holds => holds
    | cons id ids ih =>
      intro g holds
      refine ih ?_
      rw [awaitNested]
      split
      · exact dismantling.addPending id 0 _ holds
      · exact holds
  rw [Graph.expandAgain]
  split
  · exact await _ (dismantling.teardownAll _ (dismantling.expansions _ holds))
  · exact holds

lemma rebuildRoot (holds : I g) : I (g.rebuildRoot circuits id) := by
  have links : ∀ (pins : List (Handle × String)) {g}, I g →
      I (pins.foldl (fun g pin => g.addPendingLink pin.1 0 pin.2) g) := by
    intro pins
    induction pins with
    | nil => exact fun holds => holds
    | cons pin pins ih =>
      intro g holds
      refine ih ?_
      show I (g.addPendingLink pin.1 0 pin.2)
      rw [addPendingLink]
      split
      · exact holds
      · exact dismantling.addPending _ 0 _ holds
  rw [Graph.rebuildRoot]
  split
  · exact holds
  next e _ =>
    have cleared := dismantling.unlinkAll (e.members.toList.filter (· ∉ e.params ++ e.anchors))
      (dismantling.teardownAll e.children holds)
    dsimp only
    split
    next d failed =>
      refine dismantling.note (show d.Placeless from ?_) cleared
      rw [freshRoot] at failed
      split at failed
      · exact Expansion.make_fails _ _ _ d failed
      · cases failed
        rfl
    next => exact links _ (dismantling.expansions _ cleared)

lemma redefine (name : String) (holds : I g) : I (g.redefine circuits name) := by
  rw [Graph.redefine]
  generalize (g.expansions.toList.filter (·.2.circuit.name == name)).map (·.1) = affected
  induction affected generalizing g with
  | nil => exact holds
  | cons id affected ih =>
    refine ih ?_
    rw [redefineAt]
    split
    · exact holds
    · split
      · exact dismantling.expandAgain _ holds
      · exact dismantling.rebuildRoot circuits id holds

end Dismantling

lemma SameEdges.passesOn (edges : SameEdges a b) (behaviors : SameBehaviors a b)
    {id src : Handle} (passes : b.PassesOn id src) : a.PassesOn id src := by
  obtain ⟨n', live', isPass, reads⟩ := passes
  obtain ⟨n, live, inputs, -⟩ := edges.earlier live'
  obtain ⟨n'', live'', behavior⟩ := behaviors.earlier live'
  cases live.symm.trans live''
  refine ⟨n, live, ?_, by rw [Node.source?, ← inputs]; exact reads⟩
  rw [Node.isPass, Node.kind, ← behavior]
  exact isPass

lemma wired_dismantling : Dismantling Wired where
  unlink id wired := wired.unlink id
  expansions _ wired := wired.sameEdges (.of_nodes rfl)
  addPending id pin pending wired := wired.sameEdges (.addPending _ id pin pending)
  note _ wired := wired.sameEdges (.of_nodes rfl)

/-- Without a cycle of pass-through nodes, tearing down leaves all sources in place, and makes no
such cycle. -/
lemma sourced_dismantling : Dismantling fun g => Wired g ∧ g.NoPassCycle ∧ Sourced g where
  unlink id := fun ⟨wired, acyclic, sourced⟩ =>
    ⟨wired.unlink id, acyclic.unlink wired id, sourced.unlink wired acyclic id⟩
  expansions _ := fun ⟨wired, acyclic, sourced⟩ =>
    ⟨wired.sameEdges (.of_nodes rfl), acyclic, sourced.sameEdges (.of_nodes rfl)⟩
  addPending {g} id pin pending := fun ⟨wired, acyclic, sourced⟩ => by
    have edges := SameEdges.addPending g id pin pending
    have behaviors := (Keeps.addPending g id pin pending).sameBehaviors
    exact ⟨wired.sameEdges edges, acyclic.mono fun _ _ passes =>
      .single (edges.passesOn behaviors passes),
      sourced.sameEdges edges⟩
  note _ := fun ⟨wired, acyclic, sourced⟩ =>
    ⟨wired.sameEdges (.of_nodes rfl), acyclic, sourced.sameEdges (.of_nodes rfl)⟩

end Graph

end Blockflow
