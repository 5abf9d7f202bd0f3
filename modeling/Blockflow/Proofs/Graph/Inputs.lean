import Blockflow.Proofs.Graph.Removal

/-!
# What edges make of nodes

Connecting a pin and taking out a node change the inputs of nodes, the links that they wait for and
whether they wait to be evaluated. Here is what becomes of every node, pin by pin.
-/

namespace Blockflow.Graph

open List Node

/-- A pin that is connected to the source is to be read: the source shows a value, or there is
none. -/
def readyFor (g : Graph) (src : Option Handle) : Bool :=
  (g.live? src).all fun src => (g.output? src).isSome

lemma Keeps.readyFor_eq (keeps : Keeps a b) (src : Option Handle) :
    b.readyFor src = a.readyFor src := by
  simp only [readyFor, live?_eq keeps.contains_iff, keeps.output?_eq]

variable {id other : Handle} {new : Option Handle} {ready : Bool} {after removed : Node} {g : Graph}

/-! ## Connecting a pin -/

/-- What becomes of a node when a pin of `id` is connected. -/
structure Connected (id : Handle) (pin : Nat) (new : Option Handle) (ready : Bool) (other : Handle)
    (before after : Node) : Prop where
  kept : Kept before after
  inputs : after.inputs =
    if other = id then (withPins before.inputs (pin + 1)).set pin new else before.inputs
  pending : after.pending =
    if other = id then before.pending.filter (·.1 != pin) else before.pending
  queued : after.queued = (before.queued || (decide (other = id) && ready))

lemma connect_rewrites (g : Graph) (id : Handle) (pin : Nat) (src : Option Handle) :
    Rewrites (Connected id pin (g.live? src) (g.readyFor src)) g (g.connect id pin src) := by
  have isReady : g.readyFor src = (g.live? src).all fun src => (g.output? src).isSome := rfl
  rw [connect_eq]
  cases live : g.node? id with
  | none =>
    -- the handle is stale, so no node is the one that is connected
    refine (Rewrites.same g).imp_live ?_
    rintro other _ n found rfl
    have differs : other ≠ id := by
      rintro rfl
      cases live.symm.trans found
    refine ⟨.refl n, ?_, ?_, ?_⟩ <;> simp [differs]
  | some n =>
    dsimp only
    generalize g.live? src = new at isReady ⊢
    generalize n.source? pin = old
    have wired := rewire_rewrites g id pin old new
    have outputs : ∀ src, (g.rewire id pin old new).output? src = g.output? src :=
      (Keeps.rewire g id pin old new).output?_eq
    have isReady' : (new.all fun src => ((g.rewire id pin old new).output? src).isSome) =
        g.readyFor src := by
      simp only [outputs, isReady]
    rw [isReady']
    cases g.readyFor src with
    | true =>
      refine wired.trans (markDirty_rewrites _ id pin) ?_
      rintro other x y z ⟨consumers, rfl⟩ rfl
      by_cases same : other = id
      · simp only [same]
        exact ⟨⟨rfl, rfl, rfl, fun _ => rfl⟩, by simp [setInput, settlePin],
          by simp [setInput, settlePin], by simp⟩
      · simp only [if_neg same]
        exact ⟨⟨rfl, rfl, rfl, fun queued => queued⟩, by simp [same], by
          simp [same], by simp [same]⟩
    | false =>
      refine wired.imp ?_
      rintro other x y ⟨consumers, rfl⟩
      by_cases same : other = id
      · simp only [if_pos same]
        exact ⟨⟨rfl, rfl, rfl, fun queued => queued⟩, by simp [same, setInput, settlePin],
          by simp [same, setInput, settlePin], by simp [setInput, settlePin]⟩
      · simp only [if_neg same]
        exact ⟨⟨rfl, rfl, rfl, fun queued => queued⟩, by simp [same], by simp [same], by simp⟩

lemma Connected.input
    (connected : Connected id pin new ready id before after) (inside : pin < before.inputs.length)
    (k : Nat) :
    after.inputs[k]? = if k = pin then some new else before.inputs[k]? := by
  have filled : withPins before.inputs (pin + 1) = before.inputs := by
    rw [withPins, Nat.sub_eq_zero_of_le (by omega), replicate_zero, append_nil]
  rw [connected.inputs, if_pos rfl, filled, getElem?_set]
  by_cases eq : pin = k
  · rw [if_pos eq, if_pos inside, if_pos eq.symm]
  · rw [if_neg eq, if_neg (Ne.symm eq)]

/-! ## Redirecting readers -/

/-- What becomes of a node when the listed pins are connected, those of `id` excepted. -/
structure Redirected (id : Handle) (edges : List Edge) (new : Option Handle) (ready : Bool)
    (other : Handle)
    (before after : Node) : Prop where
  kept : Kept before after
  inputs : ∀ k, after.inputs[k]? =
    if other ≠ id ∧ ⟨other, k⟩ ∈ edges then some new else before.inputs[k]?
  pending : after.pending = before.pending.filter fun entry =>
    ¬(other ≠ id ∧ ⟨other, entry.1⟩ ∈ edges)
  queued : ready → ∀ k, other ≠ id → ⟨other, k⟩ ∈ edges → after.queued

lemma Redirected.step (isId : reader ≠ id)
    (inside : other = reader → place < x.inputs.length)
    (one : Connected reader place new ready other x y)
    (two : Redirected id edges new ready other y z) :
    Redirected id (⟨reader, place⟩ :: edges) new ready other x z := by
  by_cases eq : other = reader
  · subst eq
    refine ⟨one.kept.trans two.kept, fun k => ?_, ?_, fun isReady k differs mem => ?_⟩
    · rw [two.inputs, one.input (inside rfl)]
      by_cases later : (⟨other, k⟩ : Edge) ∈ edges
      · simp [isId, later]
      · simp [isId, later]
    · rw [two.pending, one.pending, if_pos rfl, filter_filter]
      refine filter_congr fun entry _ => ?_
      by_cases later : (⟨other, entry.1⟩ : Edge) ∈ edges
      · simp [isId, later]
      · simp [isId, later]
        rfl
    · rw [mem_cons] at mem
      rcases mem with first | later
      · refine two.kept.queued ?_
        rw [one.queued]
        simp [isReady]
      · exact two.queued isReady k differs later
  · have others : ∀ k, (⟨other, k⟩ : Edge) ∈ (⟨reader, place⟩ : Edge) :: edges ↔
        (⟨other, k⟩ : Edge) ∈ edges := by
      intro k
      rw [mem_cons, Edge.mk.injEq]
      exact ⟨fun mem => mem.elim (fun first => absurd first.1 eq) fun later => later, .inr⟩
    refine ⟨one.kept.trans two.kept, fun k => ?_, ?_, fun isReady k differs mem => ?_⟩
    · rw [two.inputs, one.inputs, if_neg eq]
      simp only [others]
    · rw [two.pending, one.pending, if_neg eq]
      simp only [others]
    · exact two.queued isReady k differs ((others k).mp mem)

lemma redirect_rewrites (g : Graph) (id : Handle) (edges : List Edge) (src : Option Handle)
    (inside : ∀ edge ∈ edges, ∀ n, g.node? edge.node = some n → edge.pin < n.inputs.length) :
    Rewrites (Redirected id edges (g.live? src) (g.readyFor src)) g (g.redirect id edges src) := by
  rw [redirect]
  induction edges generalizing g with
  | nil =>
    refine Rewrites.of_nodes (fun other n => ⟨.refl n, ?_, ?_, ?_⟩) rfl
    · simp
    · simp
    · simp
  | cons edge edges ih =>
    obtain ⟨reader, place⟩ := edge
    rw [foldl_cons]
    have rest : ∀ edge ∈ edges, ∀ n, g.node? edge.node = some n → edge.pin < n.inputs.length :=
      fun edge mem => inside edge (mem_cons_of_mem _ mem)
    by_cases isId : reader = id
    · rw [if_pos isId]
      refine (ih g rest).imp ?_
      rintro other x y ⟨kept, inputs, pending, queued⟩
      have others : ∀ k, (other ≠ id ∧ (⟨other, k⟩ : Edge) ∈ (⟨reader, place⟩ : Edge) :: edges) ↔
          other ≠ id ∧ (⟨other, k⟩ : Edge) ∈ edges := by
        intro k
        rw [mem_cons, Edge.mk.injEq]
        constructor
        · rintro ⟨differs, ⟨eq, -⟩ | later⟩
          · exact absurd (eq.trans isId) differs
          · exact ⟨differs, later⟩
        · rintro ⟨differs, later⟩
          exact ⟨differs, .inr later⟩
      refine ⟨kept, fun k => ?_, ?_, fun ready k differs mem => ?_⟩
      · rw [inputs]
        simp only [others]
      · rw [pending]
        simp only [others]
      · exact queued ready k differs ((others k).mp ⟨differs, mem⟩).2
    · rw [if_neg isId]
      have keeps := Keeps.connect g reader place src
      have connected := connect_rewrites g reader place src
      have rest' : ∀ edge ∈ edges, ∀ n, (g.connect reader place src).node? edge.node = some n →
          edge.pin < n.inputs.length := by
        intro edge mem n live
        obtain ⟨before, live', step⟩ := connected.earlier live
        have room := rest edge mem before live'
        rw [step.inputs]
        split
        · simp only [length_set, withPins, length_append]
          omega
        · exact room
      have later := ih (g.connect reader place src) rest'
      rw [live?_eq keeps.contains_iff, keeps.readyFor_eq] at later
      have pinInside := inside ⟨reader, place⟩ mem_cons_self
      refine Rewrites.trans (connected.imp_live And.intro) later ?_
      rintro other x y z ⟨live, one⟩ two
      exact .step isId (fun eq => pinInside _ (eq ▸ live)) one two

/-! ## Taking out a node -/

/-- What becomes of a node that stays when `id` is taken out and `new` takes its place. -/
structure Bypassed (id : Handle) (new : Option Handle) (ready : Bool) (before after : Node) :
    Prop where
  kept : Kept before after
  inputs : after.inputs = before.inputs.map fun src => if src = some id then new else src
  pending : after.pending.Sublist before.pending
  waiting : (∀ pin, before.source? pin ≠ some id) → after.pending = before.pending
  queued : ready → ∀ pin, before.source? pin = some id → after.queued

lemma Wired.unlink_nodes (wired : Wired g) (live : g.node? id = some removed)
    (stays : (g.unlink id).node? other = some after) :
    other ≠ id ∧ ∃ before, g.node? other = some before ∧
      Bypassed id (g.live? (replacement? removed))
        (g.readyFor (replacement? removed)) before after := by
  have detached := SameButReaders.detachInputs g id removed.inputs
  have keeps := keeps_detachInputs g id removed.inputs
  have inside : ∀ edge ∈ removed.consumers, ∀ n,
      (g.detachInputs id removed.inputs).node? edge.node = some n → edge.pin < n.inputs.length := by
    intro edge mem n live'
    obtain ⟨before, was, consumers, rfl⟩ := detached.earlier live'
    obtain ⟨reader, found, reads⟩ := wired.read ⟨removed, live, mem⟩
    cases was.symm.trans found
    exact lt_of_getElem? (Option.join_eq_some_iff.mp reads)
  have redirected := redirect_rewrites _ id removed.consumers (replacement? removed) inside
  rw [live?_eq keeps.contains_iff, keeps.readyFor_eq] at redirected
  rw [unlink_eq live, node?_without] at stays
  split at stays
  · cases stays
  next differs =>
    refine ⟨differs, ?_⟩
    obtain ⟨middle, found, moved⟩ := redirected.earlier stays
    obtain ⟨before, found', consumers, rfl⟩ := detached.earlier found
    -- the listed pins are those that read the node
    have listed : ∀ pin, (⟨other, pin⟩ : Edge) ∈ removed.consumers ↔
        before.source? pin = some id := by
      intro pin
      constructor
      · intro mem
        obtain ⟨reader, live', reads⟩ := wired.read ⟨removed, live, mem⟩
        cases found'.symm.trans live'
        exact reads
      · intro reads
        obtain ⟨removed', live', mem⟩ :=
          wired.listed not_false ⟨before, found', reads⟩ (contains_iff.mpr ⟨removed, live⟩)
        cases live.symm.trans live'
        exact mem
    have kept : Kept before after :=
      ⟨moved.kept.behavior, moved.kept.owner, moved.kept.output, moved.kept.queued⟩
    refine ⟨before, found', kept, ?_, ?_, fun unread => ?_, fun ready pin reads => ?_⟩
    · refine ext_getElem? fun k => ?_
      rw [moved.inputs, getElem?_map]
      simp only [listed, source?]
      cases before.inputs[k]? with
      | none => simp
      | some src =>
        by_cases isId : src = some id
        · simp [isId, differs]
        · simp [isId]
    · rw [moved.pending]
      exact filter_sublist
    · rw [moved.pending]
      simp [listed, unread]
    · exact moved.queued ready pin differs ((listed pin).mpr reads)

lemma NodeEdit.detachInputs (g : Graph) (id : Handle) (inputs : List (Option Handle)) :
    NodeEdit g (g.detachInputs id inputs) := by
  rw [Graph.detachInputs]
  generalize inputs.zipIdx = pins
  induction pins generalizing g with
  | nil => exact ⟨_, _, _, rfl⟩
  | cons entry pins ih =>
    obtain ⟨src, pin⟩ := entry
    refine NodeEdit.trans ?_ (ih _)
    cases src <;> exact ⟨_, _, _, rfl⟩

lemma NodeEdit.redirect (g : Graph) (id : Handle) (consumers : List Edge) (src : Option Handle) :
    NodeEdit g (g.redirect id consumers src) := by
  induction consumers generalizing g with
  | nil => exact ⟨_, _, _, rfl⟩
  | cons edge consumers ih =>
    refine NodeEdit.trans ?_ (ih _)
    dsimp only
    split
    · exact ⟨_, _, _, rfl⟩
    · exact .connect g edge.node edge.pin src

lemma unlink_notes (live : g.node? id = some removed) :
    (g.unlink id).previews = g.previews.filter (·.1 != id) ∧
      (g.unlink id).diagnostics = g.diagnostics.clearNode id := by
  have notes := ((NodeEdit.detachInputs g id removed.inputs).trans
    (.redirect _ id removed.consumers (replacement? removed))).notes
  rw [unlink_eq live]
  exact ⟨congrArg (filter _) notes.1, congrArg (DiagnosticChain.clearNode · id) notes.2⟩

end Blockflow.Graph
