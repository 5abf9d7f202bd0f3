import Blockflow.Proofs.Graph.Growth

/-!
# The two ends of an edge

A pin reads its source, and the source lists the pin. `Wired` says that the two agree: a live source
lists exactly the pins that read it, each of them once. All edits keep it, also those that tear
nodes down. Whether the source is there at all is another matter: `Sourced` can be lost when a
pass-through node that reads itself is taken out, since its readers then go on with the node itself.
-/

namespace Blockflow

open List Node

namespace Node

variable {n : Node} {edge other : Edge}

lemma source?_setInput (n : Node) (pin : Nat) (src : Option Handle) (other : Nat) :
    (n.setInput pin src).source? other = if other = pin then src else n.source? other := by
  have room : pin < (withPins n.inputs (pin + 1)).length := by
    simp only [withPins, length_append, length_replicate]
    omega
  show ((withPins n.inputs (pin + 1)).set pin src)[other]?.join = _
  rw [getElem?_set]
  by_cases eq : pin = other
  · rw [if_pos eq, if_pos eq.symm, if_pos room]
    rfl
  · rw [if_neg eq, if_neg (Ne.symm eq), source?, withPins]
    by_cases inside : other < n.inputs.length
    · rw [getElem?_append_left inside]
    · -- the pins that were added read nothing, like those beyond the end
      rw [getElem?_append_right (by omega), getElem?_replicate, getElem?_eq_none (by omega)]
      split <;> rfl

lemma mem_consumers_removeConsumer :
    other ∈ (n.removeConsumer edge).consumers ↔ other ∈ n.consumers ∧ other ≠ edge := by
  simp [removeConsumer]

lemma mem_consumers_addConsumer :
    other ∈ (n.addConsumer edge).consumers ↔ other ∈ n.consumers ∨ other = edge := by
  rw [addConsumer]
  split
  next known =>
    constructor
    · exact .inl
    · rintro (mem | rfl)
      · exact mem
      · exact known
  next => simp

lemma nodup_addConsumer (nodup : n.consumers.Nodup) (edge : Edge) :
    (n.addConsumer edge).consumers.Nodup := by
  rw [addConsumer]
  split
  · exact nodup
  next fresh =>
    refine nodup_append.mpr ⟨nodup, by simp, ?_⟩
    rintro a mem b isEdge rfl
    exact fresh (mem_singleton.mp isEdge ▸ mem)

end Node

namespace Graph

/-- A pin reads a node. -/
def Reads (g : Graph) (id : Handle) (pin : Nat) (src : Handle) : Prop :=
  ∃ n, g.node? id = some n ∧ n.source? pin = some src

/-- A node lists a pin as one that reads it. -/
def Lists (g : Graph) (src : Handle) (edge : Edge) : Prop :=
  ∃ n, g.node? src = some n ∧ edge ∈ n.consumers

section

variable {R : Handle → Node → Node → Prop} {a b : Graph} {id src : Handle} {pin : Nat} {edge : Edge}

lemma Rewrites.reads_iff (rewrites : Rewrites R a b)
    (same : ∀ {id x y}, R id x y → y.inputs = x.inputs) :
    b.Reads id pin src ↔ a.Reads id pin src := by
  constructor
  · rintro ⟨n', live', reads⟩
    obtain ⟨n, live, step⟩ := rewrites.earlier live'
    exact ⟨n, live, by rw [source?, ← same step]; exact reads⟩
  · rintro ⟨n, live, reads⟩
    obtain ⟨n', live', step⟩ := rewrites.later live
    exact ⟨n', live', by rw [source?, same step]; exact reads⟩

lemma Rewrites.lists_iff (rewrites : Rewrites R a b)
    (same : ∀ {id x y}, R id x y → y.consumers = x.consumers) :
    b.Lists src edge ↔ a.Lists src edge := by
  constructor
  · rintro ⟨n', live', mem⟩
    obtain ⟨n, live, step⟩ := rewrites.earlier live'
    exact ⟨n, live, same step ▸ mem⟩
  · rintro ⟨n, live, mem⟩
    obtain ⟨n', live', step⟩ := rewrites.later live
    exact ⟨n', live', same step ▸ mem⟩

lemma SameButReaders.reads_iff (same : SameButReaders a b) :
    b.Reads id pin src ↔ a.Reads id pin src := by
  refine Rewrites.reads_iff same ?_
  rintro _ _ _ ⟨_, rfl⟩
  rfl

end

/-- The edits that leave all edges as they are. -/
abbrev SameEdges : Graph → Graph → Prop :=
  Rewrites fun _ a b => b.inputs = a.inputs ∧ b.consumers = a.consumers

namespace SameEdges

variable {a b c : Graph}

lemma of_nodes (eq : b.nodes = a.nodes) :
    SameEdges a b := Rewrites.of_nodes (fun _ _ => ⟨rfl, rfl⟩) eq

variable (g : Graph) (id : Handle) (pin : Nat)

lemma modifyNode (same : ∀ n, (f n).inputs = n.inputs ∧ (f n).consumers = n.consumers) :
    SameEdges g (g.modifyNode id f) :=
  Rewrites.modifyNode (R := fun _ a b => b.inputs = a.inputs ∧ b.consumers = a.consumers)
    (fun _ _ => ⟨rfl, rfl⟩) g fun n _ => same n

lemma markDirty : SameEdges g (g.markDirty id pin) := by
  refine (markDirty_rewrites g id pin).imp ?_
  rintro other x _ rfl
  split <;> exact ⟨rfl, rfl⟩

lemma addPending (pending : Pending) : SameEdges g (g.addPending id pin pending) := by
  refine (addPending_rewrites g id pin pending).imp ?_
  rintro other x _ rfl
  split <;> exact ⟨rfl, rfl⟩

lemma updateOutput (v : Option Value) : SameEdges g (g.updateOutput id v).2 := by
  refine (updateOutput_rewrites g id v).imp ?_
  rintro _ _ _ ⟨_, _, rfl, -⟩
  exact ⟨rfl, rfl⟩

lemma conclude (result : Except Diagnostic (Option Value)) :
    SameEdges g (Workspace.conclude g id result) := by
  refine (conclude_rewrites g id result).imp ?_
  rintro _ _ _ ⟨_, _, rfl, -⟩
  exact ⟨rfl, rfl⟩

lemma setPreview (param : Handle) (v : Value) : SameEdges g (g.setPreview param v) := by
  refine (setPreview_rewrites g param v).imp ?_
  rintro other x _ rfl
  split <;> exact ⟨rfl, rfl⟩

lemma reads_iff (same : SameEdges a b) {id src : Handle} {pin : Nat} :
    b.Reads id pin src ↔ a.Reads id pin src := Rewrites.reads_iff same And.left

lemma lists_iff (same : SameEdges a b) {edge : Edge} :
    b.Lists src edge ↔ a.Lists src edge := Rewrites.lists_iff same And.right

end SameEdges

variable {other src id : Handle} {pin pin' : Nat} {edge : Edge}

/-! ## Wiring a pin -/

section

variable (g : Graph) (id : Handle) (pin : Nat) (old new : Option Handle)

lemma lists_detach (edge : Edge) {other : Edge} : (g.detach old edge).Lists src other ↔
      g.Lists src other ∧ ¬(old = some src ∧ other = edge) := by
  cases old with
  | none => simp [detach]
  | some old =>
    simp only [detach, Lists, node?_modifyNode]
    by_cases isOld : src = old
    · subst isOld
      cases g.node? src with
      | none => simp
      | some n => simp [mem_consumers_removeConsumer]
    · have other : old ≠ src := Ne.symm isOld
      simp [isOld, other]

lemma lists_attach (edge : Edge) {other : Edge} : (g.attach new edge).Lists src other ↔
      g.Lists src other ∨ (new = some src ∧ g.contains src ∧ other = edge) := by
  cases new with
  | none => simp [attach]
  | some new =>
    simp only [attach, Lists, node?_modifyNode, contains_iff]
    by_cases isNew : src = new
    · subst isNew
      cases g.node? src with
      | none => simp
      | some n => simp [mem_consumers_addConsumer]
    · have other : new ≠ src := Ne.symm isNew
      simp [isNew, other]

lemma reads_rewire : (g.rewire id pin old new).Reads other pin' src ↔
      if other = id ∧ pin' = pin then g.contains id ∧ new = some src
      else g.Reads other pin' src := by
  show (((g.modifyNode id (·.setInput pin new)).detach old ⟨id, pin⟩).attach new ⟨id, pin⟩).Reads
    other pin' src ↔ _
  rw [(SameButReaders.attach _ new ⟨id, pin⟩).reads_iff,
    (SameButReaders.detach _ old ⟨id, pin⟩).reads_iff]
  simp only [Reads, node?_modifyNode, contains_iff]
  by_cases isId : other = id
  · subst isId
    cases g.node? other with
    | none => simp
    | some n =>
      by_cases isPin : pin' = pin
      · simp [source?_setInput, isPin]
      · simp [source?_setInput, isPin]
  · simp [isId]

lemma lists_rewire : (g.rewire id pin old new).Lists src edge ↔
      (g.Lists src edge ∧ ¬(old = some src ∧ edge = ⟨id, pin⟩)) ∨
        (new = some src ∧ g.contains src ∧ edge = ⟨id, pin⟩) := by
  show (((g.modifyNode id (·.setInput pin new)).detach old ⟨id, pin⟩).attach new ⟨id, pin⟩).Lists
    src edge ↔ _
  have set : Rewrites (fun _ x y => y.consumers = x.consumers) g
      (g.modifyNode id (·.setInput pin new)) :=
    .modifyNode (R := fun _ x y => y.consumers = x.consumers) (fun _ _ => rfl) g fun _ _ => rfl
  rw [lists_attach, lists_detach, set.lists_iff fun eq => eq,
    (SameButReaders.detach _ old ⟨id, pin⟩).contains_iff,
    set.contains_iff]

lemma reads_connect : (g.connect id pin new).Reads other pin' src ↔
      if other = id ∧ pin' = pin then g.contains id ∧ g.live? new = some src
      else g.Reads other pin' src := by
  rw [connect_eq]
  cases found : g.node? id with
  | none =>
    dsimp only
    split
    next same =>
      obtain ⟨rfl, rfl⟩ := same
      simp [Reads, contains_iff, found]
    next => rfl
  | some n =>
    dsimp only
    split
    · rw [(SameEdges.markDirty _ id pin).reads_iff]
      exact reads_rewire g id pin _ _
    · exact reads_rewire g id pin _ _

end

/-- A pin that is listed after another was connected was listed before, or is the connected one. -/
lemma lists_connect {g : Graph} {new : Option Handle}
    (lists : (g.connect id pin new).Lists src edge) :
    edge = ⟨id, pin⟩ ∨ g.Lists src edge := by
  rw [connect_eq] at lists
  cases found : g.node? id with
  | none =>
    rw [found] at lists
    exact .inr lists
  | some n =>
    rw [found] at lists
    have wired : (g.rewire id pin (n.source? pin) (g.live? new)).Lists src edge := by
      dsimp only at lists
      split at lists
      · exact (SameEdges.markDirty _ id pin).lists_iff.mp lists
      · exact lists
    rcases (lists_rewire ..).mp wired with ⟨was, -⟩ | ⟨-, -, isEdge⟩
    · exact .inr was
    · exact .inl isEdge

/-- Nothing is listed twice that was not so before. -/
abbrev ListsOnce :
    Graph → Graph → Prop := Rewrites fun _ a b => a.consumers.Nodup → b.consumers.Nodup

namespace ListsOnce

lemma trans (first : ListsOnce a b) (second : ListsOnce b c) : ListsOnce a c :=
  Rewrites.trans first second fun one two nodup => two (one nodup)

lemma of_nodes (eq : b.nodes = a.nodes) : ListsOnce a b :=
  Rewrites.of_nodes (fun _ _ nodup => nodup) eq

variable (g : Graph) (new old : Option Handle) (edge : Edge)

lemma detach : ListsOnce g (g.detach old edge) := by
  cases old with
  | none => exact of_nodes rfl
  | some old => exact Rewrites.modifyNode (fun _ _ nodup => nodup) _ fun _ _ nodup => nodup.filter _

lemma attach : ListsOnce g (g.attach new edge) := by
  cases new with
  | none => exact of_nodes rfl
  | some new =>
    exact Rewrites.modifyNode (fun _ _ nodup => nodup) _ fun _ _ nodup => nodup_addConsumer nodup _

lemma rewire (id : Handle) (pin : Nat) (old new : Option Handle) :
    ListsOnce g (g.rewire id pin old new) := by
  have set : ListsOnce g (g.modifyNode id (·.setInput pin new)) :=
    Rewrites.modifyNode (fun _ _ nodup => nodup) g fun _ _ nodup => nodup
  exact ((set.trans (detach _ old _)).trans (attach _ new _)).trans (of_nodes rfl)

end ListsOnce

/-! ## Wired graphs -/

/-- The edges of a graph agree at both ends, but for those of readers that are about to go. -/
structure WiredBut (Leaving : Handle → Prop) (g : Graph) : Prop where
  wellFormed : g.nodes.WellFormed
  /-- A source is there or was there once, so no new node takes its handle. -/
  issued : ∀ {id pin src}, g.Reads id pin src → g.nodes.Issued src
  listed : ∀ {id pin src}, ¬Leaving id → g.Reads id pin src → g.contains src →
    g.Lists src ⟨id, pin⟩
  read : ∀ {src edge}, g.Lists src edge → g.Reads edge.node edge.pin src
  nodup : ∀ {src n}, g.node? src = some n → n.consumers.Nodup

/-- A live source lists exactly the pins that read it, each of them once. -/
abbrev Wired : Graph → Prop := WiredBut fun _ => False

/-- Every source is there. -/
def Sourced (g : Graph) : Prop :=
  ∀ id pin src, g.Reads id pin src → g.contains src

lemma wired_empty : Wired {} where
  wellFormed := Arena.wellFormed_empty
  issued := by
    rintro id pin src ⟨n, live, -⟩
    cases live
  listed := by
    rintro id pin src - ⟨n, live, -⟩
    cases live
  read := by
    rintro src edge ⟨n, live, -⟩
    cases live
  nodup := by
    intro src n live
    cases live

namespace WiredBut

variable {Leaving : Handle → Prop} {a b g : Graph}

lemma sameEdges (wired : WiredBut Leaving a) (same : SameEdges a b) : WiredBut Leaving b where
  wellFormed := same.wellFormed wired.wellFormed
  issued reads := same.issued (wired.issued (same.reads_iff.mp reads))
  listed stays reads live := same.lists_iff.mpr
    (wired.listed stays (same.reads_iff.mp reads) ((same.contains_iff _).mp live))
  read lists := same.reads_iff.mpr (wired.read (same.lists_iff.mp lists))
  nodup live := by
    obtain ⟨n, live', -, consumers⟩ := same.earlier live
    rw [consumers]
    exact wired.nodup live'

lemma connect (wired : WiredBut Leaving g) {id : Handle} (stays : ¬Leaving id) (pin : Nat)
    (src : Option Handle) : WiredBut Leaving (g.connect id pin src) := by
  rw [connect_eq]
  cases found : g.node? id with
  | none => exact wired
  | some n =>
    have live : g.contains id := contains_iff.mpr ⟨n, found⟩
    have old : ∀ {src}, n.source? pin = some src ↔ g.Reads id pin src := fun {src} =>
      ⟨fun reads => ⟨n, found, reads⟩, fun ⟨n', found', reads⟩ => by
        cases found.symm.trans found'
        exact reads⟩
    generalize new : g.live? src = target
    have isLive : ∀ {src}, target = some src → g.contains src := by
      rintro src rfl
      exact (Option.filter_eq_some_iff.mp new).2
    have keeps := Keeps.rewire g id pin (n.source? pin) target
    have rewired : WiredBut Leaving (g.rewire id pin (n.source? pin) target) := by
      refine ⟨keeps.wellFormed wired.wellFormed, ?_, ?_, ?_, fun live => ?_⟩
      · intro other pin' src reads
        rw [reads_rewire] at reads
        split at reads
        · exact keeps.issued (.inl (isLive reads.2))
        · exact keeps.issued (wired.issued reads)
      · intro other pin' src stays reads contains
        rw [keeps.contains_iff] at contains
        rw [reads_rewire] at reads
        rw [lists_rewire]
        split at reads
        next same =>
          obtain ⟨rfl, rfl⟩ := same
          exact .inr ⟨reads.2, contains, rfl⟩
        next differs =>
          refine .inl ⟨wired.listed stays reads contains, fun ⟨_, isEdge⟩ => differs ?_⟩
          cases isEdge
          exact ⟨rfl, rfl⟩
      · -- an edge of another pin was listed before, and this pin is listed by its new source only
        intro src edge lists
        rw [lists_rewire] at lists
        rw [reads_rewire]
        rcases lists with ⟨lists, other⟩ | ⟨isNew, -, rfl⟩
        · have reads := wired.read lists
          split
          next same =>
            obtain ⟨rfl, rfl⟩ := same
            exact absurd ⟨old.mpr reads, rfl⟩ other
          next => exact reads
        · rw [if_pos ⟨rfl, rfl⟩]
          exact ⟨live, isNew⟩
      · obtain ⟨before, was, once⟩ :=
          (ListsOnce.rewire g id pin (n.source? pin) target).earlier live
        exact once (wired.nodup was)
    dsimp only
    split
    · exact rewired.sameEdges (.markDirty _ id pin)
    · exact rewired

lemma addNode (wired : WiredBut Leaving g) (b : Behavior) (inputs : Nat)
    (owner : Option Handle) : WiredBut Leaving (g.addNode b inputs owner).2 := by
  obtain ⟨wf, fresh, found, issued⟩ := addNode_facts wired.wellFormed b inputs owner
  have stays := @addNode_keeps g wired.wellFormed b inputs owner
  generalize g.addNode b inputs owner = new at wf fresh found issued stays ⊢
  have unread : ∀ pin, (make b inputs owner).source? pin = none := by
    intro pin
    rw [source?, make, getElem?_replicate]
    split <;> rfl
  have reads : ∀ {id pin src}, new.2.Reads id pin src → id ≠ new.1 ∧ g.Reads id pin src := by
    rintro id pin src ⟨n, live, isSource⟩
    rw [found] at live
    split at live
    · cases live
      cases (unread pin).symm.trans isSource
    next other => exact ⟨other, n, live, isSource⟩
  have lists : ∀ {src edge}, new.2.Lists src edge → src ≠ new.1 ∧ g.Lists src edge := by
    rintro src edge ⟨n, live, mem⟩
    rw [found] at live
    split at live
    · cases live
      cases mem
    next other => exact ⟨other, n, live, mem⟩
  refine ⟨wf, fun now => issued _ (wired.issued (reads now).2), ?_, ?_, ?_⟩
  · intro id pin src remains now live
    have was := (reads now).2
    have known : src ≠ new.1 := fun eq => fresh (eq ▸ wired.issued was)
    obtain ⟨provider, live'⟩ := contains_iff.mp live
    rw [found, if_neg known] at live'
    obtain ⟨provider', live'', mem⟩ := wired.listed remains was (contains_iff.mpr ⟨provider, live'⟩)
    exact ⟨provider', stays live'', mem⟩
  · intro src edge now
    obtain ⟨n, live, isSource⟩ := wired.read (lists now).2
    exact ⟨n, stays live, isSource⟩
  · intro src n live
    rw [found] at live
    split at live
    · cases live
      exact nodup_nil
    · exact wired.nodup live

end WiredBut

namespace Sourced

variable {a b g : Graph}

lemma sameEdges (sourced : Sourced a) (same : SameEdges a b) : Sourced b := fun id pin src reads =>
  (same.contains_iff src).mpr (sourced id pin src (same.reads_iff.mp reads))

lemma connect (sourced : Sourced g) (id : Handle) (pin : Nat) (src : Option Handle) :
    Sourced (g.connect id pin src) := by
  intro other pin' target reads
  rw [(Keeps.connect g id pin src).contains_iff]
  rw [reads_connect] at reads
  split at reads
  · exact (Option.filter_eq_some_iff.mp reads.2).2
  · exact sourced other pin' target reads

lemma addNode (sourced : Sourced g) (wf : g.nodes.WellFormed) (b : Behavior)
    (inputs : Nat) (owner : Option Handle) : Sourced (g.addNode b inputs owner).2 := by
  obtain ⟨-, -, found, -⟩ := addNode_facts wf b inputs owner
  rintro id pin src ⟨n, live, isSource⟩
  rw [found] at live
  split at live
  · cases live
    have unread : (make b inputs owner).source? pin = some src := isSource
    rw [source?, make, getElem?_replicate] at unread
    split at unread <;> cases unread
  · obtain ⟨provider, live'⟩ := contains_iff.mp (sourced id pin src ⟨n, live, isSource⟩)
    exact contains_iff.mpr ⟨provider, addNode_keeps wf b inputs owner live'⟩

end Sourced

end Graph

end Blockflow
