import Blockflow.Graph.Settle
import Blockflow.Proofs.Arena

/-!
# Nodes under the edits of a graph

Apart from making and freeing nodes, an edit rewrites nodes in place. `Graph.Rewrites` says what
became of every node; most edits leave alone what a node computes and shows.
-/

namespace Blockflow

open Node

lemma rel_map_eq {x : Option α} {y : Option β} {f : α → γ} {g : β → γ}
    (both : Option.Rel R x y) (same : ∀ a b, R a b → g b = f a) : y.map g = x.map f := by
  cases both with
  | none => rfl
  | some both => exact congrArg some (same _ _ both)

def behaviorOf (g : Graph) (id : Handle) : Option Behavior := (g.node? id).map behavior

/-- A node once its turn has come. -/
abbrev Node.rested (n : Node) : Node := { n with queued := false, dirty := 0 }

abbrev Node.dirtied (pin : Nat) (n : Node) : Node :=
  { n with dirty := n.dirty ||| pinBit pin, queued := true }

/-- The workspace with the diagnostics of a node dropped. -/
abbrev Workspace.cleared (w : Workspace) (id : Handle) : Workspace :=
  { w with graph.diagnostics := w.graph.diagnostics.clearNode id }

namespace Graph

lemma contains_iff {g : Graph} {id : Handle} :
    g.contains id ↔ ∃ n, g.node? id = some n := Arena.contains_iff

lemma node?_modifyNode (g : Graph) (id : Handle) (f : Node → Node) (other : Handle) :
    (g.modifyNode id f).node? other =
      if other = id then (g.node? id).map f else g.node? other :=
  Arena.get?_modify g.nodes id f other

/-- The nodes of the later graph are those of the earlier one, each changed as `R` tells. -/
structure Rewrites (R : Handle → Node → Node → Prop) (before after : Graph) : Prop where
  wellFormed : before.nodes.WellFormed → after.nodes.WellFormed
  issued : ∀ {id}, before.nodes.Issued id → after.nodes.Issued id
  later : ∀ {id n}, before.node? id = some n → ∃ n', after.node? id = some n' ∧ R id n n'
  earlier : ∀ {id n'}, after.node? id = some n' → ∃ n, before.node? id = some n ∧ R id n n'

lemma modifyNode_rewrites (g : Graph) (id : Handle) (f : Node → Node) :
    Rewrites (fun other before after => after = if other = id then f before else before) g
      (g.modifyNode id f) where
  wellFormed wf := wf.modify id f
  issued issued := issued.modify id f
  later {other n} live := by
    refine ⟨_, ?_, rfl⟩
    rw [node?_modifyNode]
    split
    next eq => rw [← eq, live, Option.map_some]
    next => exact live
  earlier {other n'} live := by
    rw [node?_modifyNode] at live
    split at live
    next eq =>
      obtain ⟨n, found, rfl⟩ := Option.map_eq_some_iff.mp live
      exact ⟨n, eq ▸ found, (if_pos eq).symm⟩
    next differs => exact ⟨n', live, (if_neg differs).symm⟩

namespace Rewrites

variable {R R' : Handle → Node → Node → Prop} {a b c : Graph} {S : Handle → Node → Node → Prop}

lemma trans (first : Rewrites R a b) (second : Rewrites R' b c)
    (compose : ∀ {id x y z}, R id x y → R' id y z → S id x z) : Rewrites S a c where
  wellFormed wf := second.wellFormed (first.wellFormed wf)
  issued issued := second.issued (first.issued issued)
  later found := by
    obtain ⟨n, found, one⟩ := first.later found
    obtain ⟨n', found, two⟩ := second.later found
    exact ⟨n', found, compose one two⟩
  earlier found := by
    obtain ⟨n, found, two⟩ := second.earlier found
    obtain ⟨n', found, one⟩ := first.earlier found
    exact ⟨n', found, compose one two⟩

lemma imp_live (rewrites : Rewrites R a b)
    (more : ∀ {id x y}, a.node? id = some x → R id x y → S id x y) :
    Rewrites S a b where
  wellFormed := rewrites.wellFormed
  issued := rewrites.issued
  later found := by
    obtain ⟨n', found', step⟩ := rewrites.later found
    exact ⟨n', found', more found step⟩
  earlier found := by
    obtain ⟨n, was, step⟩ := rewrites.earlier found
    exact ⟨n, was, more was step⟩

lemma imp (rewrites : Rewrites R a b) (more : ∀ {id x y}, R id x y → S id x y) : Rewrites S a b :=
  rewrites.imp_live fun _ => more

lemma rel (rewrites : Rewrites R a b) (id : Handle) :
    Option.Rel (R id) (a.node? id) (b.node? id) := by
  cases found : a.node? id with
  | some n =>
    obtain ⟨n', found', step⟩ := rewrites.later found
    exact found' ▸ .some step
  | none =>
    cases found' : b.node? id with
    | none => exact .none
    | some n' =>
      obtain ⟨n, was, -⟩ := rewrites.earlier found'
      cases found.symm.trans was

lemma map_eq (rewrites : Rewrites R a b) (same : ∀ {id x y}, R id x y → f y = f x)
    (id : Handle) : (b.node? id).map f = (a.node? id).map f :=
  rel_map_eq (rewrites.rel id) fun _ _ => same

lemma of_nodes (holds : ∀ id n, R id n n) (eq : b.nodes = a.nodes) : Rewrites R a b := by
  have equal : ∀ id, b.node? id = a.node? id := fun id => by rw [node?, node?, eq]
  exact ⟨fun wf => eq ▸ wf, fun issued => eq ▸ issued,
    fun found => ⟨_, (equal _).trans found, holds _ _⟩, fun found =>
    ⟨_, (equal _).symm.trans found, holds _ _⟩⟩

lemma same (g : Graph) :
    Rewrites (fun _ before after => after = before) g g := .of_nodes (fun _ _ => rfl) rfl

lemma modifyNode (holds : ∀ id n, R id n n) (g : Graph) {id : Handle}
    (changed : ∀ n, g.node? id = some n → R id n (f n)) : Rewrites R g (g.modifyNode id f) := by
  refine (modifyNode_rewrites g id f).imp_live ?_
  rintro other n _ live rfl
  split
  next eq =>
    subst eq
    exact changed n live
  next => exact holds other n

lemma contains_iff (rewrites : Rewrites R a b) (id : Handle) : b.contains id ↔ a.contains id := by
  rw [Graph.contains_iff, Graph.contains_iff]
  constructor
  · rintro ⟨n', found⟩
    obtain ⟨n, found, -⟩ := rewrites.earlier found
    exact ⟨n, found⟩
  · rintro ⟨n, found⟩
    obtain ⟨n', found, -⟩ := rewrites.later found
    exact ⟨n', found⟩

end Rewrites

lemma markDirty_rewrites (g : Graph) (id : Handle) (pin : Nat) :
    Rewrites (fun other before after => after =
        if other = id then before.dirtied pin
        else before) g (g.markDirty id pin) := by
  rw [markDirty]
  split
  next gone =>
    refine (Rewrites.same g).imp_live ?_
    rintro other _ n live rfl
    rw [if_neg]
    rintro rfl
    cases gone.symm.trans live
  next =>
    have marked := modifyNode_rewrites g id (Node.dirtied pin)
    split
    · exact marked
    · exact { marked with }

lemma addPending_rewrites (g : Graph) (id : Handle) (pin : Nat) (pending : Pending) :
    Rewrites (fun other before after => after = if other = id then
        { before.setPending pin pending with dirty := before.dirty ||| pinBit pin, queued := true }
      else before) g (g.addPending id pin pending) := by
  refine (modifyNode_rewrites g id (·.setPending pin pending)).trans
    (markDirty_rewrites _ id pin) ?_
  rintro other x _ _ rfl rfl
  by_cases eq : other = id
  · simp only [if_pos eq]
    rfl
  · simp only [if_neg eq]

lemma setPreview_rewrites (g : Graph) (param : Handle) (v : Value) :
    Rewrites (fun other before after => after =
      if other = param then { before with dirty := before.dirty ||| pinBit 0, queued :=
        true } else before)
      g (g.setPreview param v) := by
  have marked := markDirty_rewrites
    { g with previews := (param, v) :: g.previews.filter (·.1 != param) } param 0
  exact { marked with }

lemma markEdges_rewrites (g : Graph) (edges : List Edge) : Rewrites (fun other before after =>
      ∃ dirty queued, after = { before with dirty, queued } ∧ (before.queued → queued) ∧
        ∀ pin, (⟨other, pin⟩ : Edge) ∈ edges → queued) g (g.markEdges edges) := by
  induction edges generalizing g with
  | nil => exact .of_nodes (fun _ n => ⟨_, n.queued, rfl, fun queued => queued, nofun⟩) rfl
  | cons edge edges ih =>
    refine (markDirty_rewrites g edge.node edge.pin).trans (ih _) ?_
    rintro other x _ _ rfl ⟨dirty, queued, rfl, kept, marked⟩
    by_cases same : other = edge.node
    · rw [if_pos same] at kept ⊢
      exact ⟨dirty, queued, rfl, fun _ => kept rfl, fun _ _ => kept rfl⟩
    · rw [if_neg same] at kept ⊢
      refine ⟨dirty, queued, rfl, kept, fun pin mem => ?_⟩
      rcases List.mem_cons.mp mem with rfl | later
      · exact absurd rfl same
      · exact marked pin later

/-- The new output of a node, which is kept if it is the same. -/
def refresh (output v : Option Value) : Option Value := if sameOutput output v then output else v

/-- What becomes of the nodes when a node gets a value: its output is refreshed, and its readers
wait to be evaluated if it changes. -/
def Refreshed (g : Graph) (id : Handle) (v : Option Value) (other : Handle) (before after : Node) :
    Prop :=
  ∃ dirty queued, after = { before with
      dirty, queued, output := if other = id then refresh before.output v else before.output } ∧
    (before.queued → queued) ∧ ∀ {n pin}, g.node? id = some n →
      sameOutput n.output v = false → (⟨other, pin⟩ : Edge) ∈ n.consumers → queued

lemma updateOutput_rewrites (g : Graph) (id : Handle) (v : Option Value) :
    Rewrites (Refreshed g id v) g (g.updateOutput id v).2 := by
  rw [updateOutput]
  cases live : g.node? id with
  | none =>
    refine (Rewrites.same g).imp_live ?_
    rintro other _ before was rfl
    refine ⟨before.dirty, before.queued, ?_, fun queued => queued,
      fun found => nomatch live.symm.trans found⟩
    rw [if_neg]
    rintro rfl
    cases live.symm.trans was
  | some n =>
    dsimp only
    split
    next kept =>
      refine (Rewrites.same g).imp_live ?_
      rintro other _ before was rfl
      refine ⟨before.dirty, before.queued, ?_, fun queued => queued, fun found changed => ?_⟩
      · split
        next isId =>
          subst isId
          cases live.symm.trans was
          rw [refresh, if_pos kept]
        next => rfl
      · cases live.symm.trans found
        cases kept.symm.trans changed
    next changed =>
      have stored : Rewrites (fun other before after => after = { before with
            output := if other = id then refresh before.output v else before.output })
          g (g.modifyNode id fun n => { n with output := v }) := by
        refine (modifyNode_rewrites g id _).imp_live ?_
        rintro other before _ was rfl
        split
        next isId =>
          subst isId
          cases live.symm.trans was
          rw [refresh, if_neg changed]
        next => rfl
      refine stored.trans (markEdges_rewrites _ n.consumers) ?_
      rintro other x _ _ rfl ⟨dirty, queued, rfl, kept, marked⟩
      refine ⟨dirty, queued, rfl, kept, fun found _ => ?_⟩
      cases live.symm.trans found
      exact marked _

/-- What a node shows after its evaluation. -/
def shownBy : Except Diagnostic (Option Value) → Option Value
  | .ok v => v
  | .error _ => none

lemma conclude_rewrites (g : Graph) (id : Handle) (result : Except Diagnostic (Option Value)) :
    Rewrites (Refreshed g id (shownBy result)) g (Workspace.conclude g id result) := by
  cases result with
  | ok v => exact updateOutput_rewrites g id v
  | error d =>
    have noted := updateOutput_rewrites
      { g with diagnostics := g.diagnostics.push (Workspace.locate g id d) } id none
    exact { noted with }

lemma node?_markDirty (g : Graph) (id : Handle) (pin : Nat) (other : Handle) :
    (g.markDirty id pin).node? other =
      if other = id then
        (g.node? id).map (dirtied pin)
      else g.node? other := by
  rw [markDirty]
  cases found : g.node? id with
  | none =>
    by_cases eq : other = id
    · rw [if_pos eq, eq, found, Option.map_none]
    · rw [if_neg eq]
  | some n =>
    have modified := node?_modifyNode g id (dirtied pin) other
    rw [found] at modified
    rw [← modified]
    dsimp only
    split <;> rfl

/-! ## What edits leave alone -/

/-- What a node computes and shows is as before, and a node that waits goes on waiting. -/
structure Kept (before after : Node) : Prop where
  behavior : after.behavior = before.behavior
  owner : after.owner = before.owner
  output : after.output = before.output
  queued : before.queued → after.queued

/-- What is idle now was idle before, where all that was queued still is. -/
lemma idle_of_queued {before after : Bool} (queued : before → after) (idle : after = false) :
    before = false := by
  cases before with
  | false => rfl
  | true => cases idle.symm.trans (queued rfl)

lemma Kept.refl (n : Node) : Kept n n := ⟨rfl, rfl, rfl, fun queued => queued⟩

lemma Kept.trans {x y z : Node} (first : Kept x y) (second : Kept y z) : Kept x z :=
  ⟨second.behavior.trans first.behavior, second.owner.trans first.owner,
    second.output.trans first.output, fun queued => second.queued (first.queued queued)⟩

/-! ## Connecting -/

def detach (g : Graph) (src : Option Handle) (edge : Edge) : Graph :=
  match src with
  | some src => g.modifyNode src (·.removeConsumer edge)
  | none => g

def attach (g : Graph) (src : Option Handle) (edge : Edge) : Graph :=
  match src with
  | some src => g.modifyNode src (·.addConsumer edge)
  | none => g

/-- A pin that read `old` reads `src`, and both ends know. -/
def rewire (g : Graph) (id : Handle) (pin : Nat) (old src : Option Handle) : Graph :=
  (((g.modifyNode id (·.setInput pin src)).detach old ⟨id, pin⟩).attach src ⟨id, pin⟩).touch

/-- The readers of nodes may change, and nothing else. -/
abbrev SameButReaders : Graph → Graph → Prop :=
  Rewrites fun _ before after => ∃ consumers, after = { before with consumers }

namespace SameButReaders

lemma refl (g : Graph) : SameButReaders g g := Rewrites.of_nodes (fun _ n => ⟨n.consumers, rfl⟩) rfl

lemma trans {a b c : Graph} (first : SameButReaders a b) (second : SameButReaders b c) :
    SameButReaders a c :=
  Rewrites.trans first second fun ⟨_, one⟩ ⟨consumers, two⟩ => ⟨consumers, by rw [two, one]⟩

lemma detach (g : Graph) (old : Option Handle) (edge : Edge) :
    SameButReaders g (g.detach old edge) := by
  cases old with
  | none => exact refl g
  | some old =>
    refine Rewrites.modifyNode (fun _ n => ⟨n.consumers, rfl⟩) g fun n _ => ?_
    exact ⟨n.consumers.filter (· != edge), rfl⟩

lemma attach (g : Graph) (new : Option Handle) (edge : Edge) :
    SameButReaders g (g.attach new edge) := by
  cases new with
  | none => exact refl g
  | some new =>
    refine Rewrites.modifyNode (fun _ n => ⟨n.consumers, rfl⟩) g fun n _ => ?_
    rw [addConsumer]
    split
    · exact ⟨n.consumers, rfl⟩
    · exact ⟨n.consumers ++ [edge], rfl⟩

lemma detachInputs (g : Graph) (id : Handle) (inputs : List (Option Handle)) :
    SameButReaders g (g.detachInputs id inputs) := by
  rw [Graph.detachInputs]
  generalize inputs.zipIdx = pins
  induction pins generalizing g with
  | nil => exact refl g
  | cons entry pins ih => exact (detach g entry.1 ⟨id, entry.2⟩).trans (ih _)

end SameButReaders

lemma rewire_rewrites (g : Graph) (id : Handle) (pin : Nat) (old new : Option Handle) :
    Rewrites (fun other before after => ∃ consumers, after =
      { (if other = id then before.setInput pin new else before) with consumers }) g
      (g.rewire id pin old new) := by
  have set := modifyNode_rewrites g id (·.setInput pin new)
  have listed := (SameButReaders.detach (g.modifyNode id (·.setInput pin new)) old ⟨id, pin⟩).trans
    (SameButReaders.attach _ new ⟨id, pin⟩)
  have touched :=
    listed.trans (.of_nodes (b := g.rewire id pin old new) (fun _ n => ⟨n.consumers, rfl⟩) rfl)
  refine set.trans touched ?_
  rintro other x y z rfl ⟨consumers, rfl⟩
  exact ⟨consumers, rfl⟩

/-- Connecting a pin wires it, and wakes its node unless the source shows no value. -/
lemma connect_eq (g : Graph) (id : Handle) (pin : Nat) (src : Option Handle) :
    g.connect id pin src =
      match g.node? id with
      | none => g
      | some n =>
        let wired := g.rewire id pin (n.source? pin) (g.live? src)
        if (g.live? src).all fun src => (wired.output? src).isSome then wired.markDirty id pin
        else wired := by
  rw [connect]
  cases g.node? id with
  | none => rfl
  | some n => cases g.live? src <;> rfl

/-- The edits that leave every node what it computes and shows. -/
abbrev Keeps : Graph → Graph → Prop := Rewrites fun _ => Kept

namespace Keeps

variable {a b c : Graph}

variable (g : Graph) (id : Handle) (pin : Nat) (src : Option Handle) (edge : Edge)

lemma refl (a : Graph) : Keeps a a := Rewrites.of_nodes (fun _ => Kept.refl) rfl

lemma trans (first : Keeps a b) (second : Keeps b c) : Keeps a c :=
  Rewrites.trans first second Kept.trans

lemma modifyNode {f : Node → Node} (kept : ∀ n, Kept n (f n)) : Keeps g (g.modifyNode id f) :=
  Rewrites.modifyNode (fun _ => Kept.refl) g fun n _ => kept n

lemma of_nodes (eq : b.nodes = a.nodes) : Keeps a b := Rewrites.of_nodes (fun _ => Kept.refl) eq

lemma markDirty : Keeps g (g.markDirty id pin) := by
  refine (markDirty_rewrites g id pin).imp ?_
  rintro other x _ rfl
  split
  · exact ⟨rfl, rfl, rfl, fun _ => rfl⟩
  · exact .refl x

lemma addPending (pending : Pending) : Keeps g (g.addPending id pin pending) := by
  refine (addPending_rewrites g id pin pending).imp ?_
  rintro other x _ rfl
  split
  · exact ⟨rfl, rfl, rfl, fun _ => rfl⟩
  · exact .refl x

lemma of_readers (same : SameButReaders a b) : Keeps a b := by
  refine same.imp ?_
  rintro _ x _ ⟨consumers, rfl⟩
  exact ⟨rfl, rfl, rfl, fun queued => queued⟩

lemma rewire (old src : Option Handle) : Keeps g (g.rewire id pin old src) := by
  refine (rewire_rewrites g id pin old src).imp ?_
  rintro other x _ ⟨consumers, rfl⟩
  split <;> exact ⟨rfl, rfl, rfl, fun queued => queued⟩

lemma output?_eq (keeps : Keeps a b) (id : Handle) : b.output? id = a.output? id := by
  have outputs := congrArg (Option.bind · fun output => output) (keeps.map_eq Kept.output id)
  simp only [Option.bind_map] at outputs
  exact outputs

lemma connect : Keeps g (g.connect id pin src) := by
  rw [connect_eq]
  split
  · exact refl g
  · dsimp only
    split
    · exact (rewire g id pin _ _).trans (markDirty _ id pin)
    · exact rewire g id pin _ _

end Keeps

/-- The edits that leave every node what it computes. -/
abbrev SameBehaviors : Graph → Graph → Prop := Rewrites fun _ a b => b.behavior = a.behavior

lemma Keeps.sameBehaviors {a b : Graph} (keeps : Keeps a b) :
    SameBehaviors a b := keeps.imp Kept.behavior

namespace SameBehaviors

variable {a b c : Graph}

lemma modifyNode (g : Graph) (id : Handle) {f : Node → Node}
    (same : ∀ n, (f n).behavior = n.behavior) : SameBehaviors g (g.modifyNode id f) :=
  Rewrites.modifyNode (R := fun _ a b => b.behavior = a.behavior) (fun _ _ => rfl) g fun n _ =>
    same n

lemma behaviorOf_eq (same : SameBehaviors a b) (id : Handle) : behaviorOf b id = behaviorOf a id :=
  same.map_eq (fun same => same) id

end SameBehaviors

/-! ## What edits of nodes leave alone -/

/-- The previews and the diagnostics are as before. -/
def SameNotes (before after : Graph) : Prop :=
  after.previews = before.previews ∧ after.diagnostics = before.diagnostics

lemma SameNotes.trans {a b c : Graph} (first : SameNotes a b) (second : SameNotes b c) :
    SameNotes a c :=
  ⟨second.1.trans first.1, second.2.trans first.2⟩

/-- The expansions are as before, too. -/
def NodeEdit (before after : Graph) : Prop :=
  ∃ nodes worklist gen, after = { before with nodes, worklist, generation := gen }

variable (g : Graph) (id : Handle) (pin : Nat)

namespace NodeEdit

variable {a b c : Graph}

lemma trans (first : NodeEdit a b) (second : NodeEdit b c) : NodeEdit a c := by
  obtain ⟨_, _, _, rfl⟩ := first
  obtain ⟨_, _, _, rfl⟩ := second
  exact ⟨_, _, _, rfl⟩

lemma notes (edit : NodeEdit a b) : SameNotes a b := by
  obtain ⟨_, _, _, rfl⟩ := edit
  exact ⟨rfl, rfl⟩

lemma expansions (edit : NodeEdit a b) : b.expansions = a.expansions := by
  obtain ⟨_, _, _, rfl⟩ := edit
  rfl

lemma markDirty : NodeEdit g (g.markDirty id pin) := by
  rw [Graph.markDirty]
  split
  · exact ⟨_, _, _, rfl⟩
  · split <;> exact ⟨_, _, _, rfl⟩

lemma connect (src : Option Handle) : NodeEdit g (g.connect id pin src) := by
  have rewired : ∀ old new, NodeEdit g (g.rewire id pin old new) := by
    intro old new
    cases old <;> cases new <;> exact ⟨_, _, _, rfl⟩
  rw [connect_eq]
  split
  · exact ⟨_, _, _, rfl⟩
  · dsimp only
    split
    · exact (rewired _ _).trans (markDirty _ id pin)
    · exact rewired _ _

lemma markEdges (edges : List Edge) : NodeEdit g (g.markEdges edges) := by
  induction edges generalizing g with
  | nil => exact ⟨_, _, _, rfl⟩
  | cons edge edges ih => exact (markDirty g edge.node edge.pin).trans (ih _)

lemma updateOutput (v : Option Value) : NodeEdit g (g.updateOutput id v).2 := by
  rw [Graph.updateOutput]
  split
  · exact ⟨_, _, _, rfl⟩
  · split
    · exact ⟨_, _, _, rfl⟩
    · exact trans ⟨_, _, _, rfl⟩ (markEdges _ _)

end NodeEdit

lemma addNode_notes (b : Behavior) (inputs : Nat) (owner : Option Handle) :
    SameNotes g (g.addNode b inputs owner).2 := by
  refine SameNotes.trans ?_ (NodeEdit.markDirty _ _ 0).notes
  cases owner <;> exact ⟨rfl, rfl⟩

/-! ## New nodes -/

/-- A new node was not there before, waits to be evaluated and is unconnected; no other node
changes. -/
lemma addNode_facts {g : Graph} (wf : g.nodes.WellFormed) (b : Behavior) (inputs : Nat)
    (owner : Option Handle) : (g.addNode b inputs owner).2.nodes.WellFormed ∧
      ¬g.nodes.Issued (g.addNode b inputs owner).1 ∧
      (∀ other, (g.addNode b inputs owner).2.node? other =
        if other = (g.addNode b inputs owner).1 then
          some { make b inputs owner with dirty := pinBit 0, queued := true }
        else g.node? other) ∧
      ∀ other, g.nodes.Issued other → (g.addNode b inputs owner).2.nodes.Issued other := by
  obtain ⟨wf', fresh, found, issued⟩ := Arena.alloc_facts wf (make b inputs owner)
  -- the expansions do not matter for the nodes
  obtain ⟨g', eq, added⟩ : ∃ g' : Graph, g'.nodes = (g.nodes.alloc (make b inputs owner)).2 ∧
        (g.addNode b inputs owner).2 = g'.markDirty (g.nodes.alloc (make b inputs owner)).1 0 := by
    cases owner <;> exact ⟨_, rfl, rfl⟩
  have keeps := Keeps.markDirty g' (g.nodes.alloc (make b inputs owner)).1 0
  have first : (g.addNode b inputs owner).1 =
      (g.nodes.alloc (make b inputs owner)).1 := by cases owner <;> rfl
  rw [added, first]
  refine ⟨keeps.wellFormed (eq ▸ wf'), fresh, fun other => ?_, fun other was =>
    keeps.issued (eq ▸ issued other was)⟩
  rw [node?_markDirty]
  simp only [node?, eq, found]
  split <;> simp [make]

lemma addNode_keeps {g : Graph} (wf : g.nodes.WellFormed) (b : Behavior) (inputs : Nat)
    (owner : Option Handle) {id : Handle} {n : Node} (live : g.node? id = some n) :
    (g.addNode b inputs owner).2.node? id = some n := by
  obtain ⟨-, fresh, found, -⟩ := addNode_facts wf b inputs owner
  rw [found, if_neg]
  · exact live
  · rintro rfl
    exact fresh (.inl (contains_iff.mpr ⟨n, live⟩))

end Graph

end Blockflow
