import Blockflow.Proofs.Expand.Clearing
import Blockflow.Proofs.Graph.Operations
import Blockflow.Stored.Cache

/-!
# The life of expansions

Expansions are torn down when the last output of their block is removed, and when their circuit
changes; a root is made anew in its place, or loses all but its parameters and outputs if that
fails. In every graph that a host can bring about the expansions form a forest: nodes are listed by
the expansion that they were made for, nested expansions are the ones that the blocks of their call
sites have, and tearing an expansion down takes out what is nested in it, and nothing else.
-/

namespace Blockflow

open List Option Expansion Graph Operation Relation

namespace Graph

variable {Known : String → Prop} {a g : Graph} {id : Handle} {e : Expansion}

namespace Forest

lemma detach (forest : a.Forest Known) (found : a.expansion? id = some e) (block : Nat)
    (childless : state.child? = none) :
    ((a.modifyExpansion id (·.setBlock block state)).teardownAll
      (e.stateOf block).child?.toList).Forest Known := by
  let change : Handle → Expansion → Expansion :=
    fun x => if x = id then (·.setBlock block state) else fun e => e
  let Out : Handle → Prop := fun x => ∃ child, (e.stateOf block).child? = some child ∧
    a.Within child x
  have began : Clears change (fun _ => False) (fun _ => False) a
      (a.modifyExpansion id (·.setBlock block state)) :=
    .modify forest.nodes forest.expansions id _
  have cleared : Clears change Out Out a
      ((a.modifyExpansion id (·.setBlock block state)).teardownAll
        (e.stateOf block).child?.toList) := by
    cases isChild : (e.stateOf block).child? with
    | none =>
      have nothing : ∀ x, Out x ↔ False := by simp [Out, isChild]
      exact began.congr nothing nothing
    | some child =>
      have same : ∀ x, Out x ↔ False ∨ a.Within child x := by simp [Out, isChild]
      refine (forest.teardown_clears began (fun x within e' => ?_)
        (.inr fun _ _ => not_false)).congr same same
      refine congrFun (if_neg ?_) e'
      rintro rfl
      exact forest.not_within_child found (mem_children.mpr ⟨block, isChild⟩) within
  refine forest.clears cleared (cleared.housed forest.housed fun {x e'} _ _ => ?_)
    (fun {x e'} live _ => ?_) ?_
  · simp only [change]
    split <;> rfl
  · by_cases isId : x = id
    · subst isId
      cases found.symm.trans live
      rw [show change x e = e.setBlock block state from congrFun (if_pos rfl) e]
      refine ⟨rfl, rfl, fun place => ?_, fun anchored => anchored⟩
      rw [child?_setBlock]
      split
      next here =>
        refine .inr ⟨childless, fun child isChild => ?_⟩
        rw [here.1] at isChild
        cases gone : a.expansion? child with
        | none => exact .inl rfl
        | some inner => exact .inr ⟨child, isChild, within_self gone⟩
      next => exact .inl rfl
    · rw [show change x e' = e' from congrFun (if_neg isId) e']
      exact .refl e'
  · rintro x e' site rest live isParents ⟨child, isChild, within⟩
    exact ⟨child, isChild, forest.within_trans within (within_site live isParents)⟩

lemma nestedBlockOf?_state {outs : List Handle} {hidden child : Option Handle}
    (found : nestedBlockOf? e n = some (block, outs, hidden, child)) : e.stateOf
      block = .nested outs hidden child := by
  obtain ⟨⟨state, place⟩, mem, isBlock⟩ := exists_of_findSome?_eq_some found
  cases state with
  | unmade | made => cases isBlock
  | nested outs' hidden' child' =>
    dsimp only at isBlock
    split at isBlock
    · cases isBlock
      have isState := mk_mem_zipIdx_iff_getElem?.mp mem
      rw [Array.getElem?_toList] at isState
      rw [stateOf, isState]
      rfl
    · cases isBlock

lemma releaseNested (forest : g.Forest Known) (owner n : Handle) :
    (g.releaseNested owner n).Forest Known := by
  rw [Graph.releaseNested]
  split
  · exact forest
  next block outs hidden child isBlock =>
    obtain ⟨e, found, isNested⟩ := bind_eq_some_iff.mp isBlock
    split
    · exact forest
    · -- taking the hidden node out and changing the block touch different things
      let changed := g.modifyExpansion owner (·.setBlock block .unmade)
      have drops := unlinkAll_drops changed hidden.toList
      let between : Graph := { changed.unlinkAll hidden.toList with expansions := g.expansions }
      have dropped : Drops (· ∈ hidden.toList) g between :=
        ⟨drops.wellFormed, drops.issued, rfl, drops.gone, drops.earlier, drops.later⟩
      have eq : changed.unlinkAll hidden.toList =
          between.modifyExpansion owner (·.setBlock block .unmade) := by
        show changed.unlinkAll hidden.toList =
          { changed.unlinkAll hidden.toList with
            expansions := g.expansions.modify owner (·.setBlock block .unmade) }
        rw [show g.expansions.modify owner (·.setBlock block .unmade) =
          (changed.unlinkAll hidden.toList).expansions from drops.expansions.symm]
      have isState := nestedBlockOf?_state isNested
      have detached :=
        (forest.drops dropped).detach (show between.expansion? owner = some e from found) block
        (show BlockState.child? .unmade = none from rfl)
      rw [isState, ← eq] at detached
      exact detached

lemma remove (forest : g.Forest Known) (id : Handle) : (g.remove id).Forest Known := by
  rw [Graph.remove]
  split
  · exact forest
  · have unlinked := forest.drops (unlink_drops g id)
    split
    · exact unlinked.releaseNested _ id
    · exact unlinked

lemma wired (forest : a.Forest Known) (owners : SameOwners a b)
    (expansions : b.expansions = a.expansions) :
    b.Forest Known := forest.drops (.of_owners owners expansions)

variable (forest : g.Forest Known)
include forest

lemma expandAgain (site : CallSite) : (g.expandAgain site).Forest Known := by
  have awaits : ∀ (ids : List Handle) {g : Graph}, g.Forest Known →
      (ids.foldl awaitNested g).Forest Known := by
    intro ids
    induction ids with
    | nil => exact fun forest => forest
    | cons id ids ih =>
      intro g forest
      refine ih ?_
      rw [awaitNested]
      split
      · exact forest.wired (Keeps.addPending g id 0 _).sameOwners (expansions_addPending g id 0 _)
      · exact forest
  rw [Graph.expandAgain]
  split
  next outs hidden child isNested =>
    obtain ⟨e, found, isState⟩ := map_eq_some_iff.mp isNested
    have detached :=
      forest.detach found site.block (show BlockState.child? (.nested outs hidden none) =
        none from rfl)
    rw [isState] at detached
    exact awaits _ detached
  · exact forest

lemma addPendingLinks (links : List (Handle × String)) :
    (links.foldl (fun (g : Graph) (n, link) => g.addPendingLink n 0 link) g).Forest Known := by
  induction links generalizing g with
  | nil => exact forest
  | cons entry links ih =>
    refine ih ?_
    show (g.addPendingLink entry.1 0 entry.2).Forest Known
    rw [addPendingLink]
    split
    · exact forest
    · exact forest.wired (Keeps.addPending g entry.1 0 _).sameOwners
        (expansions_addPending g entry.1 0 _)

/-- A root that lost all but some of its nodes, and everything nested in it, starts over as an
instance of a circuit of the same name. -/
lemma replace (found : g.expansion? id = some e)
    (isRoot : e.parents = []) (bare : ∀ child ∈ e.children, g.expansion? child = none)
    (name : fresh.circuit.name = e.circuit.name) (parents : fresh.parents = [])
    (childless : ∀ block, (fresh.stateOf block).child? = none) (anchored : fresh.Anchored)
    (members : ∀ node ∈ fresh.members, node ∈ e.members)
    (kept : ∀ {n node}, g.node? n = some node → node.owner = some id → n ∈ fresh.members) :
    (g.modifyExpansion id fun _ => fresh).Forest Known := by
  have cases : ∀ {x e'}, (g.modifyExpansion id fun _ => fresh).expansion? x = some e' →
      x = id ∧ e' = fresh ∨ x ≠ id ∧ g.expansion? x = some e' := by
    intro x e' isNow
    rw [expansion?_modify] at isNow
    split at isNow
    next eq =>
      rw [found] at isNow
      cases isNow
      exact .inl ⟨eq, rfl⟩
    next differs => exact .inr ⟨differs, isNow⟩
  refine forest.modify rfl forest.nodes ⟨fun isForm isOwner isNow => ?_, fun isNow mem isForm => ?_,
    fun isNow mem => ?_⟩ forest.owned fun e' live => ?_
  · rcases cases isNow with ⟨rfl, rfl⟩ | ⟨-, was⟩
    · obtain ⟨node, live, rfl⟩ := map_eq_some_iff.mp isForm
      exact kept live isOwner
    · exact forest.housed.listed isForm isOwner was
  · rcases cases isNow with ⟨rfl, rfl⟩ | ⟨-, was⟩
    · exact forest.housed.owns found (members _ mem) isForm
    · exact forest.housed.owns was mem isForm
  · rcases cases isNow with ⟨rfl, rfl⟩ | ⟨-, was⟩
    · exact forest.housed.issued found (members _ mem)
    · exact forest.housed.issued was mem
  · cases found.symm.trans live
    exact ⟨name, parents.trans isRoot.symm, fun block => .inr ⟨childless block, fun child isChild =>
      .inl (bare child (mem_children.mpr ⟨block, isChild⟩))⟩, fun _ => anchored⟩

lemma rebuildRoot (circuits : List Circuit) (found : g.expansion? id = some e)
    (isRoot : e.parents = []) : (g.rebuildRoot circuits id).Forest Known := by
  rw [Graph.rebuildRoot, found]
  dsimp only
  have cleared := forest.teardownAll_clears found
  have torn : (g.teardownAll e.children).Forest Known := by
    refine forest.clears cleared (cleared.housed forest.housed fun _ _ => rfl)
      (fun _ _ => .refl _) ?_
    rintro x e' site rest live isParents ⟨child, isChild, within⟩
    exact ⟨child, isChild, forest.within_trans within (within_site live isParents)⟩
  have drops :=
    unlinkAll_drops (g.teardownAll e.children) (e.members.toList.filter (· ∉ e.params ++ e.anchors))
  have emptied := torn.drops drops
  have outside : ¬∃ child ∈ e.children, g.Within child id := by
    rintro ⟨child, isChild, within⟩
    exact forest.not_within_child found isChild within
  have stays : (g.teardownAll e.children).expansion? id = some e := by
    rw [cleared.kept outside, found, map_some]
  rw [← expansion?_of_expansions drops.expansions] at stays
  split
  · exact emptied.wired (Rewrites.of_nodes (fun _ _ => rfl) rfl) rfl
  next fresh isFresh =>
    obtain ⟨c, isCircuit, made⟩ : ∃ c, findCircuit? circuits e.circuit.name = some c ∧
        make c [] e.arguments = .ok fresh := by
      rw [freshRoot] at isFresh
      split at isFresh
      next c isCircuit => exact ⟨c, isCircuit, isFresh⟩
      next => cases isFresh
    obtain ⟨sameCircuit, parents, -, -, childless⟩ := make_facts made
    refine addPendingLinks
      (emptied.replace stays isRoot (fun child isChild => ?_) ?_ ?_ ?_ (fun node mem => ?_)
      (fun node mem => ?_) fun {n node} live isOwner => ?_) _
    · rw [expansion?_of_expansions drops.expansions]
      by_cases out : ∃ child' ∈ e.children, g.Within child' child
      · exact cleared.gone out
      · rw [cleared.kept out, Option.map_id', Option.eq_none_iff_forall_ne_some]
        exact fun inner isInner => out ⟨child, isChild, within_self isInner⟩
    · rw [sameCircuit]
      simpa using find?_some isCircuit
    · exact parents
    · exact childless
    · exact mem_toArray.mpr mem
    · exact forest.anchored found node (mem_toArray.mp mem)
    · refine mem_toArray.mpr (by_contra fun lost => ?_)
      have listed := (emptied.mem_members_iff stays live).mpr isOwner
      have gone := drops.gone (mem_filter.mpr ⟨listed, by simpa using lost⟩)
      cases gone.symm.trans live

lemma redefineAt (circuits : List Circuit) (id : Handle) :
    (g.redefineAt circuits id).Forest Known := by
  rw [Graph.redefineAt]
  split
  · exact forest
  next e found =>
    split
    · exact forest.expandAgain _
    next isRoot => exact forest.rebuildRoot circuits found (head?_eq_none_iff.mp isRoot)

/-- Starting the expansions of a circuit over keeps the forest, whether the circuit is fine or
not. -/
lemma redefine (circuits : List Circuit) (name : String) :
    (g.redefine circuits name).Forest Known := by
  rw [Graph.redefine]
  generalize (g.expansions.toList.filter (·.2.circuit.name == name)).map (·.1) = affected
  induction affected generalizing g with
  | nil => exact forest
  | cons id affected ih => exact ih (forest.redefineAt circuits id)

end Forest

end Graph

/-! ## What hosts do -/

/-- The workspaces that a host brings about from empty graphs: it carries out operations,
instantiates circuits with stored constants and uses the store elsewhere; `Allowed` says what is
looked up, which may change at any time. -/
inductive Managed (Allowed : Environment → Prop) : Workspace → Prop where
  | start (store : Store) : Managed Allowed { store }
  | operation {env : Environment} {w : Workspace} (op : Operation) (allowed : Allowed env)
      (managed : Managed Allowed w) : Managed Allowed (op.apply env w)
  | instantiateCached {env : Environment} {w : Workspace} (name : String) (cache : ConstantCache)
      (allowed : Allowed env) (managed : Managed Allowed w) :
      Managed Allowed ((cache.instantiate env.library name).run w).2
  | store {w : Workspace} (store : Store) (managed : Managed Allowed w) : Managed Allowed
      { w with store }

lemma ConstantCache.instantiate_unfolding (wf : start.expansions.WellFormed)
    (name : String) (cache : ConstantCache) : Unfolding lib start (cache.instantiate lib name) := by
  have constants : ∀ vs, Unfolding lib start (addConstants vs) := by
    intro vs
    induction vs with
    | nil => exact .pure _
    | cons entry vs ih =>
      obtain ⟨_, v⟩ := entry
      exact .bind (Unfolding.of_step fun w _ => .addNode (.const v) 0 fun _ none => nomatch none)
        fun n =>
        .bind ih fun _ => .pure _
  rw [instantiate]
  split
  · exact .fail _
  · dsimp only
    split
    · exact Expand.instantiate_unfolding wf name []
    · refine .bind (Effect.Keeps.attempt (Unfolding.onStore _)) fun restored => ?_
      split
      · exact Expand.instantiate_unfolding wf name []
      · exact .bind (constants _) fun _ => .pure _

section

variable {Allowed : Environment → Prop} {Known : String → Prop} {w : Workspace}

lemma Graph.Forest.apply (assembles : env.library.Assembles)
    (known : ∀ c ∈ env.library.circuits, Known c.name) (forest : w.graph.Forest Known)
    (op : Operation) : (op.apply env w).graph.Forest Known := by
  cases op with
  | addNode b inputs =>
    exact forest.step known (.addNode b inputs fun _ none => nomatch none)
  | connect id pin src =>
    exact forest.wired (Keeps.connect w.graph id pin src).sameOwners
      (expansions_connect w.graph id pin src)
  | setPreview param v =>
    exact forest.wired (Keeps.setPreview w.graph param v).sameOwners
      (expansions_setPreview w.graph param v)
  | remove id => exact forest.remove id
  | instantiate name args =>
    exact forest.unfolds known (Expand.instantiate_unfolding forest.expansions name args).after
  | redefine name => exact forest.redefine env.library.circuits name
  | tick steps =>
    exact forest.unfolds known (Workspace.tick_unfolds assembles forest.expansions steps)
  | settle limit =>
    exact forest.unfolds known (Workspace.settle_unfolds assembles forest.expansions limit)

/-- Whatever a host does, the expansions form a forest. -/
lemma Managed.forest (assembles : ∀ env, Allowed env → env.library.Assembles)
    (known : ∀ env, Allowed env → ∀ c ∈ env.library.circuits, Known c.name)
    (managed : Managed Allowed w) :
    w.graph.Forest Known := by
  induction managed with
  | start => exact forest_empty
  | operation op allowed _ ih => exact ih.apply (assembles _ allowed) (known _ allowed) op
  | instantiateCached name cache allowed _ ih =>
    exact ih.unfolds (known _ allowed) (cache.instantiate_unfolding ih.expansions name).after
  | store _ _ ih => exact ih

end

/-! ## Ownership -/

namespace Graph

/-- The call site of an expansion is in another one. -/
def NestedIn (g : Graph) (inner outer : Handle) : Prop :=
  ∃ e block, g.expansion? inner = some e ∧ e.parent? = some ⟨outer, block⟩

/-- The line of an expansion is what its call sites lead to, one after another. -/
lemma Forest.within_iff_nestedIn {g : Graph} (forest : g.Forest Known)
    {id x : Handle} {e : Expansion} (found : g.expansion? x = some e) :
    g.Within id x ↔ ReflTransGen g.NestedIn x id := by
  constructor
  · rintro ⟨e', found', mem⟩
    cases found.symm.trans found'
    generalize isParents : e.parents = parents
    induction parents generalizing x e with
    | nil =>
      rw [line, isParents] at mem
      rw [mem_singleton.mp mem]
    | cons site rest ih =>
      obtain ⟨around, isAround, isRest, line⟩ := forest.line_outer found isParents
      rw [line] at mem
      rcases mem_cons.mp mem with rfl | mem
      · exact .refl
      · refine .head ⟨e, site.block, found, ?_⟩ (ih isAround isAround mem isRest)
        rw [parent?, isParents]
        rfl
  · intro nested
    induction nested using ReflTransGen.head_induction_on generalizing e with
    | refl => exact within_self found
    | head step _ ih =>
      obtain ⟨e', block, found', isSite⟩ := step
      obtain ⟨rest, isParents⟩ := head?_eq_some_iff.mp isSite
      obtain ⟨around, isAround, -⟩ := forest.outer found' isParents
      exact forest.within_trans (ih isAround) (within_site found' isParents)

end Graph

section

variable {Allowed : Environment → Prop} {w : Workspace}

/-- Whatever a host does, a node that was made for an expansion is listed by it, the expansion of a
call site is the one that the block there has, and tearing an expansion down takes out it, what is
nested in it and their nodes, and nothing else. -/
theorem expansions_own_their_nodes (assembles : ∀ env, Allowed env → env.library.Assembles)
    (managed : Managed Allowed w) :
    (∀ id node owner, w.graph.node? id = some node → node.owner = some owner →
        ∃ e, w.graph.expansion? owner = some e ∧ id ∈ e.members) ∧
      (∀ id e site, w.graph.expansion? id = some e → e.parent? = some site →
        ∃ around outputs hidden,
        w.graph.expansion? site.expansion = some around ∧
          around.stateOf site.block = .nested outputs hidden (some id)) ∧
      ∀ id, (∀ x, Relation.ReflTransGen w.graph.NestedIn x id →
        (w.graph.teardown id).expansion? x = none ∧
          ∀ n node, (w.graph.teardown id).node? n = some node → node.owner ≠ some x) ∧
        (∀ x, ¬Relation.ReflTransGen w.graph.NestedIn x id →
          (w.graph.teardown id).expansion? x = w.graph.expansion? x) ∧
        ∀ n node, w.graph.node? n = some node →
          (∀ x, node.owner = some x → ¬Relation.ReflTransGen w.graph.NestedIn x id) →
          ∃ node', (w.graph.teardown id).node? n = some node' ∧ node'.owner = node.owner := by
  have forest : w.graph.Forest fun _ => True := managed.forest assembles fun _ _ _ _ => trivial
  refine ⟨fun id node owner live isOwner => ?_, fun id e site found isSite => ?_, fun id => ?_⟩
  · obtain ⟨e, found⟩ := forest.owned live isOwner
    exact ⟨e, found, forest.housed.listed (form?_of_node? live) isOwner found⟩
  · obtain ⟨rest, isParents⟩ := head?_eq_some_iff.mp isSite
    obtain ⟨around, isAround, -, isChild⟩ := forest.outer found isParents
    cases isState : around.stateOf site.block with
    | unmade | made =>
      rw [isState] at isChild
      cases isChild
    | nested outputs hidden child =>
      rw [isState] at isChild
      cases isChild
      exact ⟨around, outputs, hidden, isAround, isState⟩
  · have cleared := forest.teardown_clears (.refl forest.nodes forest.expansions) (fun _ _ _ => rfl)
      (show w.graph.Whole _ _ id from .inr fun _ _ => not_false)
    have outside : ∀ {x}, ¬ReflTransGen w.graph.NestedIn x id → ¬(False ∨ w.graph.Within id x) := by
      rintro x apart (none | ⟨e, found, member⟩)
      · exact none
      · exact apart ((forest.within_iff_nestedIn found).mp ⟨e, found, member⟩)
    refine ⟨fun x nested => ?_, fun x apart => ?_, fun n node live apart => ?_⟩
    · cases found : w.graph.expansion? x with
      | some e =>
        have within := (forest.within_iff_nestedIn found).mpr nested
        refine ⟨cleared.gone (.inr within), fun n node isNow isOwner => ?_⟩
        obtain ⟨node', was, same, unemptied⟩ := cleared.earlier isNow
        exact unemptied x (same.symm.trans isOwner) (.inr within)
      | none =>
        have gone : ¬(False ∨ w.graph.Within id x) := by
          rintro (none | ⟨e, live, -⟩)
          · exact none
          · cases found.symm.trans live
        refine ⟨by rw [cleared.kept gone, found, map_none], fun n node isNow isOwner => ?_⟩
        obtain ⟨node', was, same, -⟩ := cleared.earlier isNow
        obtain ⟨e, live⟩ := forest.owned was (same.symm.trans isOwner)
        cases found.symm.trans live
    · rw [cleared.kept (outside apart), Option.map_id']
    · exact cleared.later live fun owner isOwner => outside (apart owner isOwner)

end

/-- A circuit that stands for another one. -/
def wrapper : Circuit where
  name := "wrapper"
  outputs := ["y"]
  blocks := [{ blockType := "answer", outputs := ["y"] }]

def wrapping (text : String) : Environment :=
  { library := Library.builtin.insertAll
      [wrapper, { name := "answer", outputs := ["x"], blocks :=
        [{ blockType := "int", outputs := ["x"], arguments := [text] }] }] }

/-- A circuit is expanded, and expanded again after it changed. -/
def wrappedTwice : Workspace :=
  apply (wrapping "2") (apply (wrapping "2") (apply (wrapping "1")
    (apply (wrapping "1") {} (.instantiate "wrapper" [])) (.settle 100)) (.redefine "answer"))
      (.settle 100)

theorem wrappedTwice_owns :
    (∃ e, wrappedTwice.graph.expansion? ⟨1, 1⟩ = some e ∧ e.parent? = some ⟨⟨0, 0⟩, 0⟩) ∧
    (wrappedTwice.graph.node? ⟨2, 1⟩).bind Node.owner = some ⟨1, 1⟩ ∧
    (wrappedTwice.graph.teardown ⟨0, 0⟩).expansion? ⟨1, 1⟩ = none ∧
    ∀ n node, (wrappedTwice.graph.teardown ⟨0, 0⟩).node? n = some node →
    node.owner ≠ some ⟨1, 1⟩ := by
  have assembles : ∀ env, (∃ text, env = wrapping text) → env.library.Assembles := by
    rintro _ ⟨text, rfl⟩
    exact ((Library.builtin_uniform (P := fun _ => True) fun _ _ => trivial).insertAll _).assembles
  have managed : Managed (fun env => ∃ text, env = wrapping text) wrappedTwice :=
    .operation _ ⟨_, rfl⟩
      (.operation _ ⟨_, rfl⟩ (.operation _ ⟨_, rfl⟩ (.operation _ ⟨_, rfl⟩ (.start {}))))
  have isChild : (wrappedTwice.graph.expansion? ⟨1, 1⟩).map parent? = some (some ⟨⟨0, 0⟩, 0⟩) := by
    decide +kernel
  obtain ⟨e, found, isSite⟩ := map_eq_some_iff.mp isChild
  obtain ⟨-, -, torn⟩ := expansions_own_their_nodes assembles managed
  exact ⟨⟨e, found, isSite⟩, by
    decide +kernel, (torn ⟨0, 0⟩).1 ⟨1, 1⟩ (.single ⟨e, 0, found, isSite⟩)⟩

/-! ## What changes leave behind

A graph whose circuits changed need not show what a new graph over the new circuits shows.
-/

/-- A circuit `k` and a circuit `main`. -/
def serving (k : List Block) (outputs : List String) (main : List Block) : Environment :=
  { library := Library.builtin.insertAll
      [{ name := "k", inputs := ["x"], outputs := ["y"], blocks :=
        k }, { name := "main", outputs, blocks := main }] }

/-- `main` is expanded and settled. -/
def served (env : Environment) : Except Diagnostic Root × Workspace :=
  match (Expand.instantiate env.library "main" []).run {} with
  | (made, w) => (made, apply env w (.settle 100))

/-- Then `k` is another circuit. -/
def servedAnew (before after : Environment) : Except Diagnostic Root × Workspace :=
  match served before with
  | (made, w) => (made, apply after (apply after w (.redefine "k")) (.settle 100))

/-- The numbers that the outputs show. -/
def numbersOf : Except Diagnostic Root × Workspace → List (Option UInt64)
  | (.ok root, w) => root.outputs.map fun id => (w.graph.output? id).map Value.scalar
  | (.error _, _) => []

def alwaysOne : List Block := [{ blockType := "int", outputs := ["y"], arguments := ["1"] }]

/-- A switch chooses by its own output, or by what `k` makes of it. -/
def sustained : List Block :=
  [{ blockType := "k", inputs := ["d"], outputs := ["c"] },
    { blockType := "switch", inputs := ["d", "c"], outputs := ["d"] }]

def waitingForItself : List Block := [{ blockType := "begin", inputs := ["x"], outputs := ["y"] }]

/-- A value that only depends on itself is never withdrawn. -/
theorem switch_sustains_its_output :
    let changed := servedAnew (serving alwaysOne ["d"] sustained)
      (serving waitingForItself ["d"] sustained)
    let new := served (serving waitingForItself ["d"] sustained)
    changed.2.graph.isSettled = true ∧ new.2.graph.isSettled = true ∧
      numbersOf changed = [some 1] ∧ numbersOf new = [none] := by
  decide +kernel

def usingK : List Block :=
  [{ blockType := "int", outputs := ["n"], arguments := ["5"] },
    { blockType := "k", inputs := ["n"], outputs := ["a"] }]

/-- A circuit that declares a link twice has no expansion that could be made anew, so nothing asks
for the circuit again. -/
theorem refused_circuit_not_asked_again :
    let changed := servedAnew
      (serving (alwaysOne ++ alwaysOne) ["a"] usingK) (serving alwaysOne ["a"] usingK)
    let new := served (serving alwaysOne ["a"] usingK)
    changed.2.graph.isSettled = true ∧ new.2.graph.isSettled = true ∧
      numbersOf changed = [none] ∧ changed.2.graph.diagnostics.entries.length = 1 ∧
      numbersOf new = [some 1] ∧ new.2.graph.diagnostics.entries = [] := by
  decide +kernel

/-- The second output of `k`, which is variadic or not. -/
def spreading (outputs : List String) : Environment :=
  { library := Library.builtin.insertAll
      [{ name := "k", outputs, blocks := alwaysOne ++
          [{ blockType := "pack", inputs := ["y", "y"], outputs := ["all"] }] },
        { name := "main", outputs := ["q"],
          blocks := [{ blockType := "k", outputs := ["p", "q"] }] }] }

/-- A label, and the zero of the labels. -/
def labels : List Block :=
  [{ blockType := "label", outputs := ["a"], arguments := ["#a"] },
    { blockType := "type", outputs := ["z"], arguments := ["label"] }]

/-- The outputs are stored, and `main` is instantiated from what was stored. -/
def recalled (env : Environment) : Except Diagnostic Root × Workspace :=
  match served env with
  | (.ok root, w) =>
    match (ConstantCache.instantiate env.library "main" (.capture w.graph root)).run w with
    | (made, w) => (made, apply env w (.settle 100))
  | failed => failed

/-- The zero label has no name, and is restored as the label with the empty name, which gets a
number of its own. -/
theorem zero_label_restored_anew :
    numbersOf (served (serving alwaysOne ["a", "z"] labels)) = [some 0, some 0] ∧
      numbersOf (recalled (serving alwaysOne ["a", "z"] labels)) = [some 0, some 1] := by
  decide +kernel

/-- A variadic input is given a link that is not there. -/
def gathering : Environment :=
  { library := Library.builtin.insertAll
      [{ name := "all", inputs := ["xs..."], outputs := ["y"],
         blocks := [{ blockType := "len", inputs := ["xs"], outputs := ["y"] }] },
        { name := "main", outputs := ["out"],
          blocks := [{ blockType := "all", inputs := ["missing"], outputs := ["out"] }] }] }

def gathered : Workspace := (served gathering).2

/-- A pin that waits for such a link gets another pack whenever it is woken. -/
theorem waiting_pin_leaves_packs :
    let woken :=
      apply gathering { gathered with graph := gathered.graph.markDirty ⟨2, 0⟩ 0 } (.settle 100)
    gathered.graph.isSettled = true ∧ gathered.graph.nodes.toList.length = 4 ∧
      woken.graph.isSettled = true ∧ woken.graph.nodes.toList.length = 5 := by
  decide +kernel

end Blockflow
