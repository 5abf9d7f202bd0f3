import Blockflow.Proofs.Expand.Turns

/-!
# How graphs unfold

Expanding circuits changes the expansions of a graph in few ways: nodes are made for an expansion
that is there, a block is made, and a circuit of the library is expanded for a nested block whose
expansion is not there, unless one of the expansions around it is of the same name. `Graph.Unfolds`
is one such change. The block types of a library may make and wire nodes for the expansion that a
block belongs to, and nothing else.
-/

namespace Blockflow

open List Option Effect Expansion Graph Array Edit Arena

open Relation (ReflTransGen)

/-! ## What block types may do -/

/-- One change by a block type, for a block of the expansion `owner`. -/
inductive AssemblyStep (owner : Handle) : Workspace → Workspace → Prop where
  | store (w : Workspace) (store : Store) : AssemblyStep owner w { w with store }
  | addNode (w : Workspace) (b : Behavior) (inputs : Nat) :
      AssemblyStep owner w { w with graph := (w.graph.addNode b inputs (some owner)).2 }
  | connect (w : Workspace) (id : Handle) (pin : Nat) (src : Option Handle) :
      AssemblyStep owner w { w with graph := w.graph.connect id pin src }
  | addPendingLink (w : Workspace) (id : Handle) (pin : Nat) (link : String) :
      AssemblyStep owner w { w with graph := w.graph.addPendingLink id pin link }

/-- The block types of a library make and wire nodes for the expansion that a block belongs to. -/
def Library.Assembles (lib : Library) : Prop :=
  ∀ entry ∈ lib.assemblers, ∀ asm w,
    ReflTransGen (AssemblyStep asm.owner) w ((entry.2 asm).run w).2

namespace Assembly

lemma wirePins_steps (owner : Handle) (made : List Handle) (id : Handle)
    (pins : List (PinSource × Nat))
    (w : Workspace) :
    ReflTransGen (AssemblyStep owner) w
      { w with graph := pins.foldl (wirePin made id) w.graph } := by
  induction pins generalizing w with
  | nil => exact .refl
  | cons entry pins ih =>
    obtain ⟨src, pin⟩ := entry
    cases src with
    | link name => exact .head (.addPendingLink w id pin name) (ih _)
    | part i => exact .head (.connect w id pin made[i]?) (ih _)

lemma makeParts_steps (asm : Assembly) (made : List Handle)
    (parts : List (Behavior × List PinSource))
    (w : Workspace) :
    ReflTransGen (AssemblyStep asm.owner) w ((asm.makeParts made parts).run w).2 := by
  induction parts generalizing made w with
  | nil => exact .refl
  | cons part parts ih =>
    obtain ⟨b, pins⟩ := part
    exact .head (.addNode w b pins.length) ((wirePins_steps _ made _ _ _).trans (ih _ _))

end Assembly

lemma Library.Uniform.assembles {lib : Library} (uniform : lib.Uniform P) : lib.Assembles := by
  intro entry mem asm w
  obtain ⟨recipe, isRecipe⟩ := uniform entry mem
  have kept : (recipe.assembler asm).Keeps (ReflTransGen (AssemblyStep asm.owner) w) :=
    .bind (.of_after fun s earlier => earlier.tail (.store s _)) fun behaviors =>
      .bind (.of_after fun s earlier => earlier.trans (asm.makeParts_steps _ _ s)) fun _ => .pure _
  rw [isRecipe]
  exact kept.after .refl

/-! ## Steps of expansion -/

def BlockState.child? : BlockState → Option Handle
  | .nested _ _ child => child
  | _ => none

namespace Expansion

variable {e : Expansion}

lemma mem_children : child ∈ e.children ↔ ∃ block, (e.stateOf block).child? = some child := by
  simp only [children, List.mem_filterMap, stateOf]
  constructor
  · rintro ⟨state, mem, isChild⟩
    obtain ⟨block, found⟩ := mem_iff_getElem?.mp mem
    exact ⟨block, by rw [← getElem?_toList, found]; exact isChild⟩
  · rintro ⟨block, isChild⟩
    cases found : e.blocks[block]? with
    | none =>
      rw [found] at isChild
      cases isChild
    | some state =>
      rw [found] at isChild
      exact ⟨state, Array.mem_toList_iff.mpr (Array.mem_of_getElem? found), isChild⟩

lemma child?_setBlock (e : Expansion) (block : Nat) (state : BlockState) (other : Nat) :
    ((e.setBlock block state).stateOf other).child? =
      if other = block ∧ block < e.blocks.size then state.child? else (e.stateOf other).child? := by
  rw [stateOf, setBlock]
  rw [getElem?_setIfInBounds]
  by_cases eq : block = other
  · subst eq
    by_cases inside : block < e.blocks.size
    · simp [inside]
    · simp [inside, stateOf]
  · rw [if_neg eq, if_neg fun both => eq both.1.symm, stateOf]

lemma lt_size_of_nested {hidden child : Option Handle}
    (nested : e.stateOf block = .nested outs hidden child) : block < e.blocks.size := by
  rw [stateOf] at nested
  by_contra outside
  rw [Array.getElem?_eq_none (by omega)] at nested
  cases nested

end Expansion

namespace Graph

lemma expansion?_of_expansions {a b : Graph} (eq : b.expansions = a.expansions) (id : Handle) :
    b.expansion? id = a.expansion? id := by
  rw [expansion?, expansion?, eq]

/-- Nodes stay with the expansions that they were made for. -/
abbrev SameOwners :
    Graph → Graph → Prop := Rewrites fun _ before after => after.owner = before.owner

lemma SameOwners.modifyNode (g : Graph) (id : Handle)
    (same : ∀ n, (f n).owner = n.owner) : SameOwners g (g.modifyNode id f) :=
  Rewrites.modifyNode (R := fun _ before after => after.owner = before.owner) (fun _ _ => rfl) g
    fun n _ => same n

lemma Keeps.sameOwners (keeps : Keeps a b) : SameOwners a b := keeps.imp fun kept => kept.owner

/-- The graph with an instance for a nested block. -/
def nest (g : Graph) (id : Handle) (block : Nat) (instance' : Expansion) : Graph :=
  { g with expansions := (g.expansions.alloc instance').2 }.modifyExpansion id
    (Chart.withChild block (g.expansions.alloc instance').1)

/-- One change of a graph while circuits of a library are expanded. -/
inductive Unfolds (lib : Library) : Graph → Graph → Prop where
  | wire {a b : Graph} (owners : SameOwners a b) (expansions : b.expansions = a.expansions) :
      Unfolds lib a b
  | addNode {g : Graph} (behavior : Behavior) (inputs : Nat) {owner : Option Handle}
      (live : ∀ id, owner = some id → ∃ e, g.expansion? id = some e) :
      Unfolds lib g (g.addNode behavior inputs owner).2
  | note {g : Graph} (id : Handle) {f : Expansion → Expansion} (minor : Minor f) :
      Unfolds lib g (g.modifyExpansion id f)
  | anchor {g : Graph} {id : Handle} {e : Expansion} {params anchors : List Handle}
      (live : g.expansion? id = some e) (own : ∀ n ∈ params ++ anchors, n ∈ e.members) :
      Unfolds lib g (g.modifyExpansion id fun e => { e with params, anchors })
  | fill {g : Graph} {id : Handle} {e : Expansion} {block : Nat} {state : BlockState}
      (live : g.expansion? id = some e) (unmade : e.stateOf block = .unmade)
        (childless : state.child? = none) :
      Unfolds lib g (g.modifyExpansion id (·.setBlock block state))
  | root {g : Graph} {c : Circuit} (known : c ∈ lib.circuits) (args : List String)
      {fresh : Expansion} (made : make c [] args = .ok fresh) :
      Unfolds lib g { g with expansions := (g.expansions.alloc fresh).2 }
  | nest {g : Graph} {id : Handle} {e : Expansion} {block : Nat} {outs : List Handle}
      {hidden child : Option Handle} (live : g.expansion? id = some e)
      (nested : e.stateOf block = .nested outs hidden child)
      (gone : ∀ id, child = some id → g.expansion? id = none) {callee : Circuit}
      (known : callee ∈ lib.circuits)
      (apart : ∀ other ∈ id :: e.parents.map CallSite.expansion, ∃ around,
        g.expansion? other = some around ∧ around.circuit.name ≠ callee.name) (args : List String)
      {fresh : Expansion} (made : make callee (⟨id, block⟩ :: e.parents) args = .ok fresh) :
      Unfolds lib g (g.nest id block fresh)

lemma Unfolds.of_nodes (nodes : b.nodes = a.nodes) (expansions : b.expansions = a.expansions) :
    Unfolds lib a b :=
  .wire (.of_nodes (fun _ _ => rfl) nodes) expansions

/-- Any number of changes. -/
abbrev UnfoldsTo (lib : Library) : Graph → Graph → Prop := ReflTransGen (Unfolds lib)

/-- Nodes are made for an expansion, or wired. -/
inductive Furnishes (owner : Handle) : Graph → Graph → Prop where
  | wire {a b : Graph} (owners : SameOwners a b) (expansions : b.expansions = a.expansions) :
      Furnishes owner a b
  | addNode (g : Graph) (behavior : Behavior) (inputs : Nat) :
      Furnishes owner g (g.addNode behavior inputs (some owner)).2

abbrev FurnishesTo (owner : Handle) : Graph → Graph → Prop := ReflTransGen (Furnishes owner)

/-- The circuit of an expansion and its place. -/
structure SameStanding (e e' : Expansion) : Prop where
  circuit : e'.circuit = e.circuit
  parents : e'.parents = e.parents

lemma SameStanding.refl (e : Expansion) : SameStanding e e := ⟨rfl, rfl⟩

lemma SameStanding.trans (first : SameStanding e e') (second : SameStanding e' e'') :
    SameStanding e e'' := ⟨second.circuit.trans first.circuit, second.parents.trans first.parents⟩

lemma SameStanding.withChild (block : Nat) (child : Handle) (e : Expansion) :
    SameStanding e (Chart.withChild block child e) := by
  rw [Chart.withChild]
  split <;> exact ⟨rfl, rfl⟩

lemma expansion?_modify (g : Graph) (id : Handle) (f : Expansion → Expansion) (other : Handle) :
    (g.modifyExpansion id f).expansion? other =
      if other = id then (g.expansion? id).map f else g.expansion? other :=
  get?_modify g.expansions id f other

/-- The expansions of a graph stay as they are nested, while others may be added. -/
structure Lasts (a b : Graph) : Prop where
  wellFormed : b.expansions.WellFormed
  later : ∀ {id e}, a.expansion? id = some e → ∃ e', b.expansion? id = some e' ∧ SameStanding e e'

namespace Lasts

variable {a b c g : Graph}

lemma trans (first : Lasts a b) (second : Lasts b c) : Lasts a c where
  wellFormed := second.wellFormed
  later found := by
    obtain ⟨e', found', same⟩ := first.later found
    obtain ⟨e'', found'', same'⟩ := second.later found'
    exact ⟨e'', found'', same.trans same'⟩

lemma of_expansions (wf : a.expansions.WellFormed) (eq : b.expansions = a.expansions) :
    Lasts a b where
  wellFormed := eq ▸ wf
  later {id e} found := ⟨e, (expansion?_of_expansions eq id).trans found, .refl e⟩

lemma modify (wf : g.expansions.WellFormed) (id : Handle) {f : Expansion → Expansion}
    (same : ∀ e, SameStanding e (f e)) : Lasts g (g.modifyExpansion id f) where
  wellFormed := wf.modify id f
  later {other e} found := by
    rw [expansion?_modify]
    by_cases isId : other = id
    · subst isId
      exact ⟨f e, by rw [if_pos rfl, found, map_some], same e⟩
    · exact ⟨e, by rw [if_neg isId, found], .refl e⟩

lemma alloc (wf : g.expansions.WellFormed) (fresh : Expansion) :
    Lasts g { g with expansions := (g.expansions.alloc fresh).2 } := by
  obtain ⟨wf', isNew, found, -⟩ := alloc_facts wf fresh
  refine ⟨wf', fun {id e} live => ⟨e, (found id).trans ((if_neg ?_).trans live), .refl e⟩⟩
  rintro rfl
  exact isNew (.inl (Arena.contains_iff.mpr ⟨e, live⟩))

lemma step (wf : a.expansions.WellFormed) (step : Unfolds lib a b) : Lasts a b := by
  cases step with
  | wire _ expansions => exact .of_expansions wf expansions
  | @addNode behavior inputs owner _ =>
    cases owner with
    | none => exact .of_expansions wf (NodeEdit.markDirty _ _ 0).expansions
    | some owner =>
      have added := modify wf owner (f := fun e =>
        { e with members := e.members.push (a.addNode behavior inputs (some owner)).1 }) fun _ =>
          ⟨rfl, rfl⟩
      exact added.trans
        (.of_expansions added.wellFormed (expansions_addNode a behavior inputs owner))
  | note id minor => exact .modify wf id fun e => ⟨minor.circuit e, minor.parents e⟩
  | anchor | fill => exact .modify wf _ fun _ => ⟨rfl, rfl⟩
  | root => exact .alloc wf _
  | @nest id _ block _ _ _ _ _ _ _ _ _ _ fresh _ =>
    have allocated := alloc wf fresh
    exact allocated.trans (.modify allocated.wellFormed id (SameStanding.withChild block _))

lemma unfolds (wf : a.expansions.WellFormed) (steps : UnfoldsTo lib a b) : Lasts a b := by
  induction steps with
  | refl => exact .of_expansions wf rfl
  | tail _ step ih => exact ih.trans (.step ih.wellFormed step)

end Lasts

variable {owner : Handle} {a b g : Graph} {e : Expansion}

/-- Apart from the list of its nodes, an expansion stays as it is. -/
lemma FurnishesTo.plain? (steps : FurnishesTo owner a b) (id : Handle) :
    b.plain? id = a.plain? id := by
  induction steps with
  | refl => rfl
  | tail _ step ih =>
    rw [← ih]
    cases step with
    | wire _ expansions => exact plain?_of_expansions expansions id
    | addNode behavior inputs => exact plain?_addNode _ behavior inputs owner id

lemma FurnishesTo.live (steps : FurnishesTo owner a b) {id : Handle}
    (live : a.expansion? id = some e) : ∃ e', b.expansion? id = some e' := by
  have eq : b.plain? id = some { e with members := #[] } := by
    rw [steps.plain?, Graph.plain?, live, Option.map_some]
  obtain ⟨e', live', -⟩ := map_eq_some_iff.mp eq
  exact ⟨e', live'⟩

def Houses (g : Graph) (owner n : Handle) : Prop :=
  ∃ e, g.expansion? owner = some e ∧ n ∈ e.members

lemma expansion?_addNode (live : g.expansion? owner = some e)
    (b : Behavior) (inputs : Nat) : (g.addNode b inputs (some owner)).2.expansion? owner =
      some { e with members := e.members.push (g.addNode b inputs (some owner)).1 } := by
  have eq := expansions_addNode g b inputs owner
  rw [expansion?, eq, get?_modify, if_pos rfl, show g.expansions.get? owner =
    some e from live, map_some]

lemma houses_addNode (live : g.expansion? owner = some e) (b : Behavior) (inputs : Nat) :
    (g.addNode b inputs (some owner)).2.Houses owner (g.addNode b inputs (some owner)).1 :=
  ⟨_, expansion?_addNode live b inputs, mem_push_self⟩

lemma FurnishesTo.houses (steps : FurnishesTo owner a b) (houses : a.Houses owner n) :
    b.Houses owner n := by
  induction steps with
  | refl => exact houses
  | tail _ step ih =>
    obtain ⟨e, live, mem⟩ := ih
    cases step with
    | wire _ expansions => exact ⟨e, (expansion?_of_expansions expansions owner).trans live, mem⟩
    | addNode behavior inputs =>
      exact ⟨_, expansion?_addNode live behavior inputs, mem_push_of_mem _ mem⟩

lemma FurnishesTo.unfolds (wf : a.expansions.WellFormed) (live : a.expansion? owner = some e)
    (steps : FurnishesTo owner a b) : UnfoldsTo lib a b := by
  induction steps with
  | refl => exact .refl
  | tail _ step ih =>
    refine ih.tail ?_
    cases step with
    | wire owners expansions => exact .wire owners expansions
    | addNode behavior inputs =>
      obtain ⟨e', live', -⟩ := (Lasts.unfolds wf ih).later live
      refine .addNode behavior inputs fun id eq => ?_
      cases eq
      exact ⟨e', live'⟩

end Graph

open Graph (UnfoldsTo FurnishesTo Unfolds Furnishes)

/-- A computation that unfolds a graph, as a part of what began at `start`. -/
def Unfolding (lib : Library) (start : Graph) {α : Type} (edit : Edit α) : Prop :=
  edit.Keeps fun w => UnfoldsTo lib start w.graph

/-- A computation that makes nodes for an expansion and wires nodes. -/
def Furnishing (owner : Handle) (start : Graph) {α : Type} (edit : Edit α) : Prop :=
  edit.Keeps fun w => FurnishesTo owner start w.graph

namespace Furnishing

variable {owner : Handle} {start : Graph} {α β : Type}

lemma wire {op : Graph → Graph} (keeps : ∀ g, Keeps g (op g))
    (expansions : ∀ g, (op g).expansions = g.expansions) :
    Furnishing owner start (modifyGraph op) :=
  Keeps.of_after fun w earlier =>
    earlier.tail (.wire (keeps w.graph).sameOwners (expansions w.graph))

lemma connect (id : Handle) (pin : Nat) (src : Option Handle) :
    Furnishing owner start (modifyGraph (·.connect id pin src)) :=
  .wire (fun g => .connect g id pin src) fun g => expansions_connect g id pin src

lemma addPending (id : Handle) (pin : Nat) (pending : Pending) :
    Furnishing owner start (modifyGraph (·.addPending id pin pending)) :=
  .wire (fun g => .addPending g id pin pending) fun g => expansions_addPending g id pin pending

lemma addPendingLink (id : Handle) (pin : Nat) (link : String) :
    Furnishing owner start (modifyGraph (·.addPendingLink id pin link)) := by
  refine .wire (fun g => ?_) fun g => expansions_addPendingLink g id pin link
  rw [Graph.addPendingLink]
  split
  · exact .refl g
  · exact .addPending g id pin _

lemma addOwned (b : Behavior) (inputs : Nat) :
    Furnishing owner start (Expand.addOwned b inputs owner) :=
  Keeps.of_after fun w earlier => earlier.tail (.addNode w.graph b inputs)

end Furnishing

namespace Unfolding

variable {lib : Library} {start : Graph} {α β : Type} {edit : Edit α}

lemma after (unfolding : Unfolding lib w.graph edit) : UnfoldsTo lib w.graph (edit.run w).2.graph :=
  Keeps.after unfolding .refl

/-- What unfolds from where it starts is a part of everything that leads there. -/
lemma of_start (here : ∀ w : Workspace, UnfoldsTo lib start w.graph →
      UnfoldsTo lib w.graph (edit.run w).2.graph) :
    Unfolding lib start edit :=
  Keeps.of_after fun w earlier => earlier.trans (here w earlier)

lemma of_step (step : ∀ w : Workspace, UnfoldsTo lib start w.graph →
      Unfolds lib w.graph (edit.run w).2.graph) :
    Unfolding lib start edit := .of_start fun w earlier => .single (step w earlier)

lemma of_furnishing (wf : start.expansions.WellFormed)
    (live : start.expansion? owner = some e) (furnishing : ∀ start, Furnishing owner start edit) :
    Unfolding lib start edit := by
  refine .of_start fun w earlier => ?_
  have lasts := Lasts.unfolds wf earlier
  obtain ⟨e', live', -⟩ := lasts.later live
  exact FurnishesTo.unfolds lasts.wellFormed live' (Keeps.after (furnishing w.graph) .refl)

lemma onStore (action : Action α) : Unfolding lib start (onStore action) :=
  Keeps.of_after fun _ earlier => earlier

lemma connect (id : Handle) (pin : Nat) (src : Option Handle) :
    Unfolding lib start (modifyGraph (·.connect id pin src)) :=
  .of_step fun w _ =>
    .wire (Keeps.connect w.graph id pin src).sameOwners (expansions_connect w.graph id pin src)

end Unfolding

namespace Expand

variable {lib : Library} {start : Graph} {α : Type} {id : Handle} {f : Expansion → Expansion}

lemma lookUp_unfolding (id : Handle) : Unfolding lib start (expansionAt id) := by
  rw [← bind_pure (expansionAt id)]
  exact fun w earlier => Invariant.lookUp earlier fun _ _ => earlier

lemma live?_unfolding (n : Option Handle) :
    Unfolding lib start (live? n) := fun _ earlier => earlier

section

variable (id : Handle) (block : Nat) (callee : Circuit) (descriptor : Block) (args : List String)

lemma addNestedOutput_furnishing (pin : Nat) : Furnishing id start (addNestedOutput id block pin) :=
  .bind (Furnishing.addOwned _ 1) fun n => .bind (Furnishing.addPending n 0 _) fun _ => .pure _

lemma nestedOutputs_furnishes (w : Workspace) :
    (nestedOutputs id block callee descriptor args).Ends w
      (fun state w' => FurnishesTo id w.graph w'.graph ∧ state.child? = none)
      fun _ w' => FurnishesTo id w.graph w'.graph := by
  have skip : ∀ {β : Type} {first : Edit β} {next : β → Edit BlockState} {t : Workspace},
      Furnishing id w.graph first → FurnishesTo id w.graph t.graph →
      (∀ b u, FurnishesTo id w.graph u.graph → (next b).Ends u
        (fun state w' => FurnishesTo id w.graph w'.graph ∧ state.child? = none)
        fun _ w' => FurnishesTo id w.graph w'.graph) →
      (first >>= next).Ends t (fun state w' => FurnishesTo id w.graph w'.graph ∧
        state.child? = none)
        fun _ w' => FurnishesTo id w.graph w'.graph :=
    fun furnishing earlier rest => .bind ((furnishing _ earlier).imp rest fun _ _ later => later)
  rw [nestedOutputs]
  dsimp only
  generalize (if callee.outputPins.isVariadic then callee.outputPins.fixed
    else descriptor.outputs.length) = fixed
  refine skip (.ofExcept _) .refl fun _ _ made => skip (.ofExcept _) made fun _ _ made =>
    skip (.ofExcept _) made
    fun _ _ made => skip (.mapM (addNestedOutput_furnishing id block) _) made fun outs _ made => ?_
  split
  · split
    · refine skip (addNestedOutput_furnishing id block _) made fun carrier _ made =>
        skip (.mapM ?_ _) made
        fun unpacks _ made => ⟨made, rfl⟩
      exact fun i => .bind (Furnishing.addOwned _ 1) fun n =>
        .bind (Furnishing.connect n 0 _) fun _ => .pure _
    · exact ⟨made, rfl⟩
  · exact ⟨made, rfl⟩

end

section

variable (wf : start.expansions.WellFormed)
include wf

variable (assembles : lib.Assembles)
include assembles

omit wf in
lemma assembler_furnishing (found : lib.assembler? blockType = some assemble) (asm : Assembly) :
    Furnishing asm.owner start (assemble asm) := by
  refine Keeps.of_after fun w earlier => earlier.trans ?_
  refine Relation.ReflTransGen.lift Workspace.graph (fun a b step => ?_) _ _
    (assembles _ (lookup_mem found) asm w)
  cases step with
  | store => exact .wire (Keeps.refl _).sameOwners rfl
  | addNode behavior inputs => exact .addNode _ behavior inputs
  | connect id pin src =>
    exact .wire (Keeps.connect a.graph id pin src).sameOwners
      (expansions_connect a.graph id pin src)
  | addPendingLink id pin link =>
    refine .wire ?_ (expansions_addPendingLink a.graph id pin link)
    rw [addPendingLink]
    split
    · exact (Keeps.refl _).sameOwners
    · exact (Keeps.addPending a.graph id pin _).sameOwners

omit wf assembles in
/-- A block that is not made is made after nodes were made for it. -/
lemma fill_after {block : Nat} {w w' : Workspace}
    (earlier : UnfoldsTo lib start w.graph) (wf : w.graph.expansions.WellFormed)
    (live : w.graph.expansion? id = some e) (unmade : e.stateOf block = .unmade)
    (furnished : FurnishesTo id w.graph w'.graph) {state : BlockState}
    (childless : state.child? = none) :
    (modifyAt id (·.setBlock block state)).Ends w' (fun _ t => UnfoldsTo lib start t.graph)
      fun _ t => UnfoldsTo lib start t.graph := by
  have eq : w'.graph.plain? id = some { e with members := #[] } := by
    rw [furnished.plain?, plain?, live, map_some]
  obtain ⟨e', live', equal⟩ := map_eq_some_iff.mp eq
  refine .of_run (modifyAt_run live' _)
    ((earlier.trans (furnished.unfolds wf live)).tail (.fill live' ?_ childless))
  have blocks : e'.blocks = e.blocks := (mk.inj equal).2.2.2.1
  rw [stateOf, blocks]
  exact unmade

lemma materialize_unfolding (id : Handle) (block : Nat) :
    Unfolding lib start (materialize lib id block) := by
  refine fun w earlier => Invariant.lookUp earlier fun e live => ?_
  have wf' := (Lasts.unfolds wf earlier).wellFormed
  have furnishes : ∀ {t : Workspace}, FurnishesTo id w.graph t.graph →
      UnfoldsTo lib start t.graph :=
    fun made => earlier.trans (made.unfolds wf' live)
  split
  next descriptor unmade _ =>
    split
    next assemble found =>
      have furnishing : Furnishing id w.graph _ :=
        assembler_furnishing assembles found ⟨id, descriptor, e.specialize descriptor.arguments,
          lib.circuits⟩
      refine .bind ((furnishing w .refl).imp (fun outs w' made => ?_) fun _ _ made =>
        furnishes made)
      split
      · exact furnishes made
      · exact fill_after earlier wf' live unmade made rfl
    next =>
      split
      next callee _ =>
        exact .bind ((nestedOutputs_furnishes id block callee descriptor _ w).imp
          (fun state w' made => fill_after earlier wf' live unmade made.1 made.2) fun _ _ made =>
          furnishes made)
      next => exact earlier
  · exact earlier

omit wf assembles in
/-- The expansions that were asked are there and stand for circuits of other names. -/
lemma checkAncestors_ends (callee : Circuit) (ids : List Handle) (w : Workspace) :
    (checkAncestors callee ids).Ends w
      (fun _ w' => w' = w ∧ ∀ other ∈ ids, ∃ around, w.graph.expansion? other = some around ∧
        around.circuit.name ≠ callee.name) fun _ w' => w' = w := by
  induction ids with
  | nil => exact ⟨rfl, fun _ mem => nomatch mem⟩
  | cons id outer ih =>
    rw [checkAncestors]
    cases found : w.graph.expansion? id with
    | none => exact .bind (.of_refusal (expansionAt_gone found) rfl)
    | some e =>
      refine expansionAt_ends found ?_
      split
      · exact .of_refusal rfl rfl
      next differs =>
        refine ih.post fun _ t facts => ⟨facts.1, ?_⟩
        rintro other (_ | ⟨_, mem⟩)
        · exact ⟨e, found, differs⟩
        · exact facts.2 other mem

omit wf assembles in
lemma circuit?_mem (found : lib.circuit? name = some c) : c ∈ lib.circuits ∧ c.name = name := by
  rw [Library.circuit?, findCircuit?] at found
  exact ⟨mem_of_find?_eq_some found, by simpa using find?_some found⟩

omit assembles in
/-- A nested block whose expansion is not there gets a new one, or nothing changes. -/
lemma expandNested_unfolds (earlier : UnfoldsTo lib start w.graph) {e : Expansion}
    {block : Nat} {outs : List Handle} {hidden child : Option Handle}
    (live : w.graph.expansion? id = some e)
    (nested : e.stateOf block = .nested outs hidden child)
    (gone : ∀ id, child = some id → w.graph.expansion? id = none) :
    (expandNested lib id block).Ends w
      (fun _ t => UnfoldsTo lib start t.graph) fun _ t => UnfoldsTo lib start t.graph := by
  refine expansionAt_ends live ?_
  dsimp only
  split
  · exact .of_refusal rfl earlier
  next callee isCallee =>
    refine .bind ((checkAncestors_ends callee _ w).imp ?_ fun _ t eq => eq ▸ earlier)
    rintro _ _ ⟨rfl, apart⟩
    refine .bind (.ofExcept (fun fresh made => ?_) fun _ _ => earlier)
    have wf' := (Lasts.unfolds wf earlier).wellFormed
    obtain ⟨e', live', -⟩ := (Lasts.alloc wf' fresh).later live
    refine .bind (.of_run rfl (.bind (.of_run (modifyAt_run live' _) ?_)))
    exact earlier.tail (.nest live nested gone (circuit?_mem isCallee).1 apart _ made)

lemma unfolding_invariant : Invariant lib (fun _ => True) fun w => UnfoldsTo lib start w.graph where
  store earlier _ := earlier
  addNode {w owner e b} inputs earlier live _ :=
    ⟨earlier.tail (.addNode b inputs fun id eq => ⟨e, some.inj eq ▸ live⟩), trivial⟩
  connect {w id} pin src earlier _ := Keeps.after (Unfolding.connect id pin src) earlier
  note earlier minor := earlier.tail (.note _ minor)
  materialize := materialize_unfolding wf assembles
  childOf {w id e block outs hidden child} earlier live nested := by
    cases child with
    | none => exact expandNested_unfolds wf earlier live nested fun _ none => nomatch none
    | some child =>
      show (if w.graph.expansions.contains child then pure child else
        expandNested lib id block : Edit Handle).Ends
        w _ _
      split
      · exact earlier
      next gone =>
        refine expandNested_unfolds wf earlier live nested fun id eq => ?_
        cases eq
        rw [eq_none_iff_forall_ne_some]
        exact fun e found => gone (contains_iff.mpr ⟨e, found⟩)

omit wf assembles in
/-- Several nodes that are made for an expansion are listed there in the end. -/
lemma mapM_houses {f : β → Edit Handle}
    (each : ∀ b (w : Workspace) e, w.graph.expansion? owner = some e → (f b).Ends w
      (fun n t => FurnishesTo owner w.graph t.graph ∧ t.graph.Houses owner n)
      fun _ t => FurnishesTo owner w.graph t.graph) (items : List β) {w : Workspace} {e : Expansion}
    (live : w.graph.expansion? owner = some e) : (items.mapM f).Ends w
      (fun nodes t => FurnishesTo owner w.graph t.graph ∧ ∀ n ∈ nodes, t.graph.Houses owner n)
      fun _ t => FurnishesTo owner w.graph t.graph := by
  induction items generalizing w e with
  | nil => exact ⟨.refl, fun _ mem => nomatch mem⟩
  | cons item items ih =>
    rw [mapM_cons]
    refine .bind ((each item w e live).post ?_)
    rintro first t ⟨furnished, houses⟩
    obtain ⟨e', live'⟩ := furnished.live live
    refine .bind ((ih live').imp ?_ fun _ _ more => furnished.trans more)
    rintro nodes u ⟨more, rest⟩
    refine ⟨furnished.trans more, fun n mem => ?_⟩
    rcases mem_cons.mp mem with rfl | mem
    · exact more.houses houses
    · exact rest n mem

omit wf assembles in
lemma addRootNodes_unfolds (live : w.graph.expansion? id = some e)
    (wf : w.graph.expansions.WellFormed) (c : Circuit) : (addRootNodes id c).Ends w
      (fun _ t => UnfoldsTo lib w.graph t.graph) fun _ t => UnfoldsTo lib w.graph t.graph := by
  refine .bind ((mapM_houses (fun i w e live => ?_) _ live).imp ?_ fun _ _ made =>
    made.unfolds wf live)
  · exact ⟨.single (.addNode w.graph (.param i) 0), houses_addNode live _ 0⟩
  rintro params t ⟨made, isParams⟩
  obtain ⟨e', live'⟩ := made.live live
  refine .bind ((mapM_houses (fun name w e live => ?_) _ live').imp ?_
    fun _ _ more => FurnishesTo.unfolds wf live (made.trans more))
  · have added := houses_addNode live .pass 1
    have awaits : Furnishing id (w.graph.addNode .pass 1 (some id)).2 _ :=
      .addPendingLink (w.graph.addNode .pass 1 (some id)).1 0 name
    have waiting :=
      Keeps.after awaits (s := { w with graph := (w.graph.addNode .pass 1 (some id)).2 }) .refl
    exact ⟨.head (.addNode w.graph .pass 1) waiting, waiting.houses added⟩
  rintro outs u ⟨more, isOutputs⟩
  obtain ⟨e'', live''⟩ := more.live live'
  refine (FurnishesTo.unfolds wf live (made.trans more)).tail (.anchor live'' fun n mem => ?_)
  have houses : u.graph.Houses id n := by
    rcases mem_append.mp mem with isParam | isOutput
    · exact more.houses (isParams n isParam)
    · exact isOutputs n isOutput
  obtain ⟨e₁, live₁, listed⟩ := houses
  cases live''.symm.trans live₁
  exact listed

omit assembles in
lemma instantiate_unfolding (name : String) (args : List String) :
    Unfolding lib start (instantiate lib name args) := by
  rw [instantiate]
  split
  · exact .fail _
  next c isCircuit =>
    refine fun w earlier => .bind (.ofExcept (fun fresh made => ?_) fun _ _ => earlier)
    obtain ⟨wf', -, found, -⟩ := alloc_facts (Lasts.unfolds wf earlier).wellFormed fresh
    have allocated := earlier.tail (.root (circuit?_mem isCircuit).1 args made)
    have live : expansion? { w.graph with expansions := (w.graph.expansions.alloc fresh).2 }
        (w.graph.expansions.alloc fresh).1 = some fresh := (found _).trans (if_pos rfl)
    exact .bind
      (.of_run rfl ((addRootNodes_unfolds live wf' c).imp (fun _ _ more => allocated.trans more)
      fun _ _ more => allocated.trans more))

end

end Expand

/-! ## Settling -/

namespace Workspace

variable {env : Environment} {w : Workspace}

lemma resolvePin_unfolding (assembles : env.library.Assembles) (wf : start.expansions.WellFormed)
    (id owner : Handle) (pin : Nat) (pending : Pending) :
    Unfolding env.library start (resolvePin env id owner pin pending) := by
  refine Keeps.mapFailure ?_
  cases pending with
  | link name =>
    exact ((Expand.unfolding_invariant wf assembles).link owner name).bind fun src =>
      Unfolding.connect id pin src
  | nestedOutput block output =>
    exact ((Expand.unfolding_invariant wf assembles).nestedOutput owner block output).bind
      fun src =>
      Unfolding.connect id pin src

section

variable (assembles : env.library.Assembles) (wf : w.graph.expansions.WellFormed)
include assembles wf

lemma resolvePending_unfolds (id : Handle) :
    UnfoldsTo env.library w.graph (resolvePending env id w).2.graph := by
  have pins : ∀ owner pending (w' : Workspace), UnfoldsTo env.library w.graph w'.graph →
      UnfoldsTo env.library w.graph (resolvePins env id owner pending w').2.graph := by
    intro owner pending
    induction pending with
    | nil => exact fun _ earlier => earlier
    | cons entry rest ih =>
      obtain ⟨pin, pending⟩ := entry
      exact fun w' earlier => ih _
        (Keeps.after (resolvePin_unfolding assembles wf id owner pin pending) earlier)
  rw [resolvePending_eq]
  split
  · exact .refl
  · split
    · exact .refl
    · exact .refl
    · exact pins _ _ w .refl

/-- The evaluation of a node unfolds the graph. -/
lemma process_unfolds (id : Handle) : UnfoldsTo env.library w.graph (w.process env id).graph := by
  rw [process_eq]
  split
  · exact .refl
  have cleared : Unfolds env.library w.graph
      { w.graph with diagnostics := w.graph.diagnostics.clearNode id } :=
    .of_nodes rfl rfl
  have resolved : UnfoldsTo env.library w.graph (w.prepare env id).2.graph := by
    refine .head cleared (.tail (resolvePending_unfolds (w := w.cleared id) assembles wf id) ?_)
    exact .wire (.modifyNode _ id fun _ => rfl) rfl
  have computed := compute_graph env id (w.prepare env id)
  refine resolved.tail (.wire ?_ ?_)
  · rw [← computed]
    refine (conclude_rewrites _ id (compute env id (w.prepare env id)).1).imp ?_
    rintro _ _ _ ⟨_, _, rfl, -⟩
    rfl
  · rw [← computed]
    exact expansions_conclude _ id _

end

section

variable (assembles : env.library.Assembles) (wf : w.graph.expansions.WellFormed)
include assembles wf

lemma turn_unfolds {u : Workspace} (earlier : UnfoldsTo env.library w.graph u.graph) (id : Handle)
    (worklist : Worklist) :
    UnfoldsTo env.library w.graph (process env id { u with graph.worklist := worklist }).graph := by
  have popped : UnfoldsTo env.library w.graph { u.graph with worklist } :=
    earlier.tail (.of_nodes rfl rfl)
  exact popped.trans (process_unfolds (w := { u with graph.worklist := worklist }) assembles
    (Lasts.unfolds wf earlier).wellFormed id)

lemma tick_unfolds (steps : Nat) : UnfoldsTo env.library w.graph (w.tick env steps).graph :=
  tick_induction (I := fun u => UnfoldsTo env.library w.graph u.graph)
    (fun earlier _ => turn_unfolds assembles wf earlier _ _) steps .refl

lemma settle_unfolds (limit : Nat) : UnfoldsTo env.library w.graph (w.settle env limit).2.graph :=
  settle_induction (I := fun u => UnfoldsTo env.library w.graph u.graph)
    (fun earlier _ => turn_unfolds assembles wf earlier _ _)
    (fun _ earlier => earlier.tail (.of_nodes rfl rfl)) limit .refl

end

end Workspace

end Blockflow
