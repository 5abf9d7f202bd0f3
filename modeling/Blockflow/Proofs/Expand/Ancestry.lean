import Blockflow.Proofs.Expand.Lifecycle
import Mathlib.Data.Finset.Card

/-!
# Expansions without recursion

A circuit is expanded in a block only if no expansion around it is of its name, and a circuit that
changes keeps its name. So the call sites lead from every expansion to a root, through circuits of
different names, and there are no more of them than names. Whoever follows the call sites one by
one, to resolve a link or to look for a name, comes to an end within that bound: it does not matter
whether the call sites are followed in the graph or kept with the expansion.
-/

namespace Blockflow

open List Effect Expansion Expand

open Graph (UnfoldsTo)

/-! ## Following call sites -/

/-- The expansions from one outwards, where the call site of each leads to the next. -/
inductive Graph.ParentChain (g : Graph) : Handle → List (Handle × Expansion) → Prop where
  | root {id : Handle} {e : Expansion} (found : g.expansion? id = some e)
      (isRoot : e.parent? = none) :
      ParentChain g id [(id, e)]
  | nested {id : Handle} {e : Expansion} {site : CallSite} {chain : List (Handle × Expansion)}
      (found : g.expansion? id = some e) (isSite : e.parent? = some site)
      (outer : ParentChain g site.expansion chain) : ParentChain g id ((id, e) :: chain)

lemma Graph.ParentChain.live {g : Graph} {id : Handle} {chain : List (Handle × Expansion)}
    (isChain : g.ParentChain id chain) : ∀ entry ∈ chain, g.expansion? entry.1 = some entry.2 := by
  induction isChain with
  | root found =>
    intro entry mem
    rw [mem_singleton.mp mem]
    exact found
  | nested found _ _ ih =>
    intro entry mem
    rcases mem_cons.mp mem with rfl | mem
    · exact found
    · exact ih entry mem

namespace Expand

/-- The node that stands for a link, with the call sites looked up on the way; after `levels`
expansions the search gives up. -/
def climbLink (lib : Library) : Nat → Handle → String → Edit (Option Handle)
  | 0, _, _ => return none
  | levels + 1, id, name => do
    if name.isEmpty then return none
    else
      let e ← expansionAt id
      match e.links.lookup name with
      | none =>
        .fail (Diagnostic.inCircuit { problem := .unresolvedLink name } e.circuit.name)
      | some (.argument i) => return some (← resolveArgument id i)
      | some (.output block pin) => blockOutput lib id block pin
      | some (.input i) =>
        match e.parent? with
        | none => return e.params[i]?
        | some site => resolveInput e id site i (climbLink lib levels site.expansion)

/-- Refuses a circuit that is its own ancestor, with the call sites looked up on the way. -/
def scanAncestors (callee : Circuit) : Nat → Handle → Edit Unit
  | 0, _ => return ()
  | levels + 1, id => do
    let e ← expansionAt id
    if e.circuit.name = callee.name then .refuse (.recursiveExpansion callee.name)
    else match e.parent? with
      | none => return ()
      | some site => scanAncestors callee levels site.expansion

end Expand

namespace Graph.Forest

variable {Known : String → Prop} {g : Graph} {id : Handle} {e : Expansion}

section

variable (forest : g.Forest Known)
include forest

/-- Every line is a chain of call sites, and the names along it differ. -/
lemma parentChain (found : g.expansion? id = some e) :
    ∃ chain, g.ParentChain id chain ∧ chain.map Prod.fst = e.line id ∧
    (chain.map (·.2.circuit.name)).Nodup := by
  generalize isParents : e.parents = parents
  induction parents generalizing id e with
  | nil =>
    refine ⟨[(id, e)], .root found (by rw [parent?, isParents]; rfl), ?_, nodup_singleton _⟩
    rw [line, isParents]
    rfl
  | cons site rest ih =>
    obtain ⟨around, isAround, isRest, -⟩ := forest.outer found isParents
    obtain ⟨chain, isChain, line, names⟩ := ih isAround isRest
    have outer : e.parents.map CallSite.expansion = around.line site.expansion := by
      rw [isParents, List.map_cons, Expansion.line, isRest]
    refine ⟨(id, e) :: chain, .nested found (by rw [parent?, isParents]; rfl) isChain, ?_, ?_⟩
    · rw [map_cons, line, ← outer]
      rfl
    · refine nodup_cons.mpr ⟨fun repeated => ?_, names⟩
      obtain ⟨entry, mem, sameName⟩ := mem_map.mp repeated
      have inLine : entry.1 ∈ e.parents.map CallSite.expansion := by
        rw [outer, ← line]
        exact mem_map_of_mem mem
      obtain ⟨other, isSite, isEntry⟩ := mem_map.mp inLine
      exact forest.apart found isSite (isEntry ▸ isChain.live entry mem) sameName

/-- There are no more expansions around one than names of circuits. -/
lemma parents_length_lt {names : Finset String} (known : ∀ name, Known name → name ∈ names)
    (found : g.expansion? id = some e) : e.parents.length < names.card := by
  obtain ⟨chain, isChain, line, once⟩ := forest.parentChain found
  have among : (chain.map (·.2.circuit.name)).toFinset ⊆ names := by
    intro name mem
    obtain ⟨entry, isEntry, rfl⟩ := mem_map.mp (mem_toFinset.mp mem)
    exact known _ (forest.known (isChain.live entry isEntry))
  have lengths := congrArg length line
  rw [List.length_map, Expansion.line, List.length_cons, List.length_map] at lengths
  calc e.parents.length < chain.length := by omega
    _ =
      (chain.map
        (·.2.circuit.name)).toFinset.card := by rw [toFinset_card_of_nodup once, length_map]
    _ ≤ names.card := Finset.card_le_card among

lemma not_nestedIn_self (id : Handle) : ¬Relation.TransGen g.NestedIn id id := by
  let depth : Handle → Nat := fun x => (g.expansion? x).elim 0 fun e => e.parents.length + 1
  have step : ∀ {x y}, g.NestedIn x y → depth y < depth x := by
    rintro x y ⟨e, block, found, isSite⟩
    obtain ⟨rest, isParents⟩ := head?_eq_some_iff.mp isSite
    obtain ⟨around, isAround, isRest, -⟩ := forest.outer found isParents
    simp only [depth, found, isAround, isRest, isParents, Option.elim_some, length_cons]
    omega
  have outward : ∀ {x y}, Relation.TransGen g.NestedIn x y → depth y < depth x := by
    intro x y nested
    induction nested with
    | single nested => exact step nested
    | tail _ nested ih => exact (step nested).trans ih
  exact fun cycle => Nat.lt_irrefl _ (outward cycle)

end

end Graph.Forest

/-! ## Runs that agree -/

/-- Two computations do the same from every state of a kind. -/
def Effect.SameFrom {σ α : Type} (I : σ → Prop) (first second : Effect σ α) : Prop :=
  ∀ s, I s → first.run s = second.run s

namespace Effect.SameFrom

variable {σ α β : Type} {I : σ → Prop}

lemma bind {next next' : α → Effect σ β} (same : SameFrom I first second)
    (kept : second.Keeps I) (rest : ∀ a, SameFrom I (next a) (next' a)) :
    SameFrom I (first >>= next) (second >>= next') := by
  intro s holds
  have later := kept s holds
  rw [run_bind, run_bind, same s holds]
  rw [Ends] at later
  rcases outcome : second.run s with ⟨d | a, t⟩
  · rfl
  · rw [outcome] at later
    exact rest a t later

lemma refl (effect : Effect σ α) : SameFrom I effect effect := fun _ _ => rfl

lemma forM (same : ∀ b, SameFrom I (f b) (g b)) (kept : ∀ b, (g b).Keeps I)
    (items : List β) : SameFrom I (items.forM f) (items.forM g) := by
  induction items with
  | nil => exact refl _
  | cons item items ih => exact (same item).bind (kept item) fun _ => ih

end Effect.SameFrom

namespace Expand

variable {lib : Library} {start : Graph} {Known : String → Prop}

open Effect (SameFrom)

variable {id : Handle} {e : Expansion} {levels : Nat} {w : Workspace}

/-- An input is resolved in the same way if links are resolved in the same way at the call site. -/
lemma resolveInput_same (wf : start.expansions.WellFormed) (live : start.expansion? id = some e)
    (expansion : Expansion) (site : CallSite) (i : Nat)
    (same : ∀ name, SameFrom (fun w : Workspace => UnfoldsTo lib start w.graph) (resolve name)
      (resolve' name))
    (resolving : ∀ name, Unfolding lib start (resolve' name)) :
    SameFrom (fun w : Workspace => UnfoldsTo lib start w.graph)
      (resolveInput expansion id site i resolve)
      (resolveInput expansion id site i resolve') := by
  refine .bind (.refl _) (live?_unfolding _) fun found => ?_
  split
  · exact .refl _
  · refine .bind (.refl _) (lookUp_unfolding _) fun caller => ?_
    dsimp only
    split
    · have gathers : ∀ pack (entry : String × Nat), Unfolding lib start
          (resolve' entry.1 >>= fun src => Edit.modifyGraph (·.connect pack entry.2 src)) :=
        fun pack entry => (resolving entry.1).bind fun src => Unfolding.connect pack entry.2 src
      have gathersSame : ∀ pack (entry : String × Nat),
          SameFrom (fun w : Workspace => UnfoldsTo lib start w.graph)
          (resolve entry.1 >>= fun src => Edit.modifyGraph (·.connect pack entry.2 src))
          (resolve' entry.1 >>= fun src => Edit.modifyGraph (·.connect pack entry.2 src)) :=
        fun pack entry => (same entry.1).bind (resolving entry.1) fun _ => .refl _
      refine .bind (.refl _) (Unfolding.of_furnishing wf live fun _ => .addOwned _ _) fun pack => ?_
      exact .bind (.forM (gathersSame pack) (gathers pack) _) (Keeps.forM (gathers pack) _) fun _ =>
        .refl _
    · split
      · exact same _
      · exact .refl _

/-- Looking up the call sites on the way leads to where the list of them leads. -/
lemma climbLink_same (assembles : lib.Assembles) (forest : start.Forest Known)
    (live : start.expansion? id = some e) (enough : e.parents.length < levels)
    (name : String) : SameFrom (fun w : Workspace => UnfoldsTo lib start w.graph)
      (climbLink lib levels id name) (resolveLink lib e.parents id name) := by
  generalize isParents : e.parents = sites at enough ⊢
  induction sites generalizing id e levels name with
  | nil =>
    intro w earlier
    obtain ⟨levels, rfl⟩ := Nat.exists_eq_succ_of_ne_zero (Nat.ne_of_gt enough)
    obtain ⟨e', live', standing⟩ := (Graph.Lasts.unfolds forest.expansions earlier).later live
    have isRoot : e'.parent? = none := by rw [parent?, standing.parents, isParents]; rfl
    rw [climbLink, resolveLink]
    split
    · rfl
    · rw [run_bind, run_bind, expansionAt_run live']
      dsimp only
      rewrite [isRoot]
      rcases e'.links.lookup name with _ | _ | _ | _ <;> rfl
  | cons site outer ih =>
    intro w earlier
    obtain ⟨levels, rfl⟩ := Nat.exists_eq_succ_of_ne_zero (Nat.ne_of_gt (Nat.zero_lt_of_lt enough))
    obtain ⟨e', live', standing⟩ := (Graph.Lasts.unfolds forest.expansions earlier).later live
    have isSite : e'.parent? = some site := by rw [parent?, standing.parents, isParents]; rfl
    obtain ⟨around, isAround, isOuter, -⟩ := forest.outer live isParents
    have further : ∀ name, SameFrom _ (climbLink lib levels site.expansion name)
        (resolveLink lib outer site.expansion name) :=
      fun name => ih isAround name isOuter (by rw [length_cons] at enough; omega)
    rw [climbLink, resolveLink]
    split
    · rfl
    · rw [run_bind, run_bind, expansionAt_run live']
      dsimp only
      rw [isSite]
      rcases e'.links.lookup name with _ | i | _ | _
      · rfl
      · exact resolveInput_same forest.expansions live e' site i further
          ((unfolding_invariant forest.expansions assembles).resolveLink outer site.expansion) w
            earlier
      · rfl
      · rfl

/-- With more levels than expansions around one, following the call sites finds what a link stands
for. -/
lemma climbLink_eq (assembles : lib.Assembles) (forest : w.graph.Forest Known)
    (positive : 0 < levels)
    (enough : ∀ id e, w.graph.expansion? id = some e → e.parents.length < levels)
    (id : Handle) (name : String) :
    (climbLink lib levels id name).run w = (link lib id name).run w := by
  show _ = (resolveLink lib ((w.graph.expansion? id).elim [] parents) id name).run w
  cases live : w.graph.expansion? id with
  | some e => exact climbLink_same assembles forest live (enough id e live) name w .refl
  | none =>
    obtain ⟨levels, rfl⟩ := Nat.exists_eq_succ_of_ne_zero (Nat.ne_of_gt positive)
    rw [climbLink, resolveLink]
    split
    · rfl
    · rw [run_bind, run_bind, expansionAt_gone live]

/-- With more levels than expansions around one, following the call sites finds the names that the
list of them finds. -/
lemma scanAncestors_eq (callee : Circuit) (forest : w.graph.Forest Known)
    (live : w.graph.expansion? id = some e)
    (enough : e.parents.length < levels) : (scanAncestors callee levels id).run w =
      (checkAncestors callee (id :: e.parents.map CallSite.expansion)).run w := by
  generalize isParents : e.parents = sites at enough ⊢
  induction sites generalizing id e levels with
  | nil =>
    obtain ⟨levels, rfl⟩ := Nat.exists_eq_succ_of_ne_zero (Nat.ne_of_gt enough)
    have isRoot : e.parent? = none := by rw [parent?, isParents]; rfl
    rw [scanAncestors, checkAncestors, run_bind, run_bind, expansionAt_run live]
    dsimp only
    rewrite [isRoot]
    rfl
  | cons site outer ih =>
    obtain ⟨levels, rfl⟩ := Nat.exists_eq_succ_of_ne_zero (Nat.ne_of_gt (Nat.zero_lt_of_lt enough))
    have isSite : e.parent? = some site := by rw [parent?, isParents]; rfl
    obtain ⟨around, isAround, isOuter, -⟩ := forest.outer live isParents
    have further : (scanAncestors callee levels site.expansion).run w =
        (checkAncestors callee (site.expansion :: outer.map CallSite.expansion)).run w :=
      ih isAround isOuter (by rw [length_cons] at enough; omega)
    rw [scanAncestors, checkAncestors, run_bind, run_bind, expansionAt_run live]
    dsimp only
    rw [isSite]
    split
    · rfl
    · exact further

end Expand

section

variable {Allowed : Environment → Prop} {w : Workspace} {names : Finset String}

/-- Whatever a host does, also while circuits are being expanded, the call sites of an expansion
lead to a root through different expansions of circuits with different names, of which there are no
more than were ever registered; they never lead back, so resolving a link and looking for a name
among the expansions around come to an end if call sites are followed one by one. -/
theorem expansions_nest_without_recursion (assembles : ∀ env, Allowed env → env.library.Assembles)
    (registered : ∀ env, Allowed env → ∀ circuit ∈ env.library.circuits, circuit.name ∈ names)
    {env : Environment} (allowed : Allowed env) (managed : Managed Allowed w) {now : Workspace}
    (expanding : UnfoldsTo env.library w.graph now.graph) :
    (∀ id e, now.graph.expansion? id = some e → ∃ chain, now.graph.ParentChain id chain ∧
        (chain.map Prod.fst).Nodup ∧ (chain.map (·.2.circuit.name)).Nodup ∧
        chain.length ≤ names.card) ∧
      (∀ id, ¬Relation.TransGen now.graph.NestedIn id id) ∧
      (∀ levels, names.card < levels →
        ∀ id name, (Expand.climbLink env.library levels id name).run now =
        (Expand.link env.library id name).run now) ∧
      ∀ levels, names.card < levels → ∀ callee id e, now.graph.expansion? id = some e →
        (Expand.scanAncestors callee levels id).run now =
          (Expand.checkAncestors callee (id :: e.parents.map CallSite.expansion)).run now := by
  have forest : now.graph.Forest (· ∈ names) :=
    (managed.forest assembles registered).unfolds (registered env allowed) expanding
  have short : ∀ id e, now.graph.expansion? id = some e → e.parents.length < names.card :=
    fun _ _ found => forest.parents_length_lt (fun _ known => known) found
  refine ⟨fun id e found => ?_, forest.not_nestedIn_self, fun levels enough => ?_,
    fun levels enough callee id e found => ?_⟩
  · obtain ⟨chain, isChain, line, once⟩ := forest.parentChain found
    refine ⟨chain, isChain, line ▸ forest.line_nodup found, once, ?_⟩
    have lengths := congrArg length line
    rw [List.length_map, Expansion.line, List.length_cons, List.length_map] at lengths
    have bound := short id e found
    omega
  · exact climbLink_eq (assembles env allowed) forest (Nat.zero_lt_of_lt enough)
      fun id e found => (short id e found).trans enough
  · exact scanAncestors_eq callee forest found ((short id e found).trans enough)

end

/-- Two circuits that call each other. -/
def pingPong : Environment :=
  { library := Library.builtin.insertAll
      [{ name := "ping", outputs := ["y"], blocks := [{ blockType := "pong", outputs := ["y"] }] },
        { name := "pong", outputs := ["y"], blocks :=
          [{ blockType := "ping", outputs := ["y"] }] }] }

def pinged : Workspace :=
  Operation.apply pingPong (Operation.apply pingPong {} (.instantiate "ping" [])) (.settle 100)

theorem pinged_nests_once :
    (pinged.graph.expansion? ⟨1, 0⟩).map (fun e => (e.circuit.name, e.parent?)) =
      some ("pong", some ⟨⟨0, 0⟩, 0⟩) ∧
      (∃ chain, pinged.graph.ParentChain ⟨1, 0⟩ chain ∧ (chain.map (·.2.circuit.name)).Nodup ∧
        chain.length ≤ 2) ∧
      ∀ id name, (Expand.climbLink pingPong.library 3 id name).run pinged =
        (Expand.link pingPong.library id name).run pinged := by
  have assembles : ∀ env, env = pingPong → env.library.Assembles := by
    rintro _ rfl
    exact ((Library.builtin_uniform (P := fun _ => True) fun _ _ => trivial).insertAll _).assembles
  have registered : ∀ env, env = pingPong → ∀ circuit ∈ env.library.circuits,
      circuit.name ∈ ({"ping", "pong"} : Finset String) := by
    rintro _ rfl
    decide +kernel
  have managed : Managed (· = pingPong) pinged := .operation _ rfl (.operation _ rfl (.start {}))
  have isInner : (pinged.graph.expansion? ⟨1, 0⟩).map (fun e => (e.circuit.name, e.parent?)) =
      some ("pong", some ⟨⟨0, 0⟩, 0⟩) := by
    decide +kernel
  obtain ⟨e, found, -⟩ := Option.map_eq_some_iff.mp isInner
  obtain ⟨chains, -, climbs, -⟩ :=
    expansions_nest_without_recursion assembles registered rfl managed .refl
  obtain ⟨chain, isChain, -, names, short⟩ := chains ⟨1, 0⟩ e found
  exact ⟨isInner, ⟨chain, isChain, names, short⟩, climbs 3 (Nat.lt_succ_self 2)⟩

end Blockflow
