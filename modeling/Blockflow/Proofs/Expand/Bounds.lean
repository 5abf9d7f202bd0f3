import Blockflow.Proofs.Expand.Nesting
import Mathlib.Algebra.Order.BigOperators.Group.List
import Mathlib.Algebra.Order.Group.Nat
import Mathlib.Algebra.Ring.Nat
import Mathlib.Data.Finite.Prod
import Mathlib.Data.Set.Finite.Lattice
import Mathlib.Order.Interval.Finset.Nat

/-!
# How far expansion can go

A circuit is never expanded inside itself, so every way down is shorter than the library is long,
and every instance has finitely many roles. So there are finitely many places, whatever the circuits
are, and all that is ever charted is among them.
-/

namespace Blockflow

open Blueprint Chart Expansion List Option Role

/-! ## Finitely many roles and ways -/

/-- All numbers of a role are below a bound. -/
def Role.Below (bound : Nat) : Role → Prop
  | .param k | .output k | .argument k => k < bound
  | .rest => True
  | .part block k | .nested block k | .spread block k => block < bound ∧ k < bound

lemma Role.finite_below (bound : Nat) : {role : Role | role.Below bound}.Finite := by
  have single := Set.finite_Iio bound
  have pairs := single.prod single
  have all :=
    ((((single.image param).union (single.image output)).union (single.image argument)).union
    (Set.finite_singleton rest)).union (((pairs.image fun p => part p.1 p.2).union
      (pairs.image fun p => nested p.1 p.2)).union (pairs.image fun p => spread p.1 p.2))
  refine all.subset fun role below => ?_
  cases role with
  | param k => exact .inl (.inl (.inl (.inl ⟨k, below, rfl⟩)))
  | output k => exact .inl (.inl (.inl (.inr ⟨k, below, rfl⟩)))
  | argument k => exact .inl (.inl (.inr ⟨k, below, rfl⟩))
  | rest => exact .inl (.inr rfl)
  | part block k => exact .inr (.inl (.inl ⟨(block, k), below, rfl⟩))
  | nested block k => exact .inr (.inl (.inr ⟨(block, k), below, rfl⟩))
  | spread block k => exact .inr (.inr ⟨(block, k), below, rfl⟩)

/-- All numbers of a way are below a bound. -/
def Way.Below (bound : Nat) : Way → Prop
  | .root i => i < bound
  | .inner path block => path.Below bound ∧ block < bound

lemma Way.finite_below (bound depth : Nat) :
    {path : Way | path.Below bound ∧ path.depth ≤ depth}.Finite := by
  have single := Set.finite_Iio bound
  induction depth with
  | zero =>
    refine (single.image Way.root).subset ?_
    rintro (i | ⟨path, block⟩) ⟨below, shallow⟩
    · exact ⟨i, below, rfl⟩
    · exact absurd shallow (Nat.not_succ_le_zero _)
  | succ depth ih =>
    refine ((single.image Way.root).union ((ih.prod single).image fun p => p.1.inner p.2)).subset ?_
    rintro (i | ⟨path, block⟩) ⟨below, shallow⟩
    · exact .inl ⟨i, below, rfl⟩
    · exact .inr ⟨(path, block), ⟨⟨below.1, Nat.le_of_succ_le_succ shallow⟩, below.2⟩, rfl⟩

variable {P : Native → Prop} {bp : Blueprint P} {chart : Chart} {w : Workspace}

/-! ## Ways -/

namespace Blueprint

variable {path : Way} {layers : List Expansion} {layer : Expansion}

/-- The circuits on a way have different names, and all but the root are circuits of the library. -/
lemma layers_names (found : bp.layers path = some layers) :
    ∃ inner root, layers = inner ++ [root] ∧ inner.length = path.depth ∧ root ∈ bp.bases ∧
      (inner.map fun layer => layer.circuit.name).Nodup ∧ ∀ layer ∈ inner,
      layer.circuit ∈ bp.library.circuits := by
  induction path generalizing layers with
  | root i =>
    obtain ⟨base, isBase, rfl⟩ := map_eq_some_iff.mp found
    exact ⟨[], base, rfl, rfl, mem_of_getElem? isBase, .nil, nofun⟩
  | inner path block ih =>
    obtain ⟨child, outer, rfl, isOuter, isCircuit, apart⟩ := layers_nested found
    obtain ⟨inner, root, rfl, length, isRoot, once, among⟩ := ih isOuter
    refine ⟨child :: inner, root, rfl, congrArg (· + 1) length, isRoot, ?_, ?_⟩
    · rw [map_cons, nodup_cons]
      refine ⟨fun mem => apart ?_, once⟩
      rw [map_append]
      exact mem_append_left _ mem
    · rw [forall_mem_cons]
      exact ⟨isCircuit, among⟩

lemma depth_le (found : bp.layer? path = some layer) : path.depth ≤ bp.library.circuits.length := by
  obtain ⟨outer, isLayers⟩ := layers_of_layer? found
  obtain ⟨inner, root, -, length, -, once, among⟩ := layers_names isLayers
  have subset : (inner.map fun layer => layer.circuit.name) ⊆ bp.library.circuits.map
      Circuit.name := by
    intro name mem
    obtain ⟨layer, isInner, rfl⟩ := mem_map.mp mem
    exact mem_map_of_mem (among layer isInner)
  have bound := (once.subperm subset).length_le
  rwa [length_map, length_map, length] at bound

/-- More than the number of roots and than the number of blocks of any circuit. -/
def wayBound (bp : Blueprint P) : Nat :=
  bp.bases.length + ((bp.bases.map circuit ++ bp.library.circuits).map fun c =>
    c.blocks.length).sum

lemma blocks_le (found : bp.layer? path = some layer) :
    layer.circuit.blocks.length ≤ bp.wayBound := by
  obtain ⟨outer, isLayers⟩ := layers_of_layer? found
  obtain ⟨inner, root, eq, -, isRoot, -, among⟩ := layers_names isLayers
  have isCircuit : layer.circuit ∈ bp.bases.map circuit ++ bp.library.circuits := by
    cases inner with
    | nil =>
      cases eq
      exact mem_append_left _ (mem_map_of_mem isRoot)
    | cons first inner =>
      cases eq
      exact mem_append_right _ (among layer mem_cons_self)
  have le := single_le_sum (fun _ _ => Nat.zero_le _) _ (mem_map_of_mem (f := fun c : Circuit =>
    c.blocks.length) isCircuit)
  exact Nat.le_trans le (Nat.le_add_left _ _)

end Blueprint

/-! ## Roles -/

namespace Blueprint

variable {store : Store} {path : Way} {block k : Nat}

def blockBound (bp : Blueprint P) (path : Way) (block : Nat) : Nat :=
  match bp.assembly? path block with
  | none => 0
  | some asm =>
    match bp.method? asm.block.blockType with
    | some (.recipe recipe) => (recipe.parts asm).length
    | some (.circuit callee) => asm.block.outputs.length + callee.outputPins.rest?.getD 0 + 1
    | none => 0

def roleBound (bp : Blueprint P) (path : Way) : Nat :=
  match bp.layer? path with
  | none => 0
  | some layer =>
    layer.circuit.inputs.length + layer.circuit.outputPins.names.length + layer.arguments.length +
    layer.circuit.argumentPins.rest?.getD 0 + 1 + layer.circuit.blocks.length +
      ((range layer.circuit.blocks.length).map (bp.blockBound path)).sum

/-- The places that can be charted. -/
structure Offers (bp : Blueprint P) (place : Place) : Prop where
  way : place.path.Below bp.wayBound ∧ place.path.depth ≤ bp.library.circuits.length
  role : place.role.Below (bp.roleBound place.path)

lemma finite_offers (bp : Blueprint P) : {place | bp.Offers place}.Finite := by
  have ways := Way.finite_below bp.wayBound bp.library.circuits.length
  refine (ways.biUnion fun path _ => (finite_below (bp.roleBound path)).image
    (Place.mk path)).subset ?_
  rintro ⟨path, role⟩ ⟨way, below⟩
  exact Set.mem_biUnion way ⟨role, below, rfl⟩

lemma part_below (suits : bp.Suits store ⟨path, .part block k⟩ b) :
    k < bp.blockBound path block := by
  obtain ⟨asm, recipe, behaviors, isAssembly, isRecipe, answers, found⟩ := suits
  obtain ⟨made, t, ran, alike⟩ := answers store (.refl _)
  rw [blockBound, isAssembly]
  dsimp only
  rw [isRecipe]
  dsimp only
  rw [← (recipe.made ran).1, ← alike.length_eq]
  exact lt_of_getElem? found

lemma nested_below (nests : bp.Nests path block callee outs)
    (inside : k < outs ∨ callee.outputPins.rest? = some k) : k < bp.blockBound path block := by
  obtain ⟨asm, isAssembly, isCircuit, rfl⟩ := nests
  rw [blockBound, isAssembly]
  dsimp only
  rw [isCircuit]
  dsimp only
  rcases inside with inside | isRest
  · omega
  · rw [isRest, getD_some]
    omega

lemma argument_below (answers : Store.Answers Value.Alike store (Expand.argumentValue layer k) v) :
    k < layer.arguments.length + layer.circuit.argumentPins.rest?.getD 0 + 1 := by
  obtain ⟨made, t, ran, -⟩ := answers store (.refl _)
  rw [Expand.argumentValue] at ran
  split at ran
  next isRest =>
    rw [isRest, getD_some]
    omega
  next =>
    cases isText : layer.arguments[k]? with
    | none =>
      rw [isText] at ran
      cases ran
    | some text =>
      have inside := lt_of_getElem? isText
      omega

end Blueprint

/-! ## What is charted -/

namespace Chart.Realizes

lemma block_inside {store : Store} {layer e : Expansion} {block : Nat}
    (fits : InstanceFits bp chart store path layer e)
    (isMade : chart.site (path.inner block) ≠ none ∨
      ∃ role : Role, role.block? = some block ∧ chart.node ⟨path, role⟩ ≠ none) :
    block < layer.circuit.blocks.length := by
  by_contra outside
  have unmade : e.stateOf block = .unmade := by
    rw [stateOf, Array.getElem?_eq_none (by rw [fits.size]; omega)]
    rfl
  have nothing := fits.blocks block
  rw [unmade] at nothing
  rcases isMade with site | ⟨role, ofBlock, node⟩
  · exact site nothing.1
  · exact node (nothing.2 role ofBlock)

lemma way_below (realizes : Realizes bp chart w) {id : Handle} (site : chart.site path = some id) :
    path.Below bp.wayBound ∧ path.depth ≤ bp.library.circuits.length := by
  obtain ⟨layer, e, isLayer, -, fits⟩ := realizes.instances site
  refine ⟨?_, depth_le isLayer⟩
  induction path generalizing id layer e with
  | root i =>
    obtain ⟨outer, isLayers⟩ := layers_of_layer? isLayer
    obtain ⟨base, isBase, -⟩ := map_eq_some_iff.mp isLayers
    exact Nat.lt_of_lt_of_le (lt_of_getElem? isBase) (Nat.le_add_right _ _)
  | inner path block ih =>
    obtain ⟨outer, rest, -, site', -⟩ := fits.parents
    obtain ⟨layer', e', isLayer', isExpansion', fits'⟩ := realizes.instances site'
    refine ⟨ih site' layer' e' isLayer' fits',
      Nat.lt_of_lt_of_le (block_inside fits' (.inl ?_)) (blocks_le isLayer')⟩
    rw [site]
    nofun

lemma offers (realizes : Realizes bp chart w) {id : Handle} (shown : chart.node place = some id) :
    bp.Offers place := by
  obtain ⟨form, -, fits⟩ := realizes.placed shown
  obtain ⟨owner, site, -⟩ := fits.owner
  refine ⟨realizes.way_below site, ?_⟩
  obtain ⟨layer, e, isLayer, -, instanceFits⟩ := realizes.instances site
  obtain ⟨path, role⟩ := place
  have suits := fits.suits
  have ofBlock : ∀ {block k}, role.block? = some block → k < bp.blockBound path block →
      block < bp.roleBound path ∧ k < bp.roleBound path := by
    intro block k isBlock below
    have inside : block < layer.circuit.blocks.length :=
      block_inside instanceFits (.inr ⟨role, isBlock, by rw [shown]; nofun⟩)
    have le := single_le_sum (fun _ _ => Nat.zero_le _) _ (mem_map_of_mem (f := bp.blockBound path)
      (mem_range.mpr inside))
    rw [roleBound, isLayer]
    dsimp only
    omega
  have ofInstance : ∀ {k}, k < layer.circuit.inputs.length + layer.circuit.outputPins.names.length +
      layer.arguments.length +
      layer.circuit.argumentPins.rest?.getD 0 + 1 → k < bp.roleBound path := by
    rw [roleBound, isLayer]
    dsimp only
    omega
  cases role with
  | param k =>
    refine ofInstance ?_
    have inside := lt_of_getElem? ((instanceFits.params k).trans shown)
    rw [instanceFits.paramCount] at inside
    cases path with
    | root => exact Nat.lt_of_lt_of_le inside (by rw [Way.paramCount]; omega)
    | inner => exact absurd inside (Nat.not_lt_zero k)
  | output k =>
    refine ofInstance ?_
    have inside := lt_of_getElem? ((instanceFits.anchors k).trans shown)
    rw [instanceFits.anchorCount] at inside
    cases path with
    | root => exact Nat.lt_of_lt_of_le inside (by rw [Way.anchorCount]; omega)
    | inner => exact absurd inside (Nat.not_lt_zero k)
  | argument k =>
    obtain ⟨layer', v, isLayer', answers, -⟩ := suits
    cases isLayer.symm.trans isLayer'
    have below := argument_below answers
    exact ofInstance (by omega)
  | rest => trivial
  | part block k => exact ofBlock rfl (part_below suits)
  | nested block k =>
    obtain ⟨-, callee, outs, nests, inside⟩ := suits
    exact ofBlock rfl (nested_below nests inside)
  | spread block k =>
    obtain ⟨-, callee, outs, nests, inside⟩ := suits
    exact ofBlock rfl (nested_below nests (.inl inside))

end Chart.Realizes

end Blockflow
