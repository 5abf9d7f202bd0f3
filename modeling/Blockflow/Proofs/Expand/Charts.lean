import Blockflow.Proofs.Expand.Places
import Blockflow.Proofs.Graph.Coherence

/-!
# Charts

A chart of a graph says which node stands at which place of a blueprint, and which instance at the
end of which way. What the chart shows is as the blueprint says. Nodes that the chart does not show
may be there too: they are left behind where a block could not be made.
-/

namespace Blockflow

open List Option Expansion Graph Array

/-- Which nodes and instances are made so far. -/
structure Chart where
  node : Place → Option Handle
  site : Way → Option Handle

/-- How many inputs the instance at the end of a way takes from the host. -/
def Way.paramCount : Way → Circuit → Nat
  | .root _, c => c.inputs.length
  | .inner .., _ => 0

/-- How many outputs the instance at the end of a way has nodes for. -/
def Way.anchorCount : Way → Circuit → Nat
  | .root _, c => c.outputPins.names.length
  | .inner .., _ => 0

def Role.block? : Role → Option Nat
  | .part block _ | .nested block _ | .spread block _ => some block
  | _ => none

namespace Chart

variable {P : Native → Prop}

/-- The call sites on a way. -/
def Parents (chart : Chart) : Way → List CallSite → Prop
  | .root _, sites => sites = []
  | .inner path block, sites => ∃ outer rest, sites = ⟨outer, block⟩ :: rest ∧
      chart.site path = some outer ∧
    chart.Parents path rest

/-- A handle is that of a place, or nothing leads anywhere. -/
def Leads (chart : Chart) : Option Place → Option Handle → Prop
  | none, n => n = none
  | some place, n => n = chart.node place ∧ n.isSome

/-- A block is made: its outputs are on the chart, and all nodes that wait for its circuit are
known. -/
structure Shown (bp : Blueprint P) (chart : Chart) (store : Store) (path : Way) (block : Nat)
    (outputs carriers : List Handle) (child : Option Handle) : Prop where
  site : chart.site (path.inner block) = child
  fine : bp.BlockFine store path block
  outputs : outputs.map some = (bp.outputRoles path block).map fun role => chart.node ⟨path, role⟩
  carriers : ∀ {pin n}, chart.node ⟨path, .nested block pin⟩ = some n → n ∈ carriers

/-- The state of a block shows the nodes of the chart. -/
def BlockFits (bp : Blueprint P) (chart : Chart) (store : Store) (path : Way) (block : Nat) :
    BlockState → Prop
  | .unmade => chart.site (path.inner block) = none ∧
    ∀ role : Role, role.block? = some block → chart.node ⟨path, role⟩ = none
  | .made outs => Shown bp chart store path block outs [] none
  | .nested outs hidden child => Shown bp chart store path block outs (outs ++ hidden.toList) child

/-- An instance shows the nodes of the chart. -/
structure InstanceFits (bp : Blueprint P) (chart : Chart) (store : Store) (path : Way)
    (layer e : Expansion) : Prop where
  circuit : e.circuit = layer.circuit
  arguments : e.arguments = layer.arguments
  links : e.links = layer.links
  parents : chart.Parents path e.parents
  size : e.blocks.size = layer.circuit.blocks.length
  blocks : ∀ block, BlockFits bp chart store path block (e.stateOf block)
  params : ∀ i, e.params[i]? = chart.node ⟨path, .param i⟩
  paramCount : e.params.length = path.paramCount layer.circuit
  anchors : ∀ i, e.anchors[i]? = chart.node ⟨path, .output i⟩
  anchorCount : e.anchors.length = path.anchorCount layer.circuit
  rest : e.restPack = chart.node ⟨path, .rest⟩
  argumentNodes : ∀ i, e.argumentNodes.lookup i = chart.node ⟨path, .argument i⟩

/-- A pin waits for what the blueprint says. -/
def Awaits : PinTarget → Pending → Prop
  | .link name, pending => pending = .link name
  | .nested block pin, pending => pending = .nestedOutput block pin
  | _, _ => False

/-- The instance that a target is looked up in is there. -/
def Serves (chart : Chart) (path : Way) : PinTarget → Prop
  | .nested block _ => (chart.site (path.inner block)).isSome
  | _ => True

/-- A node is what the blueprint says of its place: its pins read their targets or wait for them. -/
structure NodeFits (bp : Blueprint P) (chart : Chart) (store : Store) (place : Place)
    (form : Form) :
    Prop where
  owner : ∃ owner, chart.site place.path = some owner ∧ form.owner = some owner
  suits : bp.Suits store place form.behavior
  length : form.inputs.length = (bp.pins place).length
  waits : ∀ entry ∈ form.pending, ∃ target, (bp.pins place)[entry.1]? = some target ∧
    Awaits target entry.2
  reads : ∀ {pin target}, (bp.pins place)[pin]? = some target →
    (∀ pending, (pin, pending) ∉ form.pending) → bp.TargetFine store place.path target ∧
      chart.Serves place.path target ∧ ∃ input, form.inputs[pin]? = some input ∧
        chart.Leads (bp.targetSource place.path target) input

/-- The graph is what the chart shows. -/
structure Realizes (bp : Blueprint P) (chart : Chart) (w : Workspace) : Prop where
  nodes : w.graph.nodes.WellFormed
  expansions : w.graph.expansions.WellFormed
  instances : ∀ {path id}, chart.site path = some id → ∃ layer e, bp.layer? path = some layer ∧
    w.graph.plain? id = some e ∧ InstanceFits bp chart w.store path layer e
  placed : ∀ {place id}, chart.node place = some id → ∃ form, w.graph.form? id = some form ∧
    NodeFits bp chart w.store place form
  nodeOnce : ∀ {place place' id}, chart.node place = some id → chart.node place' = some id →
    place = place'
  siteOnce : ∀ {path path' id}, chart.site path = some id →
    chart.site path' = some id → path = path'

/-- The later chart shows all that the earlier one shows. -/
structure Within (chart chart' : Chart) : Prop where
  node : ∀ {place id}, chart.node place = some id → chart'.node place = some id
  site : ∀ {path id}, chart.site path = some id → chart'.site path = some id

lemma Within.refl (chart : Chart) : chart.Within chart := ⟨fun found => found, fun found => found⟩

lemma Within.trans {chart chart' chart'' : Chart} (first : chart.Within chart')
    (second : chart'.Within chart'') :
    chart.Within chart'' :=
  ⟨fun found => second.node (first.node found), fun found => second.site (first.site found)⟩

/-- A larger chart without new roots, and a larger store that is still tidy. -/
structure Spreads (chart : Chart) (w : Workspace) (chart' : Chart) (w' : Workspace) : Prop extends
    Within chart chart' where
  roots : ∀ i, chart'.site (.root i) = chart.site (.root i)
  store : w.store.Extends w'.store
  tidy : ∀ heap : Heap, heap.Fits w.store → w.graph.Constants heap →
    ∃ later, heap.Within later ∧ later.Fits w'.store ∧ w'.graph.Constants later

/-- The later chart shows at least what the earlier one showed, and nothing of it has changed. -/
structure Grows (chart : Chart) (w : Workspace) (chart' : Chart) (w' : Workspace) : Prop extends
    Spreads chart w chart' w' where
  kept : ∀ {id form}, w.graph.form? id = some form → w'.graph.form? id = some form
  expanding : ∀ {id e'}, w'.graph.plain? id = some e' → e'.expanding →
    ∃ e, w.graph.plain? id = some e ∧ e.expanding
  new : ∀ {place id}, chart'.node place = some id → chart.node place = some id ∨
    w.graph.form? id = none

section

variable {chart chart' chart'' : Chart} {w w' w'' : Workspace}

lemma Spreads.refl (chart : Chart) (w : Workspace) : Spreads chart w chart w where
  toWithin := .refl chart
  roots _ := rfl
  store := .refl _
  tidy heap fits constants := ⟨heap, .refl _, fits, constants⟩

lemma Spreads.trans (first : Spreads chart w chart' w') (second : Spreads chart' w' chart'' w'') :
    Spreads chart w chart'' w'' where
  toWithin := first.toWithin.trans second.toWithin
  roots i := (second.roots i).trans (first.roots i)
  store := first.store.trans second.store
  tidy heap fits constants := by
    obtain ⟨between, more, fits', constants'⟩ := first.tidy heap fits constants
    obtain ⟨later, more', rest⟩ := second.tidy between fits' constants'
    exact ⟨later, more.trans more', rest⟩

lemma Grows.refl (chart : Chart) (w : Workspace) : Grows chart w chart w where
  toSpreads := .refl chart w
  kept found := found
  expanding found isExpanding := ⟨_, found, isExpanding⟩
  new := .inl

lemma Grows.trans (first : Grows chart w chart' w') (second : Grows chart' w' chart'' w'') :
    Grows chart w chart'' w'' where
  toSpreads := first.toSpreads.trans second.toSpreads
  kept found := second.kept (first.kept found)
  expanding found isExpanding := by
    obtain ⟨e, found', isExpanding'⟩ := second.expanding found isExpanding
    exact first.expanding found' isExpanding'
  new found := by
    rcases second.new found with was | absent
    · exact first.new was
    · refine .inr (eq_none_iff_forall_ne_some.mpr fun form was => ?_)
      cases absent.symm.trans (first.kept was)

end

variable {bp : Blueprint P} {chart chart' : Chart} {w w' : Workspace} {s t : Store} {path : Way}
  {outs : List Handle} {block : Nat}

/-! ## What a larger chart keeps -/

lemma Leads.mono (leads : chart.Leads src n)
    (grows : ∀ {place id}, chart.node place = some id → chart'.node place = some id) :
    chart'.Leads src n := by
  cases src with
  | none => exact leads
  | some place =>
    obtain ⟨eq, isSome⟩ := leads
    obtain ⟨id, found⟩ := isSome_iff_exists.mp isSome
    exact ⟨found.trans (grows (eq.symm.trans found)).symm, isSome⟩

lemma Leads.placed (leads : chart.Leads target (some src)) :
    ∃ place, chart.node place = some src := by
  cases target with
  | none => cases leads
  | some place => exact ⟨place, leads.1.symm⟩

lemma Parents.mono (parents : chart.Parents path sites)
    (grows : ∀ {path id}, chart.site path = some id → chart'.site path = some id) :
    chart'.Parents path sites := by
  induction path generalizing sites with
  | root => exact parents
  | inner path block ih =>
    obtain ⟨outer, rest, eq, found, parents⟩ := parents
    exact ⟨outer, rest, eq, grows found, ih parents⟩

lemma Serves.mono (serves : chart.Serves path target)
    (grows : ∀ {path id}, chart.site path = some id → chart'.site path = some id) :
    chart'.Serves path target := by
  cases target with
  | nested block pin =>
    obtain ⟨id, found⟩ := isSome_iff_exists.mp serves
    exact isSome_iff_exists.mpr ⟨id, grows found⟩
  | link | outer | role => trivial

lemma NodeFits.mono {place : Place} {form : Form} (fits : NodeFits bp chart s place form)
    (within : chart.Within chart') (more : s.Extends t) : NodeFits bp chart' t place form where
  owner := by
    obtain ⟨owner, found, eq⟩ := fits.owner
    exact ⟨owner, within.site found, eq⟩
  suits := fits.suits.mono more
  length := fits.length
  waits := fits.waits
  reads found idle := by
    obtain ⟨fine, serves, input, read, leads⟩ := fits.reads found idle
    exact ⟨fine.mono more, serves.mono within.site, input, read, leads.mono within.node⟩

/-- What a pin reads that waits for nothing is on the chart. -/
lemma NodeFits.source_placed (fits : NodeFits bp chart s place form)
    (read : form.inputs[pin]? = some (some src))
    (idle : ∀ pending, (pin, pending) ∉ form.pending) : ∃ place, chart.node place = some src := by
  have inside : pin < (bp.pins place).length := fits.length ▸ lt_of_getElem? read
  obtain ⟨-, -, input, isInput, leads⟩ := fits.reads (getElem?_eq_getElem inside) idle
  cases isInput.symm.trans read
  exact leads.placed

/-- The outputs of a block that is made are on the chart for good. -/
lemma outputs_mono {roles : List Role}
    (eq : outs.map some = roles.map fun role => chart.node ⟨path, role⟩)
    (grows : ∀ {place id}, chart.node place = some id → chart'.node place = some id) :
    outs.map some = roles.map fun role => chart'.node ⟨path, role⟩ := by
  induction roles generalizing outs with
  | nil => exact eq
  | cons role roles ih =>
    cases outs with
    | nil => cases eq
    | cons output outs =>
      obtain ⟨first, rest⟩ := cons.inj eq
      exact cons_eq_cons.mpr ⟨(grows first.symm).symm, ih rest⟩

/-- What is made of a block stays, as long as no other nodes wait for its circuit. -/
lemma Shown.mono {carriers : List Handle} (shown : Shown bp chart s path block outs carriers child)
    (site : chart'.site (path.inner block) = child') (more : s.Extends t)
    (grows : ∀ {place id}, chart.node place = some id → chart'.node place = some id)
    (known : ∀ {pin n}, chart'.node ⟨path, .nested block pin⟩ = some n →
      chart.node ⟨path, .nested block pin⟩ = some n) :
    Shown bp chart' t path block outs carriers child' :=
  ⟨site, shown.fine.mono more, outputs_mono shown.outputs grows,
    fun found => shown.carriers (known found)⟩

lemma BlockFits.later (fits : BlockFits bp chart s path block state) (more : s.Extends t) :
    BlockFits bp chart t path block state := by
  cases state with
  | unmade => exact fits
  | made | nested => exact Shown.mono fits fits.site more (fun found => found) fun found => found

lemma InstanceFits.later (fits : InstanceFits bp chart s path layer e)
    (more : s.Extends t) : InstanceFits bp chart t path layer e :=
  { fits with blocks := fun block => (fits.blocks block).later more }

/-! ## Values, and nodes that the chart does not show -/

namespace Realizes

variable {g : Graph} {id : Handle}

variable (realizes : Realizes bp chart w)
include realizes

lemma keep (nodes : w'.graph.nodes.WellFormed) (expansions : w'.graph.expansions.WellFormed)
    (more : w.store.Extends w'.store)
    (plain : ∀ {id e}, w.graph.plain? id = some e → w'.graph.plain? id = some e)
    (forms : ∀ {id form}, w.graph.form? id = some form → w'.graph.form? id = some form) :
    Realizes bp chart w' :=
  { realizes with
    nodes
    expansions
    instances := fun found => by
      obtain ⟨layer, e, isLayer, isExpansion, fits⟩ := realizes.instances found
      exact ⟨layer, e, isLayer, plain isExpansion, fits.later more⟩
    placed := fun found => by
      obtain ⟨form, isForm, fits⟩ := realizes.placed found
      exact ⟨form, forms isForm, fits.mono (.refl _) more⟩ }

lemma store {store : Store} (more : w.store.Extends store) : Realizes bp chart { w with store } :=
  realizes.keep realizes.nodes realizes.expansions more (fun found => found) fun found => found

/-- Where forms and instances are the same, the chart is still right. -/
lemma of_forms (nodes : g.nodes.WellFormed)
    (expansions : g.expansions.WellFormed) (forms : ∀ id, g.form? id = w.graph.form? id)
    (plain : ∀ id, g.plain? id = w.graph.plain? id) : Realizes bp chart { w with graph := g } :=
  realizes.keep nodes expansions (.refl _) (plain _).trans (forms _).trans

lemma live (found : chart.node place = some id) : w.graph.contains id := by
  obtain ⟨form, isForm, -⟩ := realizes.placed found
  exact contains_iff_form.mpr ⟨form, isForm⟩

lemma live?_eq (leads : chart.Leads target src) : w.graph.live? src = src := by
  refine live?_eq_self fun id eq => ?_
  subst eq
  obtain ⟨place, found⟩ := leads.placed
  exact realizes.live found

lemma unshown (absent : w.graph.form? id = none) (place : Place) : chart.node place ≠ some id := by
  intro found
  obtain ⟨form, isForm, -⟩ := realizes.placed found
  cases absent.symm.trans isForm

lemma adds (added : Adds new w.graph g) : Realizes bp chart { w with graph := g } :=
  realizes.keep added.nodes (added.expansions realizes.expansions) (.refl _)
    (added.plain _).trans added.form

/-- One node may be wired otherwise, if it fits wherever the chart shows it. -/
lemma rewire (nodes : g.nodes.WellFormed) (expansions : g.expansions = w.graph.expansions)
    (forms : ∀ other, g.form? other = if other = id then some form' else w.graph.form? other)
    (fits : ∀ place, chart.node place = some id → NodeFits bp chart w.store place form') :
    Realizes bp chart { w with graph := g } :=
  { realizes with
    nodes
    expansions := by
      rw [expansions]
      exact realizes.expansions
    instances := fun found => by
      obtain ⟨layer, e, isLayer, isExpansion, fits⟩ := realizes.instances found
      exact ⟨layer, e, isLayer, (plain?_of_expansions expansions _).trans isExpansion, fits⟩
    placed := fun {place other} found => by
      rw [forms]
      split
      next eq => exact ⟨form', rfl, fits place (eq ▸ found)⟩
      next => exact realizes.placed found }

end Realizes

/-! ## Nodes that enter the chart -/

/-- Nodes take up roles in an instance that nobody had. -/
def add (chart : Chart) (path : Way) (roles : List Role) (nodes : List Handle) : Chart :=
  { chart with
    node := fun place =>
      (chart.node place).or
        (if place.path = path then (roles.zip nodes).lookup place.role else none) }

section

variable {path : Way} {roles : List Role} {nodes : List Handle} {place : Place} {id : Handle}

lemma add_grows (found : chart.node place = some id) :
    (chart.add path roles nodes).node place = some id := by
  rw [add]
  dsimp only
  rw [found, some_or]

lemma add_other (other : place.path ≠ path ∨ place.role ∉ roles) :
    (chart.add path roles nodes).node place = chart.node place := by
  have absent : (if place.path = path then (roles.zip nodes).lookup place.role else none) =
      none := by
    rcases other with elsewhere | absent
    · rw [if_neg elsewhere]
    · split
      · rw [lookup_eq_none_iff]
        rintro ⟨role, n⟩ mem
        simp only [bne_iff_ne, ne_eq]
        rintro rfl
        exact absent (of_mem_zip mem).1
      · rfl
  rw [add]
  dsimp only
  rw [absent, or_none]

lemma add_role (i : Nat) (nodup : roles.Nodup) (free : chart.node ⟨path, role⟩ = none)
    (isRole : roles[i]? = some role) (isNode : nodes[i]? = some id) :
    (chart.add path roles nodes).node ⟨path, role⟩ = some id := by
  have found : (roles.zip nodes).lookup role = some id := by
    induction roles generalizing nodes i with
    | nil => cases isRole
    | cons first roles ih =>
      obtain ⟨absent, nodup⟩ := nodup_cons.mp nodup
      cases nodes with
      | nil => cases isNode
      | cons n nodes =>
        rw [zip_cons_cons, lookup_cons]
        cases i with
        | zero =>
          cases isRole
          rw [if_pos rfl]
          exact isNode
        | succ i =>
          rw [if_neg, ih i nodup isRole isNode]
          rintro rfl
          exact absent (mem_of_getElem? isRole)
  rw [add]
  dsimp only
  rw [free, if_pos rfl, none_or, found]

lemma add_cases (found : (chart.add path roles nodes).node place = some id) :
    chart.node place = some id ∨ chart.node place = none ∧ place.path = path ∧
      ∃ i : Nat, roles[i]? = some place.role ∧ nodes[i]? = some id := by
  rw [add] at found
  dsimp only at found
  cases was : chart.node place with
  | some other =>
    rw [was] at found
    exact .inl found
  | none =>
    rw [was] at found
    split at found
    next here =>
      obtain ⟨i, isPair⟩ := mem_iff_getElem?.mp (lookup_mem found)
      exact .inr ⟨rfl, here, i, getElem?_zip_eq_some.mp isPair⟩
    next => cases found

/-- New nodes get roles of their own. -/
lemma add_once (once : ∀ {place place' id}, chart.node place = some id →
      chart.node place' = some id → place = place')
    (nodup : nodes.Nodup) (unshown : ∀ n ∈ nodes, ∀ place, chart.node place ≠ some n)
    (found : (chart.add path roles nodes).node place = some id)
    (found' : (chart.add path roles nodes).node place' = some id) : place = place' := by
  rcases add_cases found with was | ⟨-, here, i, isRole, isNode⟩ <;>
    rcases add_cases found' with was' | ⟨-, here', i', isRole', isNode'⟩
  · exact once was was'
  · exact absurd was (unshown id (mem_of_getElem? isNode') place)
  · exact absurd was' (unshown id (mem_of_getElem? isNode) place')
  · obtain rfl : i = i' :=
      (getElem?_inj (lt_of_getElem? isNode) nodup).mp (isNode.trans isNode'.symm)
    cases place
    cases here
    cases here'
    rw [isRole] at isRole'
    cases isRole'
    rfl

end

variable {path : Way} {block : Nat} {layer e : Expansion} {id child : Handle} {c : Circuit}
  {links : List (String × LinkTarget)} {args : List String} {outs : List Handle}
  {hidden : Option Handle}

lemma BlockFits.add {nodes : List Handle} {state : BlockState}
    (fits : BlockFits bp chart s path block state)
    (apart : ∀ role ∈ roles, role.block? ≠ some block) :
    BlockFits bp (chart.add path roles nodes) s path block state := by
  cases state with
  | unmade =>
    refine ⟨fits.1, fun role isOf => ?_⟩
    rw [add_other (.inr fun mem => apart role mem isOf)]
    exact fits.2 role isOf
  | made | nested =>
    refine Shown.mono fits fits.site (.refl _) add_grows fun found => ?_
    rw [add_other (.inr fun mem => apart _ mem rfl)] at found
    exact found

lemma InstanceFits.of_eq (fits : InstanceFits bp chart s path layer e)
    (node : ∀ role, chart'.node ⟨path, role⟩ = chart.node ⟨path, role⟩)
    (site : ∀ block, chart'.site (path.inner block) = chart.site (path.inner block))
    (grows : ∀ {path id}, chart.site path = some id → chart'.site path = some id) :
    InstanceFits bp chart' s path layer e :=
  { fits with
    parents := fits.parents.mono grows
    blocks := fun block => by
      have fits := fits.blocks block
      generalize e.stateOf block = state at fits ⊢
      have eq : (bp.outputRoles path block).map (fun role => chart'.node ⟨path, role⟩) =
          (bp.outputRoles path block).map fun role => chart.node ⟨path, role⟩ := by simp only [node]
      cases state with
      | unmade =>
        exact ⟨(site block).trans fits.1, fun role isOf => (node role).trans (fits.2 role isOf)⟩
      | made | nested =>
        exact ⟨(site block).trans fits.site, fits.fine, fits.outputs.trans eq.symm, fun found =>
          fits.carriers ((node _).symm.trans found)⟩
    params := fun i => (fits.params i).trans (node _).symm
    anchors := fun i => (fits.anchors i).trans (node _).symm
    rest := fits.rest.trans (node _).symm
    argumentNodes := fun i => (fits.argumentNodes i).trans (node _).symm }

/-- Nodes that the chart did not show take up roles of an instance, which is told of them. -/
lemma Realizes.add (realizes : Realizes bp chart w)
    (site : chart.site path = some id) (roles : List Role) (nodes : List Handle)
    (f : Expansion → Expansion)
    (nodup : nodes.Nodup) (unshown : ∀ n ∈ nodes, ∀ place, chart.node place ≠ some n)
    (careless : ∀ e, { f e with members := #[] } = f { e with members := #[] })
    (fits : ∀ layer e, bp.layer? path = some layer → InstanceFits bp chart w.store path layer e →
      InstanceFits bp (chart.add path roles nodes) w.store path layer (f e))
    (placed : ∀ (i : Nat) role n, roles[i]? = some role → nodes[i]? = some n →
      ∃ form, w.graph.form? n = some form ∧
      NodeFits bp (chart.add path roles nodes) w.store ⟨path, role⟩ form) :
    Realizes bp (chart.add path roles nodes) { w with graph := w.graph.modifyExpansion id f } where
  nodes := realizes.nodes
  expansions := realizes.expansions.modify id f
  instances := by
    intro path' id' found
    obtain ⟨layer, e, isLayer, isExpansion, fits'⟩ := realizes.instances found
    rw [plain?_modifyExpansion _ _ _ careless]
    by_cases eq : id' = id
    · obtain rfl := realizes.siteOnce (eq ▸ found) site
      rw [if_pos eq, ← eq, isExpansion]
      exact ⟨layer, f e, isLayer, rfl, fits layer e isLayer fits'⟩
    · have elsewhere : path' ≠ path := by
        rintro rfl
        exact eq (some.inj (found.symm.trans site))
      rw [if_neg eq]
      exact ⟨layer, e, isLayer, isExpansion,
        fits'.of_eq (fun role => add_other (.inl elsewhere)) (fun _ => rfl) fun found => found⟩
  placed := by
    intro place n found
    rcases add_cases found with was | ⟨-, rfl, i, isRole, isNode⟩
    · obtain ⟨form, isForm, fits⟩ := realizes.placed was
      exact ⟨form, isForm, fits.mono ⟨add_grows, fun found => found⟩ (.refl _)⟩
    · exact placed i place.role n isRole isNode
  nodeOnce := add_once realizes.nodeOnce nodup unshown
  siteOnce := realizes.siteOnce

lemma stateOf_setBlock (inside : block < e.blocks.size) (state : BlockState)
    (other : Nat) :
    (e.setBlock block state).stateOf other = if other = block then state else e.stateOf other := by
  rw [stateOf, setBlock]
  rw [getElem?_setIfInBounds]
  by_cases eq : block = other
  · rw [if_pos eq, if_pos eq.symm, if_pos (eq ▸ inside)]
    rfl
  · rw [if_neg eq, if_neg (Ne.symm eq), stateOf]

/-- The nodes of a block take up their roles, and the instance is told that the block is made. -/
lemma Realizes.makeBlock (realizes : Realizes bp chart w)
    (site : chart.site path = some id) (roles : List Role) (nodes : List Handle)
    (state : BlockState)
    (nodup : nodes.Nodup) (unshown : ∀ n ∈ nodes, ∀ place, chart.node place ≠ some n)
    (ofBlock : ∀ role ∈ roles, role.block? = some block)
    (inside : ∀ layer, bp.layer? path = some layer → block < layer.circuit.blocks.length)
    (fits : BlockFits bp (chart.add path roles nodes) w.store path block state)
    (placed : ∀ (i : Nat) role n, roles[i]? = some role → nodes[i]? = some n →
      ∃ form, w.graph.form? n = some form ∧
      NodeFits bp (chart.add path roles nodes) w.store ⟨path, role⟩ form) :
    Realizes bp (chart.add path roles nodes)
      { w with graph := w.graph.modifyExpansion id (·.setBlock block state) } := by
  have others : ∀ role : Role, role.block? = none →
      (chart.add path roles nodes).node ⟨path, role⟩ = chart.node ⟨path, role⟩ := by
    intro role noBlock
    refine add_other (.inr fun mem => ?_)
    cases noBlock.symm.trans (ofBlock role mem)
  refine realizes.add site roles nodes _ nodup unshown (fun _ => rfl)
    (fun layer e isLayer fits' => ?_) placed
  have inside' : block < e.blocks.size := by
    rw [fits'.size]
    exact inside layer isLayer
  exact { fits' with
    parents := fits'.parents.mono fun found => found
    size := by
      rw [← fits'.size]
      exact size_setIfInBounds
    blocks := fun other => by
      rw [stateOf_setBlock inside']
      split
      next here =>
        subst here
        exact fits
      next elsewhere =>
        refine (fits'.blocks other).add fun role mem isOf => elsewhere ?_
        exact (some.inj ((ofBlock role mem).symm.trans isOf)).symm
    params := fun i => (fits'.params i).trans (others _ rfl).symm
    anchors := fun i => (fits'.anchors i).trans (others _ rfl).symm
    rest := fits'.rest.trans (others _ rfl).symm
    argumentNodes := fun i => (fits'.argumentNodes i).trans (others _ rfl).symm }

/-! ## Instances that enter the chart -/

/-- A new instance at the end of a way. -/
def nest (chart : Chart) (path : Way) (child : Handle) : Chart :=
  { chart with site := fun other => if other = path then some child else chart.site other }

lemma nest_grows (free : chart.site path = none)
    (found : chart.site other = some id) : (chart.nest path child).site other = some id := by
  rw [nest]
  dsimp only
  rw [if_neg, found]
  rintro rfl
  cases free.symm.trans found

lemma nest_cases (found : (chart.nest path child).site other = some id) :
    other = path ∧ id = child ∨ chart.site other = some id := by
  rw [nest] at found
  dsimp only at found
  split at found
  next here => exact .inl ⟨here, (some.inj found).symm⟩
  next => exact .inr found

lemma nest_once (once : ∀ {path path' id}, chart.site path = some id →
      chart.site path' = some id → path = path')
    (unknown : ∀ path, chart.site path ≠ some child)
    (found : (chart.nest path child).site first = some id)
    (found' : (chart.nest path child).site second = some id) :
    first = second := by
  rcases nest_cases found with ⟨rfl, rfl⟩ | was <;> rcases nest_cases found' with ⟨rfl, eq⟩ | was'
  · rfl
  · exact absurd was' (unknown second)
  · exact absurd (eq ▸ was) (unknown first)
  · exact once was was'

/-- What is nested in an instance that is not there is not there either. -/
lemma Realizes.free (realizes : Realizes bp chart w) (free : chart.site path = none) :
    (∀ role, chart.node ⟨path, role⟩ = none) ∧ ∀ block, chart.site (path.inner block) = none := by
  constructor
  · intro role
    rw [eq_none_iff_forall_ne_some]
    intro id found
    obtain ⟨form, -, fits⟩ := realizes.placed found
    obtain ⟨owner, isOwner, -⟩ := fits.owner
    cases free.symm.trans isOwner
  · intro block
    rw [eq_none_iff_forall_ne_some]
    intro id found
    obtain ⟨layer, e, -, -, fits⟩ := realizes.instances found
    obtain ⟨outer, rest, -, isOuter, -⟩ := fits.parents
    cases free.symm.trans isOuter

/-- The state of a nested block with its instance. -/
def withChild (block : Nat) (child : Handle) (e : Expansion) : Expansion :=
  match e.stateOf block with
  | .nested outs hidden _ => e.setBlock block (.nested outs hidden (some child))
  | _ => e

/-- An instance of which nothing is made. -/
def blank (c : Circuit) (parents : List CallSite) (links : List (String × LinkTarget))
    (args : List String) : Expansion :=
  { circuit := c, parents, links, blocks := replicate c.blocks.length .unmade, arguments := args }

lemma stateOf_blank (c : Circuit) (parents : List CallSite) (links : List (String × LinkTarget))
    (args : List String) (block : Nat) : (blank c parents links args).stateOf block = .unmade := by
  rw [blank, stateOf]
  rw [Array.getElem?_replicate]
  split <;> rfl

lemma InstanceFits.of_blank {parents : List CallSite}
    (like : layer.circuit = c ∧ layer.arguments = args ∧ layer.links = links)
    (isParents : chart.Parents path parents)
    (nested : path.paramCount c = 0 ∧ path.anchorCount c = 0)
    (nodes : ∀ role, chart.node ⟨path, role⟩ = none)
    (sites : ∀ block, chart.site (path.inner block) = none) :
    InstanceFits bp chart s path layer (blank c parents links args) where
  circuit := like.1.symm
  arguments := like.2.1.symm
  links := like.2.2.symm
  parents := isParents
  size := by rw [like.1, blank, size_replicate]
  blocks block := by
    rw [stateOf_blank]
    exact ⟨sites block, fun role _ => nodes role⟩
  params i := (nodes _).symm
  paramCount := by rw [like.1, nested.1]; rfl
  anchors i := (nodes _).symm
  anchorCount := by rw [like.1, nested.2]; rfl
  rest := (nodes _).symm
  argumentNodes i := (nodes _).symm

/-- An instance is told of the instance that was made for one of its blocks. -/
lemma InstanceFits.withChild (fits : InstanceFits bp chart s path layer e)
    (state : e.stateOf block = .nested outs hidden none) :
    InstanceFits bp (chart.nest (path.inner block) child) s path layer
      (withChild block child e) := by
  have fits' := fits.blocks block
  rw [state] at fits'
  have free : chart.site (path.inner block) = none := Shown.site fits'
  have inside : block < e.blocks.size := by
    by_contra outside
    rw [Expansion.stateOf, Array.getElem?_eq_none (Nat.le_of_not_lt outside)] at state
    cases state
  rw [Chart.withChild, state]
  exact { fits with
    parents := fits.parents.mono (nest_grows free)
    size := by rw [← fits.size]; exact size_setIfInBounds
    blocks := fun other => by
      rw [stateOf_setBlock inside]
      split
      next here =>
        subst here
        exact Shown.mono fits' (if_pos rfl) (.refl _) (fun found => found) fun found => found
      next elsewhere =>
        have site : (chart.nest (path.inner block) child).site (path.inner other) =
            chart.site (path.inner other) :=
          if_neg fun eq => elsewhere (Way.inner.inj eq).2
        have fits := fits.blocks other
        generalize e.stateOf other = state at fits ⊢
        cases state with
        | unmade => exact ⟨site.trans fits.1, fits.2⟩
        | made | nested =>
          exact Shown.mono fits (site.trans fits.site) (.refl _) (fun found => found) fun found =>
            found }

lemma Realizes.nest (realizes : Realizes bp chart w) (site : chart.site path = some id)
    (isLayer : bp.layer? (path.inner block) = some layer) (isExpansion : w.graph.plain? id = some e)
    (state : e.stateOf block = .nested outs hidden none)
    (like : layer.circuit = c ∧ layer.arguments = args ∧ layer.links = links) {child : Expansion}
    (isChild : child = blank c (⟨id, block⟩ :: e.parents) links args) :
    Realizes bp (chart.nest (path.inner block) (w.graph.expansions.alloc child).1)
      { w with
        graph :=
          { w.graph with expansions := (w.graph.expansions.alloc child).2 }.modifyExpansion id
          (withChild block (w.graph.expansions.alloc child).1) } := by
  obtain ⟨wf, fresh, found, -⟩ := Arena.alloc_facts realizes.expansions child
  generalize w.graph.expansions.alloc child = new at wf fresh found ⊢
  obtain ⟨childId, expansions⟩ := new
  obtain ⟨layer', e', isLayer', isExpansion', fits⟩ := realizes.instances site
  obtain rfl := some.inj (isExpansion.symm.trans isExpansion')
  have free : chart.site (path.inner block) = none := by
    have fits := fits.blocks block
    rw [state] at fits
    exact Shown.site fits
  obtain ⟨noNodes, noSites⟩ := realizes.free free
  -- the new handle is none of those on the chart
  have unknown : ∀ {other e}, w.graph.plain? other = some e → other ≠ childId := by
    intro other e isExpansion isNew
    subst isNew
    obtain ⟨e', live, -⟩ := map_eq_some_iff.mp isExpansion
    exact fresh (.inl (Arena.contains_iff.mpr ⟨e', live⟩))
  have differs : ∀ {path id}, chart.site path = some id → id ≠ childId := by
    intro path id found
    obtain ⟨_, _, -, isExpansion, -⟩ := realizes.instances found
    exact unknown isExpansion
  have careless : ∀ e, { withChild block childId e with members := #[] } =
      withChild block childId { e with members := #[] } := by
    intro e
    rw [withChild, withChild]
    have eq : stateOf { e with members := #[] } block = e.stateOf block := rfl
    rw [eq]
    split <;> rfl
  have plain : ∀ other,
      (({ w.graph with expansions } : Graph).modifyExpansion id (withChild block childId)).plain?
        other =
      if other = childId then some child
      else if other = id then some (withChild block childId e) else w.graph.plain? other := by
    have placed : ∀ other, ({ w.graph with expansions } : Graph).plain? other =
        if other = childId then some child else w.graph.plain? other := by
      intro other
      rw [plain?, expansion?, found]
      split
      · rw [isChild]
        rfl
      · rfl
    intro other
    rw [plain?_modifyExpansion _ _ _ careless, placed, placed, if_neg (differs site), isExpansion]
    by_cases isNew : other = childId
    · rw [if_pos isNew, if_pos isNew, if_neg]
      exact fun eq => differs site (eq.symm.trans isNew)
    · rw [if_neg isNew, if_neg isNew]
      rfl
  have grows : ∀ {other id}, chart.site other = some id →
      (chart.nest (path.inner block) childId).site other = some id :=
    nest_grows free
  exact {
    nodes := realizes.nodes
    expansions := wf.modify id _
    instances := by
      intro path' id' found
      rw [plain]
      rcases nest_cases found with ⟨rfl, rfl⟩ | was
      · rw [if_pos rfl]
        refine ⟨layer, child, isLayer, rfl, ?_⟩
        rw [isChild]
        refine InstanceFits.of_blank like ⟨id, e.parents, rfl, grows site, fits.parents.mono grows⟩
          ⟨rfl, rfl⟩ noNodes fun other => ?_
        exact (if_neg fun eq => Way.inner_ne_self _ _ (Way.inner.inj eq).1).trans (noSites other)
      · rw [if_neg (differs was)]
        by_cases here : id' = id
        · obtain rfl := realizes.siteOnce (here ▸ was) site
          rw [if_pos here]
          exact ⟨layer', _, isLayer', rfl, fits.withChild state⟩
        · have elsewhere : path' ≠ path := by
            rintro rfl
            exact here (some.inj (was.symm.trans site))
          rw [if_neg here]
          obtain ⟨layer'', e'', isLayer'', isExpansion'', fits''⟩ := realizes.instances was
          exact ⟨layer'', e'', isLayer'', isExpansion'', fits''.of_eq (fun _ => rfl)
            (fun other => if_neg fun eq => elsewhere (Way.inner.inj eq).1) grows⟩
    placed := by
      intro place id' found
      obtain ⟨form, isForm, fits⟩ := realizes.placed found
      exact ⟨form, isForm, fits.mono ⟨fun found => found, grows⟩ (.refl _)⟩
    nodeOnce := realizes.nodeOnce
    siteOnce := nest_once realizes.siteOnce fun _ found => differs found rfl }

end Chart

end Blockflow
