import Blockflow.Proofs.Expand.Ranking
import Blockflow.Proofs.Graph.Operations

/-!
# Instantiating circuits

A root has a node for every input and a node for every output of its circuit; the latter wait for
the links that they are named after. Nothing else is made at first.
-/

namespace Blockflow

open Blueprint Chart Expand Expansion Graph List Option Role

namespace Chart

variable {P : Native → Prop} {bp : Blueprint P} {chart : Chart} {w : Workspace}
  {i : Nat} {id : Handle}
  {params outs : List Handle}

/-- The roles of the nodes of a root. -/
def rootRoles (params outs : Nat) : List Role :=
  (range params).map .param ++ (range outs).map .output

section

variable {make : Nat → Role}

/-- Numbered nodes are found under their numbers. -/
lemma lookup_zip_range (injective : ∀ {k k'}, make k = make k' → k = k')
    (nodes : List Handle) (k : Nat) :
    (((range nodes.length).map make).zip nodes).lookup (make k) = nodes[k]? := by
  suffices from' : ∀ start, (((range' start nodes.length).map make).zip nodes).lookup
      (make (start + k)) = nodes[k]? by
    simpa [range_eq_range'] using from' 0
  intro start
  induction nodes generalizing start k with
  | nil => rfl
  | cons n nodes ih =>
    rw [length_cons, range'_succ, map_cons, zip_cons_cons, lookup_cons]
    cases k with
    | zero => exact if_pos rfl
    | succ k =>
      rw [if_neg fun eq => by have := injective eq; omega, show start + (k + 1) = start + 1 + k by
        omega, ih]
      rfl

lemma lookup_zip_other (other : ∀ k, role ≠ make k) {count : Nat} (nodes : List Handle) :
    (((range count).map make).zip nodes).lookup role = none := by
  rw [lookup_eq_none_iff]
  rintro ⟨_, n⟩ mem
  obtain ⟨k, -, rfl⟩ := mem_map.mp (of_mem_zip mem).1
  simpa using other k

end

/-- The chart with a new root. -/
def found (chart : Chart) (i : Nat) (id : Handle) (params outs : List Handle) : Chart :=
  (chart.nest (.root i) id).add (.root i) (rootRoles params.length outs.length) (params ++ outs)

lemma found_site (path : Way) : (chart.found i id params outs).site path =
    if path = .root i then some id else chart.site path := rfl

lemma found_other (elsewhere : place.path ≠ .root i) :
    (chart.found i id params outs).node place = chart.node place := add_other (.inl elsewhere)

section

variable (free : ∀ role, chart.node ⟨.root i, role⟩ = none)
include free

lemma found_lookup (role : Role) : (chart.found i id params outs).node ⟨.root i, role⟩ =
    ((((range params.length).map param).zip params).lookup role).or
      ((((range outs.length).map output).zip outs).lookup role) := by
  rw [← lookup_append, ← zip_append (by simp)]
  show (chart.node _).or (if _ then _ else _) = _
  rw [free, none_or, if_pos rfl]
  rfl

lemma found_param (k : Nat) :
    (chart.found i id params outs).node ⟨.root i, .param k⟩ = params[k]? := by
  rw [found_lookup free, lookup_zip_range (fun eq => param.inj eq),
    lookup_zip_other (fun _ => Role.noConfusion), or_none]

lemma found_output (k : Nat) :
    (chart.found i id params outs).node ⟨.root i, .output k⟩ = outs[k]? := by
  rw [found_lookup free, lookup_zip_other (fun _ => Role.noConfusion),
    lookup_zip_range (fun eq => output.inj eq), none_or]

lemma found_none (isParam : ∀ k, role ≠ .param k) (isOutput : ∀ k, role ≠ .output k) :
    (chart.found i id params outs).node ⟨.root i, role⟩ = none := by
  rw [found_lookup free, lookup_zip_other isParam, lookup_zip_other isOutput, none_or]

end

/-- What the new chart shows is a node of the root, or was shown before. -/
lemma found_cases (free : ∀ role, chart.node ⟨.root i, role⟩ = none)
    (shown : (chart.found i id params outs).node place = some n) :
    chart.node place = some n ∨ (∃ k, place = ⟨.root i, .param k⟩ ∧ params[k]? = some n) ∨
      ∃ k, place = ⟨.root i, .output k⟩ ∧ outs[k]? = some n := by
  obtain ⟨path, role⟩ := place
  by_cases here : path = .root i
  · subst here
    cases role with
    | param k =>
      rw [found_param free] at shown
      exact .inr (.inl ⟨k, rfl, shown⟩)
    | output k =>
      rw [found_output free] at shown
      exact .inr (.inr ⟨k, rfl, shown⟩)
    | _ =>
      rw [found_none free (fun _ => Role.noConfusion) fun _ => Role.noConfusion] at shown
      cases shown
  · rw [found_other here] at shown
    exact .inl shown

lemma found_all (free : ∀ role, chart.node ⟨.root i, role⟩ = none) (isNew : n ∈ params ++ outs) :
    ∃ place, (chart.found i id params outs).node place = some n := by
  rcases mem_append.mp isNew with among | among <;> obtain ⟨k, isNode⟩ := mem_iff_getElem?.mp among
  · exact ⟨⟨.root i, .param k⟩, (found_param free k).trans isNode⟩
  · exact ⟨⟨.root i, .output k⟩, (found_output free k).trans isNode⟩

lemma found_within (realizes : Realizes bp chart w) (free : chart.site (.root i) = none) :
    chart.Within (chart.found i id params outs) := by
  obtain ⟨noNodes, -⟩ := realizes.free free
  refine ⟨fun {place other} shown => ?_, fun {path other} shown => ?_⟩
  · rw [found_other]
    · exact shown
    · intro here
      obtain ⟨path, role⟩ := place
      obtain rfl : path = .root i := here
      cases (noNodes role).symm.trans shown
  · rw [found_site, if_neg]
    · exact shown
    · rintro rfl
      cases free.symm.trans shown

/-- The form of an output node that was just made. -/
def rootOutput (id : Handle) (name : String) : Form :=
  if name.isEmpty then Form.make .pass 1 (some id) else
    (Form.make .pass 1 (some id)).await 0 (.link name)

lemma rootOutput_facts (id : Handle) (name : String) : (rootOutput id name).behavior = .pass ∧
    (rootOutput id name).owner = some id ∧ (rootOutput id name).inputs = [none] ∧
    ∀ entry, entry ∈ (rootOutput id name).pending ↔ name.isEmpty = false ∧
    entry = (0, .link name) := by
  rw [rootOutput]
  split
  next isEmpty =>
    refine ⟨rfl, rfl, rfl, fun entry => ⟨fun mem => (by cases mem), fun filled => ?_⟩⟩
    rw [isEmpty] at filled
    cases filled.1
  next filled =>
    refine ⟨rfl, rfl, rfl, fun entry => ?_⟩
    rw [Form.mem_pending_await]
    exact ⟨fun mem => ⟨by simpa using filled, mem.resolve_left fun old => by cases old.1⟩,
      fun eq => .inr eq.2⟩

/-- A root and its nodes were added. -/
structure Founded (c : Circuit) (links : List (String × LinkTarget))
    (args : List String) (id : Handle)
    (params outputs : List Handle) (before after : Graph) : Prop where
  nodes : after.nodes.WellFormed
  expansions : after.expansions.WellFormed
  unknown : before.plain? id = none
  plain : ∀ other, after.plain? other = if other = id then
    some { blank c [] links args with params, anchors := outputs } else before.plain? other
  once : (params ++ outputs).Nodup
  fresh : ∀ n ∈ params ++ outputs, before.form? n = none
  kept : ∀ other, other ∉ params ++ outputs → after.form? other = before.form? other
  params : Forall₂ (fun k n => after.form? n = some (.make (.param k) 0 (some id)))
    (range c.inputs.length) params
  outputs : Forall₂ (fun name n => after.form? n = some (rootOutput id name))
    c.outputPins.names outputs

namespace Founded

variable {c : Circuit} {links : List (String × LinkTarget)} {args : List String}
  {g : Graph} {k : Nat}
  {n : Handle} {form : Form}

variable (founded : Founded c links args id params outs w.graph g)
include founded

lemma param (isParam : params[k]? = some n) : g.form? n = some (.make (.param k) 0 (some id)) :=
  (forall₂_range founded.params).2 isParam

lemma output (isOutput : outs[k]? = some n) :
    ∃ name, c.outputPins.name? k = some name ∧ g.form? n = some (rootOutput id name) := by
  obtain ⟨name, at', isForm⟩ := forall₂_getElem? founded.outputs isOutput
  refine ⟨name, ?_, isForm⟩
  rw [Pins.name?, ← getElem?_map]
  exact at'

section

variable (isNew : n ∈ params ++ outs) (isForm : g.form? n = some form)
include isNew isForm

lemma unread : form.Unread := by
  rcases mem_append.mp isNew with among | among <;> obtain ⟨k, isNode⟩ := mem_iff_getElem?.mp among
  · cases isForm.symm.trans (founded.param isNode)
    exact .of_idle rfl
  · obtain ⟨name, -, isForm'⟩ := founded.output isNode
    cases isForm.symm.trans isForm'
    obtain ⟨-, -, inputs, pending⟩ := rootOutput_facts id name
    intro entry mem
    obtain ⟨-, rfl⟩ := (pending entry).mp mem
    rw [inputs]
    rfl

lemma not_const (v : Value) : form.behavior ≠ .const v := by
  rcases mem_append.mp isNew with among | among <;> obtain ⟨k, isNode⟩ := mem_iff_getElem?.mp among
  · cases isForm.symm.trans (founded.param isNode)
    exact Behavior.noConfusion
  · obtain ⟨name, -, isForm'⟩ := founded.output isNode
    cases isForm.symm.trans isForm'
    rw [(rootOutput_facts id name).1]
    exact Behavior.noConfusion

end

lemma quiet (quiet : w.graph.Quiet) : g.Quiet := by
  intro other e isExpansion
  have isPlain : g.plain? other = some { e with members := #[] } := by
    rw [plain?, isExpansion, map_some]
  rw [founded.plain] at isPlain
  split at isPlain
  · have eq := congrArg expanding (some.inj isPlain)
    exact eq.symm
  · obtain ⟨e', was, eq⟩ := map_eq_some_iff.mp isPlain
    have eq := congrArg expanding eq
    exact eq.symm.trans (quiet other e' was)

end Founded

lemma NodeFits.rootOutput (isLayer : bp.layer? (.root i) = some layer)
    (site : chart.site (.root i) = some id)
    (isName : layer.circuit.outputPins.name? k = some name) :
    NodeFits bp chart store ⟨.root i, .output k⟩ (rootOutput id name) := by
  obtain ⟨behavior, owner, inputs, pending⟩ := rootOutput_facts id name
  have pins : bp.pins ⟨.root i, .output k⟩ = [.link name] := by
    rw [pins, isLayer, bind_some, isName]
    rfl
  refine ⟨⟨id, site, owner⟩, behavior, by
    rw [inputs, pins]; rfl, fun entry mem => ?_, fun {pin target} isTarget idle => ?_⟩
  · obtain ⟨-, rfl⟩ := (pending entry).mp mem
    exact ⟨.link name, by rw [pins]; rfl, rfl⟩
  · rw [pins] at isTarget
    obtain ⟨rfl, rfl⟩ : pin = 0 ∧ target = .link name := by
      cases pin with
      | zero => exact ⟨rfl, (some.inj isTarget).symm⟩
      | succ => cases isTarget
    have isEmpty : name.isEmpty := by
      cases filled : name.isEmpty with
      | true => rfl
      | false => exact absurd ((pending _).mpr ⟨filled, rfl⟩) (idle _)
    refine ⟨bp.linkFine_empty store _ isEmpty, trivial, none, by rw [inputs]; rfl, ?_⟩
    rw [targetSource, bp.source_empty _ isEmpty]
    rfl

lemma Realizes.root (realizes : Realizes bp chart w) (free : chart.site (.root i) = none)
    {links : List (String × LinkTarget)} {args : List String}
    (isLayer : bp.layer? (.root i) = some (blank c [] links args)) {g : Graph}
    (founded : Founded c links args id params outs w.graph g) :
    Realizes bp (chart.found i id params outs) { w with graph := g } := by
  obtain ⟨noNodes, noSites⟩ := realizes.free free
  have within : chart.Within (chart.found i id params outs) := found_within realizes free
  have kept : ∀ {place other form}, chart.node place = some other →
      w.graph.form? other = some form →
      g.form? other = some form := by
    intro place other form shown was
    rw [founded.kept]
    · exact was
    · intro isNew
      cases (founded.fresh other isNew).symm.trans was
  have here : (chart.found i id params outs).site (.root i) = some id :=
    (found_site _).trans (if_pos rfl)
  exact {
    nodes := founded.nodes
    expansions := founded.expansions
    instances := by
      intro path other shown
      rw [found_site] at shown
      split at shown
      next isRoot =>
        cases shown
        subst isRoot
        rw [founded.plain, if_pos rfl]
        refine ⟨_, _, isLayer, rfl, ?_⟩
        exact {
          circuit := rfl
          arguments := rfl
          links := rfl
          parents := rfl
          size := Array.size_replicate
          blocks := fun block => by
            show BlockFits _ _ _ _ _ ((blank c [] links args).stateOf block)
            rw [stateOf_blank]
            refine ⟨((found_site _).trans (if_neg Way.noConfusion)).trans (noSites block),
              fun role isOf => ?_⟩
            refine found_none noNodes (fun k eq => ?_) fun k eq => ?_ <;> subst eq <;> cases isOf
          params := fun k => (found_param noNodes k).symm
          paramCount := founded.params.length_eq.symm.trans (length_range ..)
          anchors := fun k => (found_output noNodes k).symm
          anchorCount := founded.outputs.length_eq.symm
          rest := (found_none noNodes (fun _ => Role.noConfusion) fun _ => Role.noConfusion).symm
          argumentNodes := fun k =>
            (found_none noNodes (fun _ => Role.noConfusion) fun _ => Role.noConfusion).symm }
      next elsewhere =>
        obtain ⟨layer, e, isLayer', isExpansion, fits⟩ := realizes.instances shown
        have differs : other ≠ id := by
          rintro rfl
          cases founded.unknown.symm.trans isExpansion
        rw [founded.plain, if_neg differs]
        exact ⟨layer, e, isLayer', isExpansion, fits.of_eq (fun role => found_other elsewhere)
          (fun block => (found_site _).trans (if_neg Way.noConfusion)) within.site⟩
    placed := by
      intro place other shown
      rcases found_cases noNodes shown with was | ⟨k, rfl, isParam⟩ | ⟨k, rfl, isOutput⟩
      · obtain ⟨form, isForm, fits⟩ := realizes.placed was
        exact ⟨form, kept was isForm, fits.mono within (.refl _)⟩
      · refine ⟨_, founded.param isParam, ⟨id, here, rfl⟩, rfl, rfl, fun entry mem =>
          (by cases mem), fun isTarget => ?_⟩
        cases isTarget
      · obtain ⟨name, isName, isForm⟩ := founded.output isOutput
        exact ⟨_, isForm, .rootOutput isLayer here isName⟩
    nodeOnce := add_once realizes.nodeOnce founded.once fun n isNew =>
      realizes.unshown (founded.fresh n isNew)
    siteOnce := nest_once realizes.siteOnce fun path shown => by
      obtain ⟨_, _, -, isExpansion, -⟩ := realizes.instances shown
      cases founded.unknown.symm.trans isExpansion }

end Chart

namespace Expand

variable {w : Workspace}

lemma output_makes (id : Handle) : Makes [] (fun name => do
      let n ← addOwned .pass 1 id
      Edit.modifyGraph (·.addPendingLink n 0 name)
      return n) fun name => rootOutput id name := by
  have makes :=
    (Makes.addOwned (fun _ : String => .pass) 1 id).edit (fun name n g => g.addPendingLink n 0 name)
    (fun name form => if name.isEmpty then form else form.await 0 (.link name))
    (fun name n g => by
      rw [addPendingLink]
      split
      · exact .refl g
      · exact .addPending g n 0 _)
    (fun name n g => expansions_addPendingLink g n 0 name)
    fun name n g other _ => form?_addPendingLink g n 0 name other
  exact makes

lemma instantiate_founds (args : List String) {c : Circuit}
    {links : List (String × LinkTarget)} (nodes : w.graph.nodes.WellFormed)
    (expansions : w.graph.expansions.WellFormed)
    (isCircuit : lib.circuit? name = some c) (isLinks : linkMap c = .ok links) :
    ∃ id params outs g, (instantiate lib name args).run w =
        (.ok ⟨c.name, some id, params, outs, c.outputPins.names⟩, { w with graph := g }) ∧
      Founded c links args id params outs w.graph g := by
  obtain ⟨wf, fresh, found, -⟩ := Arena.alloc_facts expansions (blank c [] links args)
  rw [instantiate, isCircuit]
  dsimp only
  rw [make_eq, isLinks]
  show ∃ id params outs g, (addRootNodes (w.graph.expansions.alloc (blank c [] links args)).1 c).run
    { w with graph :=
      { w.graph with expansions := (w.graph.expansions.alloc (blank c [] links args)).2 } } = _ ∧ _
  generalize w.graph.expansions.alloc (blank c [] links args) = new at wf fresh found ⊢
  obtain ⟨id, after⟩ := new
  have none : ∀ {e}, w.graph.expansion? id ≠ some e :=
    fun live => fresh (.inl (Arena.contains_iff.mpr ⟨_, live⟩))
  -- the parameters, then the outputs
  obtain ⟨params, g, ran, adds, once, forms⟩ := (Makes.addOwned (fun k => .param k) 0 id).mapM
    (range c.inputs.length) (w := { w with graph := { w.graph with expansions := after } }) nodes
      (forall_mem_nil _)
  obtain ⟨outs, g', ran', adds', once', forms'⟩ := (output_makes id).mapM c.outputPins.names
    (w := { w with graph := g }) adds.nodes (forall_mem_nil _)
  have both := adds.trans adds'
  refine ⟨id, params, outs, g'.modifyExpansion id fun e => { e with params, anchors :=
    outs }, ?_, ?_⟩
  · rw [addRootNodes, Effect.run_bind, ran]
    dsimp only
    rw [Effect.run_bind, ran']
    rfl
  · have plain : ∀ other, g'.plain? other =
        if other = id then some (blank c [] links args) else w.graph.plain? other := by
      intro other
      rw [both.plain, plain?, expansion?, found]
      split
      · rfl
      · rfl
    refine ⟨both.nodes, (both.expansions wf).modify id _, ?_, fun other => ?_, ?_, both.fresh,
      both.kept, ?_, forms'⟩
    · rw [plain?, map_eq_none_iff, eq_none_iff_forall_ne_some]
      exact fun e => none
    · rw [plain?_modifyExpansion _ _ _ fun _ => rfl, plain, plain, if_pos rfl]
      split
      · rfl
      · rfl
    · exact nodup_append.mpr ⟨once, once', fun n among _ among' eq =>
        adds.disjoint adds' among (eq ▸ among')⟩
    · refine forms.imp fun k n isForm => ?_
      exact adds'.form isForm

end Expand

variable {known base : Heap} {bp : Blueprint (Native.Reliable known)} {chart : Chart}
  {w : Workspace}
  {env : Environment} {i : Nat} {order : List Handle}

/-- The root that a circuit of a library is expanded from, before anything is made of it. -/
def Library.Founds (lib : Library) (request : String × List String) (layer : Expansion) : Prop :=
  ∃ c, lib.circuit? request.1 = some c ∧ make c [] request.2 = .ok layer

/-- The nodes of a root are on the chart. -/
structure Chart.ShowsRoot (bp : Blueprint (Native.Reliable known)) (chart : Chart) (i : Nat)
    (root : Root) :
    Prop where
  site : ∃ id, chart.site (.root i) = some id
  params : ∀ {k id}, root.params[k]? = some id → chart.node ⟨.root i, .param k⟩ = some id
  outputs : ∀ {k id}, root.outputs[k]? = some id → chart.node ⟨.root i, .output k⟩ = some id
  counts : ∃ layer, bp.layer? (.root i) = some layer ∧
    root.params.length = layer.circuit.inputs.length ∧
    root.outputs.length = layer.circuit.outputPins.names.length

namespace Chart.ShowsRoot

variable {chart' : Chart} {root : Root}

lemma mono (shows' : chart.ShowsRoot bp i root) (within : chart.Within chart') :
    chart'.ShowsRoot bp i root where
  site := by
    obtain ⟨id, site⟩ := shows'.site
    exact ⟨id, within.site site⟩
  params isParam := within.node (shows'.params isParam)
  outputs isOutput := within.node (shows'.outputs isOutput)
  counts := shows'.counts

lemma param (shows' : chart.ShowsRoot bp i root) (realizes : Realizes bp chart w) {id : Handle}
    (shown : chart.node ⟨.root i, .param k⟩ = some id) : root.params[k]? = some id := by
  obtain ⟨layer, isLayer, count, -⟩ := shows'.counts
  obtain ⟨owner, site⟩ := shows'.site
  obtain ⟨layer', e, isLayer', -, fits⟩ := realizes.instances site
  cases isLayer.symm.trans isLayer'
  have inside : k < root.params.length := by
    have inside : k < e.params.length := lt_of_getElem? ((fits.params k).trans shown)
    rw [fits.paramCount] at inside
    exact count ▸ inside
  obtain ⟨id', isParam⟩ : ∃ id', root.params[k]? = some id' := ⟨_, getElem?_eq_getElem inside⟩
  rw [isParam, ← shows'.params isParam, shown]

end Chart.ShowsRoot

variable {name : String} {args : List String}

/-- A root that the blueprint has can be instantiated. -/
lemma Expanded.instantiate (expanded : Expanded bp env.methods base chart none w)
    (ranked : Ranked chart order w) (free : chart.site (.root i) = none)
    (founds : env.library.Founds (name, args) layer) (isBase : bp.bases[i]? = some layer) :
    ∃ root g chart', (instantiate env.library name args).run w = (.ok root, { w with graph := g }) ∧
      chart.Within chart' ∧
      (∀ other, other ≠ i → chart'.site (.root other) = chart.site (.root other)) ∧
      chart'.ShowsRoot bp i root ∧ Expanded bp env.methods base chart' none { w with graph := g } ∧
      Ranked chart' order { w with graph := g } ∧ g.previews = w.graph.previews ∧
      (chart.Accounts w.graph → chart'.Accounts g) := by
  obtain ⟨c, isCircuit, isLayer⟩ := founds
  rw [make_eq] at isLayer
  cases isLinks : linkMap c with
  | error d =>
    rw [isLinks] at isLayer
    cases isLayer
  | ok links =>
    rw [isLinks] at isLayer
    obtain rfl : blank c [] links args = layer := Except.ok.inj isLayer
    have isLayer' : bp.layer? (.root i) = some (blank c [] links args) := by
      rw [layer?, layers, isBase]
      rfl
    obtain ⟨id, params, outs, g, ran, founded⟩ := instantiate_founds args
      expanded.realizes.nodes expanded.realizes.expansions isCircuit isLinks
    have editing :=
      instantiate_editing (EditRules.fresh_expanding (Native.Reliable known))
        expanded.realizes.nodes
      (fun _ _ computes => by cases computes) (fun _ computes => by
        cases computes) env.library name args
    have edits := editing.edits
    rw [ran] at edits
    have retains : Retains none w.graph g :=
      edits.retains expanded.realizes.nodes fun _ isBusy => by cases isBusy
    obtain ⟨noNodes, -⟩ := expanded.realizes.free free
    have within : chart.Within (chart.found i id params outs) := found_within expanded.realizes free
    -- what was there is as it was
    have old : ∀ {place n before}, (chart.found i id params outs).node place = some n →
        w.graph.node? n = some before → chart.node place = some n := by
      intro place n before shown live
      have known : n ∉ params ++ outs := fun isNew =>
        by cases (founded.fresh n isNew).symm.trans (form?_of_node? live)
      rcases found_cases noNodes shown with was | ⟨k, -, among⟩ | ⟨k, -, among⟩
      · exact was
      · exact absurd (mem_append_left _ (mem_of_getElem? among)) known
      · exact absurd (mem_append_right _ (mem_of_getElem? among)) known
    have forms : ∀ {n form}, w.graph.form? n = some form → g.form? n = some form := by
      intro n form was
      rw [founded.kept n fun isNew => by cases (founded.fresh n isNew).symm.trans was]
      exact was
    have shows' : (chart.found i id params outs).ShowsRoot bp i
        ⟨c.name, some id, params, outs, c.outputPins.names⟩ :=
      { site := ⟨id, (found_site _).trans (if_pos rfl)⟩
        params := fun isParam => (found_param noNodes _).trans isParam
        outputs := fun isOutput => (found_output noNodes _).trans isOutput
        counts :=
        ⟨_, isLayer', founded.params.length_eq.symm.trans (length_range ..),
          founded.outputs.length_eq.symm⟩ }
    refine ⟨_, g, chart.found i id params outs, ran, within,
      fun other differs => (found_site _).trans (if_neg fun eq => differs (Way.root.inj eq)),
      shows', ?_, ?_,
      retains.previews, fun accounts n form isForm => ?_⟩
    · exact {
        realizes := expanded.realizes.root free isLayer' founded
        quiet := founded.quiet expanded.quiet
        accounted := fun {n form} isForm => by
          by_cases isNew : n ∈ params ++ outs
          · exact .inl (found_all noNodes isNew)
          · rw [founded.kept n isNew] at isForm
            exact (expanded.accounted isForm).imp_left (Exists.imp fun _ => within.node)
        sound := expanded.sound.edits edits
        stuck := fun {place n after} shown live _ idle waits => by
          cases was : w.graph.node? n with
          | none =>
            obtain ⟨-, isQueued⟩ := retains.fresh live was
            cases idle.symm.trans isQueued
          | some before =>
            obtain ⟨after', live', output, queued⟩ := retains.later was
            cases live.symm.trans live'
            have pending : after.pending = before.pending := congrArg Form.pending
              (some.inj ((form?_of_node? live).symm.trans (forms (form?_of_node? was))))
            rw [output, pending]
            exact expanded.stuck (old shown was) was (some_ne_none _)
              (idle_of_queued (queued (some_ne_none _)) idle)
              (pending ▸ waits)
        within := expanded.within
        coherent := by
          refine expanded.coherent.retains retains fun heap fits constants =>
            ⟨heap, .refl _, fits, fun n form v isForm computes => ?_⟩
          by_cases isNew : n ∈ params ++ outs
          · exact absurd computes (founded.not_const isNew isForm v)
          · exact constants n form v ((founded.kept n isNew).symm.trans isForm) computes }
    · refine ⟨ranked.once, fun {place n after} shown live isShown => ?_, fun mem => ?_,
        fun isOrder => ?_⟩
      · obtain ⟨v, output⟩ := isSome_iff_exists.mp isShown
        obtain ⟨before, was, eq⟩ := retains.shown live output
        exact ranked.shown (old shown was) was (eq ▸ rfl)
      · obtain ⟨place, shown⟩ := ranked.placed mem
        exact ⟨place, within.node shown⟩
      · obtain ⟨form, isForm, rest⟩ := ranked.founded isOrder
        exact ⟨form, forms isForm, rest⟩
    · by_cases isNew : n ∈ params ++ outs
      · exact ⟨founded.unread isNew isForm, .inl (found_all noNodes isNew)⟩
      · rw [founded.kept n isNew] at isForm
        obtain ⟨unread, ⟨place, shown⟩ | stray⟩ := accounts n form isForm
        · exact ⟨unread, .inl ⟨place, within.node shown⟩⟩
        · exact ⟨unread, .inr (stray.mono within.node)⟩

/-! ## The first root -/

def Chart.empty : Chart := ⟨fun _ => none, fun _ => none⟩

lemma Expanded.empty (bp : Blueprint (Native.Reliable known)) (ms : Methods) {store : Store}
    (within : known.Within base) (fits : base.Fits store) :
    Expanded bp ms base .empty none { store } := by
  have noNode : ∀ {id n}, ({ store } : Workspace).graph.node? id ≠ some n :=
    fun live => by cases live
  have noForm : ∀ {id form}, ({ store } : Workspace).graph.form? id ≠ some form :=
    fun found => by cases found
  have noExpansion : ∀ {id e}, ({ store } : Workspace).graph.expansion? id ≠ some e :=
    fun found => by cases found
  exact
    { realizes :=
        { nodes := wired_empty.wellFormed
          expansions := Arena.wellFormed_empty
          instances := nofun
          placed := nofun
          nodeOnce := nofun
          siteOnce := nofun }
      quiet := fun _ _ found => absurd found noExpansion
      accounted := fun found => absurd found noForm
      sound := .empty ..
      stuck := nofun
      within
      coherent :=
        ⟨base, .refl _, fits, fun _ _ _ found => absurd found noForm,
          fun live => absurd live noNode, nofun⟩ }

lemma Expand.instantiate_request (made : (instantiate lib name args).run w = (.ok root, w')) :
    ∃ layer, lib.Founds (name, args) layer := by
  rw [instantiate] at made
  cases isCircuit : lib.circuit? name with
  | none =>
    rw [isCircuit] at made
    cases made
  | some c =>
    rw [isCircuit] at made
    dsimp only at made
    cases isLayer : make c [] args with
    | error d =>
      rw [isLayer] at made
      cases made
    | ok layer => exact ⟨layer, c, isCircuit, isLayer⟩

end Blockflow
