import Mathlib.Data.List.Nodup
import Blockflow.Proofs.Expand.Moves

/-!
# Making arguments and blocks

The nodes of arguments and blocks are made as the blueprint says, and take up their roles on the
chart. If they cannot be made, the blueprint says that they cannot be made in any later store.
-/

namespace Blockflow

open Blueprint Chart Effect Expansion Form Graph List Option Role
open Store (Agree Answers)
open Value (Alike AllAlike)

/-! ## Nodes in a row -/

/-- A computation that makes one node of a known form, where some nodes are there. -/
def Makes {α : Type} (needs : List Handle) (make : α → Edit Handle) (form : α → Form) : Prop :=
  ∀ item w, w.graph.nodes.WellFormed → (∀ id ∈ needs, w.graph.contains id) →
    ∃ n g, (make item).run w = (.ok n, { w with graph := g }) ∧ Adds [n] w.graph g ∧
      g.form? n = some (form item)

namespace Makes

variable {α : Type} {needs : List Handle} {make : α → Edit Handle} {form : α → Form}

lemma mapM (makes : Makes needs make form) (items : List α)
    (wf : w.graph.nodes.WellFormed) (live : ∀ id ∈ needs, w.graph.contains id) :
    ∃ nodes g, (items.mapM make).run w = (.ok nodes, { w with graph := g }) ∧ Adds nodes w.graph g ∧
      nodes.Nodup ∧ Forall₂ (fun item n => g.form? n = some (form item)) items nodes := by
  induction items generalizing w with
  | nil => exact ⟨[], w.graph, rfl, .refl wf, .nil, .nil⟩
  | cons item items ih =>
    obtain ⟨n, g, ran, adds, isForm⟩ := makes item w wf live
    obtain ⟨nodes, g', ran', adds', nodup, forms⟩ :=
      @ih { w with graph := g } adds.nodes fun id mem =>
      adds.contains (live id mem)
    have absent : n ∉ nodes := fun again => adds.disjoint adds' (mem_singleton_self n) again
    refine ⟨n :: nodes, g', ?_, adds.trans adds', nodup_cons.mpr ⟨absent, nodup⟩,
      .cons ((adds'.kept n absent).trans isForm) forms⟩
    rw [mapM_cons, run_bind, ran]
    dsimp only
    rw [run_bind, ran']
    rfl

lemma addOwned (b : α → Behavior) (inputs : Nat) (owner : Handle) :
    Makes [] (fun item => Expand.addOwned (b item) inputs owner)
      fun item => .make (b item) inputs (some owner) := by
  intro item w wf _
  refine ⟨(w.graph.addNode (b item) inputs (some owner)).1,
    (w.graph.addNode (b item) inputs (some owner)).2, rfl,
    Adds.addNode wf (b item) inputs owner, ?_⟩
  rw [form?_addNode wf, if_pos rfl]

lemma edit (makes : Makes needs make form) (edit : α → Handle → Graph → Graph)
    (change : α → Form → Form)
    (keeps : ∀ item id g, Keeps g (edit item id g))
    (expansions : ∀ item id g, (edit item id g).expansions = g.expansions)
    (forms : ∀ item id g other, (∀ id ∈ needs, g.contains id) → (edit item id g).form? other =
      if other = id then (g.form? id).map (change item) else g.form? other) :
    Makes needs (fun item => do
      let n ← make item
      Edit.modifyGraph (edit item n)
      return n) fun item => change item (form item) := by
  intro item w wf live
  obtain ⟨n, g, ran, adds, isForm⟩ := makes item w wf live
  have forms := fun other => forms item n g other fun id mem => adds.contains (live id mem)
  refine ⟨n, edit item n g, ?_, ?_, ?_⟩
  · rw [run_bind, ran]
    rfl
  · refine adds.edit (keeps item n g) (expansions item n g) fun id absent => ?_
    rw [forms, if_neg fun eq => absent (mem_singleton.mpr eq)]
  · rw [forms, if_pos rfl, isForm, map_some]

end Makes

/-! ## Arguments -/

namespace Expand

variable {e layer : Expansion}

lemma argumentValue_congr (c : e.circuit = layer.circuit) (args : e.arguments = layer.arguments)
    (i : Nat) : argumentValue e i = argumentValue layer i := by
  rw [argumentValue, argumentValue, c, args]

lemma specialize_congr (c : e.circuit = layer.circuit) (args : e.arguments = layer.arguments)
    (texts : List String) : e.specialize texts = layer.specialize texts := by
  rw [specialize]
  congr 1
  funext text
  rw [specializeOne, specializeOne, c, args]

lemma argumentValue_tidy (e : Expansion) (i : Nat) (heap : Heap) :
    Store.MakesTidy heap (argumentValue e i) := by
  rw [argumentValue]
  split
  · refine (Store.Tidy.mapM (fun more holds => holds.mono more) Literal.parseAuto_tidy _).bind
      fun vs later _ holds => Store.pack_tidy (Value.allIn_iff.mpr holds)
  · split
    · exact Literal.parseAuto_tidy _ heap
    · exact .fail _

end Expand

/-! ## Instances -/

variable {P : Native → Prop} {bp : Blueprint P} {chart chart' chart'' : Chart}
  {w w' w'' : Workspace}

namespace Chart

lemma Realizes.expansion (realizes : Realizes bp chart w) {id : Handle}
    (site : chart.site path = some id) : ∃ layer e, bp.layer? path = some layer ∧
      w.graph.expansion? id = some e ∧ InstanceFits bp chart w.store path layer e := by
  obtain ⟨layer, _, isLayer, found, fits⟩ := realizes.instances site
  obtain ⟨e, isExpansion, rfl⟩ := map_eq_some_iff.mp found
  exact ⟨layer, e, isLayer, isExpansion, { fits with }⟩

end Chart

namespace Expand

variable {α : Type} {path : Way} {id : Handle} {e : Expansion} {Post : α → Workspace → Prop}
  {Fail : Diagnostic → Workspace → Prop} {asm : Assembly} {block : Nat} {nodes outs : List Handle}
  {callee : Circuit} {g : Graph}

lemma modifyAt_run (found : w.graph.expansion? id = some e) (f : Expansion → Expansion) :
    (modifyAt id f).run w = (.ok (), { w with graph := w.graph.modifyExpansion id f }) := by
  rw [modifyAt, run_bind]
  have discarded : (discard (expansionAt id)).run w = (.ok (), w) := by
    show ((expansionAt id >>= fun _ => pure ()) : Edit Unit).run w = _
    rw [run_bind, expansionAt_run found]
    rfl
  rw [discarded]
  rfl

lemma live?_node (realizes : Realizes bp chart w) (place : Place) :
    w.graph.live? (chart.node place) = chart.node place :=
  live?_eq_self fun _ found => realizes.live found

/-- A failure that every later store would meet as well. -/
abbrev Never (bp : Blueprint P) (chart : Chart) (w : Workspace) (Fine : Store → Prop)
    (_ : Diagnostic)
    (w' : Workspace) : Prop :=
  ∃ chart', Moves bp chart w chart' w' ∧ ∀ later, w'.store.Extends later → ¬Fine later

/-- An argument has its node, or no value in any later store. -/
lemma resolveArgument_ends (realizes : Realizes bp chart w) (site : chart.site path = some id)
    (i : Nat) :
    (resolveArgument id i).Ends w (fun n w' => ∃ chart', Moves bp chart w chart' w' ∧
      Local path chart chart' ∧
        chart'.node ⟨path, .argument i⟩ = some n ∧ bp.ArgumentFine w'.store path i)
      (Never bp chart w (bp.ArgumentFine · path i)) := by
  obtain ⟨layer, e, isLayer, isExpansion, fits⟩ := realizes.expansion site
  refine expansionAt_ends isExpansion (live?_ends ?_)
  rw [fits.argumentNodes, live?_node realizes]
  cases found : chart.node ⟨path, .argument i⟩ with
  | some n =>
    obtain ⟨form, -, fits⟩ := realizes.placed found
    obtain ⟨layer', v, isLayer', answers, -⟩ := fits.suits
    exact ⟨chart, .refl realizes, .refl _ _, found, layer', v, isLayer', answers⟩
  | none =>
    have agree := argumentValue_agree layer i
    have grows := agree.grows.extends' w.store
    have tidy := fun (heap : Heap) (room : heap.Fits w.store) =>
      argumentValue_tidy layer i heap heap w.store (.refl _) room
    rw [argumentValue_congr fits.circuit fits.arguments]
    refine .bind (Edit.onStore_ends (fun v store ran => ?_) fun d store ran => ?_) <;>
      rw [ran] at grows
    · -- the value is there, and gets its node
      have answers : Answers Alike store (argumentValue layer i) v := .of_run agree ran
      obtain ⟨n, g, made, adds, isForm⟩ :=
        Makes.addOwned (fun _ : Unit => .const v) 0 id () { w with store } realizes.nodes
          fun _ mem => absurd mem not_mem_nil
      have only : ∀ other ∈ [n], ∀ form, g.form? other = some form →
          form = .make (.const v) 0 (some id) := by
        intro other mem form isForm'
        obtain rfl := mem_singleton.mp mem
        exact some.inj (isForm'.symm.trans isForm)
      have added : Realizes bp chart { graph := g, store } := (realizes.adds adds).store grows
      have moved : chart.Grows w chart { graph := g, store } :=
        .of_adds grows adds fun heap room => by
        obtain ⟨later, within, fits', holds⟩ := (tidy heap room).of_ok ran
        refine ⟨later, within, fits', fun other mem form made found computes => ?_⟩
        rw [only other mem form found] at computes
        cases computes
        exact holds
      obtain ⟨_, e', -, isExpansion', -⟩ := added.expansion site
      refine .bind (.of_run made (.bind (.of_run (modifyAt_run isExpansion' _) ?_)))
      have shown : (chart.add path [.argument i] [n]).node ⟨path, .argument i⟩ = some n :=
        add_role 0 (pairwise_singleton _ _) found rfl rfl
      have others : ∀ role, role ≠ .argument i →
          (chart.add path [.argument i] [n]).node ⟨path, role⟩ = chart.node ⟨path, role⟩ :=
          fun role differs =>
        add_other (.inr fun mem => differs (mem_singleton.mp mem))
      refine ⟨_, .of_add ⟨fun _ => rfl, fun _ => rfl⟩ moved adds.fresh
        (fun {other form} isForm' absent => ?_)
        (fun other mem => by rw [mem_singleton.mp mem]; exact ⟨_, shown⟩)
        (added.add site [.argument i] [n] _ (pairwise_singleton _ _)
          (fun other mem => realizes.unshown (adds.fresh other mem)) (fun _ => rfl)
          (fun layer e _ fits => ?_) fun place role other isRole isNode => ?_), .add _ _ _ _,
          shown, layer, v,
          isLayer, answers⟩
      · by_cases isNew : other ∈ [n]
        · rw [only other isNew form isForm']
          exact ⟨.of_idle rfl, .inl isNew⟩
        · cases absent.symm.trans ((adds.kept other isNew).symm.trans isForm')
      · exact { fits with
          parents := fits.parents.mono fun found => found
          blocks := fun block => (fits.blocks block).add fun role mem => by
            rw [mem_singleton.mp mem]
            intro isBlock
            cases isBlock
          params := fun place => (fits.params place).trans (others _ Role.noConfusion).symm
          anchors := fun place => (fits.anchors place).trans (others _ Role.noConfusion).symm
          rest := fits.rest.trans (others _ Role.noConfusion).symm
          argumentNodes := fun place => by
            rw [lookup_cons]
            by_cases eq : place = i
            · rw [if_pos eq, eq, shown]
            · rw [if_neg eq, lookup_filter_ne, if_neg eq, fits.argumentNodes, others]
              exact fun equal => eq (argument.inj equal) }
      · obtain rfl : place = 0 := Nat.lt_one_iff.mp (lt_of_getElem? isRole)
        cases isRole
        cases isNode
        exact ⟨_, isForm, ⟨id, site, rfl⟩, ⟨layer, v, isLayer, answers, rfl⟩, rfl,
          fun _ mem => absurd mem not_mem_nil, fun found => by cases found⟩
    · refine ⟨chart, .of_store realizes grows fun heap room => (tidy heap room).of_error ran, ?_⟩
      rintro later more ⟨layer', v, isLayer', answers⟩
      cases isLayer.symm.trans isLayer'
      exact answers.not_after agree ran more

/-! ## Blocks -/

/-- The nodes of a block that follows a recipe take up its roles. -/
lemma built_moves (realizes : Realizes bp chart w)
    (site : chart.site path = some asm.owner) (known : bp.assembly? path block = some asm.unowned)
    (inside : ∀ layer, bp.layer? path = some layer → block < layer.circuit.blocks.length)
    (method : bp.method? asm.block.blockType = some (.recipe recipe))
    (free : BlockFits bp chart w.store path block .unmade)
    (built : recipe.Built asm w w' nodes behaviors)
    (isOutputs : outs.map some = (recipe.outputs asm.unowned).map (nodes[·]?)) :
    ∃ chart', Local path chart chart' ∧ Moves bp chart w chart'
      { w' with graph := w'.graph.modifyExpansion asm.owner (·.setBlock block (.made outs)) } := by
  have method' : bp.method? asm.unowned.block.blockType = some (.recipe recipe) := method
  have part : ∀ {i : Nat} {n}, nodes[i]? = some n → ∃ pins b form,
      (recipe.parts asm.unowned)[i]? = some pins ∧ behaviors[i]? = some b ∧
      w'.graph.form? n = some form ∧ form.Wired asm.owner nodes b pins := by
    intro i n isNode
    have inside : i < (recipe.parts asm.unowned).length := by
      rw [← built.length]
      exact lt_of_getElem? isNode
    obtain ⟨b, form, wired⟩ := built.forms isNode (getElem?_eq_getElem inside)
    exact ⟨_, b, form, getElem?_eq_getElem inside, wired⟩
  -- the chart shows the nodes under the numbers of the parts
  have nodup : ((List.range nodes.length).map (Role.part block)).Nodup :=
    List.nodup_range.map fun _ _ eq => (Role.part.inj eq).2
  have shown : ∀ i : Nat,
      (chart.add path ((List.range nodes.length).map (Role.part block)) nodes).node
      ⟨path, .part block i⟩ = nodes[i]? := by
    intro i
    by_cases inside : i < nodes.length
    · rw [getElem?_eq_getElem inside]
      exact add_role i nodup (free.2 _ rfl) (by simp [inside]) (List.getElem?_eq_getElem inside)
    · rw [getElem?_eq_none (Nat.le_of_not_lt inside), add_other (.inr ?_), free.2 _ rfl]
      simpa using inside
  refine ⟨_, .add _ _ _ _,
    .of_block realizes site free inside (by rw [length_map, length_range]) built.nodup nodup
    (fun role mem => ?_) built.extends' built.adds (fun heap room => ?_)
    ⟨free.1, ?_, ?_, fun {pin n} found => ?_⟩ fun {i role n} isRole isNode => ?_⟩
  · obtain ⟨i, -, rfl⟩ := mem_map.mp mem
    rfl
  · obtain ⟨later, within, room', holds⟩ := built.tidy heap room
    refine ⟨later, within, room', fun n mem form v isForm computes => ?_⟩
    obtain ⟨i, isNode⟩ := mem_iff_getElem?.mp mem
    obtain ⟨_, b, form', -, isBehavior, isForm', wired⟩ := part isNode
    cases isForm.symm.trans isForm'
    exact holds v (computes ▸ wired.behavior ▸ mem_of_getElem? isBehavior)
  · intro other found
    obtain rfl := some.inj (known.symm.trans found)
    rw [method']
    exact ⟨behaviors, built.answers⟩
  · rw [isOutputs, outputRoles, known]
    dsimp only
    rw [method']
    rw [List.map_map]
    exact map_congr_left fun i _ => (shown i).symm
  · rw [add_other (.inr (by simp)), free.2 _ rfl] at found
    cases found
  · obtain rfl : role = .part block i := by
      rw [List.getElem?_map, List.getElem?_range (lt_of_getElem? isNode)] at isRole
      exact (some.inj isRole).symm
    obtain ⟨pins, b, form, isPart, isBehavior, isForm, wired⟩ := part isNode
    have isPins : bp.pins ⟨path, .part block i⟩ = pins.map (partTarget block) := by
      simp only [Blueprint.pins, known, method', isPart, Option.getD_some]
    refine ⟨form, isForm, wired.unread, ⟨asm.owner, site, wired.owner⟩,
      ⟨asm.unowned, recipe, behaviors,
      known, method', built.answers, isBehavior.trans (congrArg some wired.behavior.symm)⟩, ?_,
      fun entry mem => ?_, fun {pin target} isTarget idle => ?_⟩
    · rw [wired.inputs, isPins, length_map, length_map]
    · obtain ⟨name, isLink, -, waits⟩ := (wired.pending entry).mp mem
      exact ⟨.link name, by rw [isPins, getElem?_map, isLink]; rfl, waits⟩
    · rw [isPins, getElem?_map] at isTarget
      obtain ⟨src, isSource, rfl⟩ := map_eq_some_iff.mp isTarget
      have input : form.inputs[pin]? = some (given nodes src) := by
        rw [wired.inputs, getElem?_map, isSource, map_some]
      cases src with
      | link name =>
        -- a pin that waits for no link has an empty one
        have isEmpty : name.isEmpty := by
          by_contra filled
          exact idle (.link name)
            ((wired.pending _).mpr ⟨name, isSource, Bool.not_eq_true _ ▸ filled, rfl⟩)
        refine ⟨bp.linkFine_empty _ _ isEmpty, trivial, none, input, ?_⟩
        rw [partTarget, targetSource, bp.source_empty _ isEmpty]
        rfl
      | part other =>
        have before : other < nodes.length :=
          Nat.lt_trans (recipe.earlier isPart other (mem_of_getElem? isSource))
            (lt_of_getElem? isNode)
        refine ⟨trivial, trivial, nodes[other]?, input, (shown other).symm, ?_⟩
        rw [getElem?_eq_getElem before]
        rfl

lemma carrier_makes (id : Handle) (block : Nat) : Makes [] (fun pin => addNestedOutput id block pin)
      fun pin => (make (.nested block pin) 1 (some id)).await 0 (.nestedOutput block pin) :=
  (Makes.addOwned (fun pin => .nested block pin) 1 id).edit
    (fun pin n g => g.addPending n 0 (.nestedOutput block pin))
    (fun pin form => form.await 0 (.nestedOutput block pin)) (fun _ n g => .addPending g n 0 _)
    (fun _ n g => expansions_addPending g n 0 _)
    fun _ n g other _ => form?_addPending g n 0 _ other

lemma spread_makes (id carrier : Handle) : Makes [carrier] (fun i => do
      let n ← addOwned (.unpack i) 1 id
      Edit.modifyGraph (·.connect n 0 (some carrier))
      return n) fun i => (make (.unpack i) 1 (some id)).connect 0 (some carrier) := by
  have makes : Makes [carrier] (fun i => addOwned (.unpack i) 1 id)
      fun i => .make (.unpack i) 1 (some id) := fun i w wf _ =>
    Makes.addOwned Behavior.unpack 1 id i w wf fun _ mem => absurd mem not_mem_nil
  refine makes.edit (fun _ n g => g.connect n 0 (some carrier))
    (fun _ form => form.connect 0 (some carrier)) (fun _ n g => .connect g n 0 _)
    (fun _ n g => expansions_connect g n 0 _) fun i n g other live => ?_
  rw [form?_connect, live?_eq_self]
  rintro _ ⟨⟩
  exact live carrier (mem_singleton_self _)

/-- What is made for the numbers below a bound is found under them. -/
lemma forall₂_range {count : Nat} (rows : Forall₂ R (range count) nodes) :
    nodes.length = count ∧ ∀ {i n}, nodes[i]? = some n → R i n := by
  refine ⟨by rw [← rows.length_eq, length_range], fun {i n} isNode => ?_⟩
  obtain ⟨_, at', row⟩ := forall₂_getElem? rows isNode
  obtain ⟨_, rfl⟩ := List.getElem?_eq_some_iff.mp at'
  rwa [getElem_range] at row

lemma checkPins_ends {pins : Pins} {supplied : Nat} {next : Unit → Edit α}
    (accepted : pins.accepts supplied → (next ()).Ends w Post Fail)
    (rejected : ¬pins.accepts supplied → ∀ d, Fail d w) :
    (ofExcept (checkPins callee pins side supplied) >>= next).Ends w Post Fail := by
  rw [checkPins]
  split
  next accepts => exact .bind (.of_run rfl (accepted accepts))
  next rejects => exact .bind (.of_refusal rfl (rejected rejects _))

/-- A state in which a block is made, of which its instance is yet to be told. -/
abbrev Ready (bp : Blueprint P) (path : Way) (id : Handle) (block : Nat) (chart : Chart)
    (w : Workspace)
    (state : BlockState) (w' : Workspace) : Prop :=
  state ≠ .unmade ∧ (∃ e, w'.graph.plain? id = some e) ∧ ∃ chart', Local path chart chart' ∧
    Moves bp chart w chart'
      { w' with graph := w'.graph.modifyExpansion id (·.setBlock block state) }

section

variable (realizes : Realizes bp chart w) (site : chart.site path = some id)
  (known : bp.assembly? path block = some asm)
  (inside : ∀ layer, bp.layer? path = some layer → block < layer.circuit.blocks.length)
  (method : bp.method? asm.block.blockType = some (.circuit callee))
  (free : BlockFits bp chart w.store path block .unmade)
include realizes site known inside method free

/-- The nodes of a block that is a circuit take up their roles: first those that stand for outputs
of the circuit, the hidden one last, then those that unpack the hidden one. -/
lemma nested_ready (visible unpacks : List Handle) (hidden : Option Handle)
    (fine : bp.BlockFine w.store path block)
    (isRoles : nestedRoles block callee asm.block.outputs.length =
      (range visible.length).map (.nested block) ++ (range unpacks.length).map (.spread block))
    (count : visible.length + unpacks.length ≤ asm.block.outputs.length)
    (isRest : hidden.isSome → callee.outputPins.rest? = some visible.length)
    (adds : Adds (visible ++ hidden.toList ++ unpacks) w.graph g)
    (nodup : (visible ++ hidden.toList ++ unpacks).Nodup)
    (carries : ∀ {pin n}, (visible ++ hidden.toList)[pin]? = some n → g.form? n =
      some ((make (.nested block pin) 1 (some id)).await 0 (.nestedOutput block pin)))
    (spreads : ∀ {i n}, unpacks[i]? = some n → ∃ carrier, hidden = some carrier ∧
      g.form? n = some ((make (.unpack i) 1 (some id)).connect 0 (some carrier))) :
    Ready bp path id block chart w (.nested (visible ++ unpacks) hidden none)
      { w with graph := g } := by
  generalize isCarriers : visible ++ hidden.toList = carriers at adds nodup carries
  have nests : bp.Nests path block callee asm.block.outputs.length := ⟨asm, known, method, rfl⟩
  obtain ⟨-, e, -, isExpansion, -⟩ := realizes.instances site
  generalize isAll : (range carriers.length).map (nested block) ++ (range unpacks.length).map
    (spread block) = roles
  have length : roles.length = (carriers ++ unpacks).length := by simp [← isAll]
  have once : roles.Nodup := by
    rw [← isAll]
    refine Nodup.append (nodup_range.map fun _ _ eq => (nested.inj eq).2)
      (nodup_range.map fun _ _ eq => (spread.inj eq).2) fun role mem mem' => ?_
    obtain ⟨pin, -, rfl⟩ := mem_map.mp mem
    obtain ⟨i, -, eq⟩ := mem_map.mp mem'
    cases eq
  -- a role and the node that takes it up stand at one place of the two lists
  have role : ∀ {i : Nat} {role n}, roles[i]? = some role → (carriers ++ unpacks)[i]? = some n →
      (∃ pin, role = .nested block pin ∧ carriers[pin]? = some n) ∨
        ∃ place, role = .spread block place ∧ unpacks[place]? = some n := by
    intro i role n isRole isNode
    rw [← isAll, getElem?_append, length_map, length_range] at isRole
    rw [getElem?_append] at isNode
    split at isNode
    next before =>
      rw [if_pos before, getElem?_map, getElem?_range before] at isRole
      exact .inl ⟨i, (some.inj isRole).symm, isNode⟩
    next behind =>
      rw [if_neg behind, getElem?_map, getElem?_range (lt_of_getElem? isNode)] at isRole
      exact .inr ⟨_, (some.inj isRole).symm, isNode⟩
  have carried : ∀ {pin n}, carriers[pin]? = some n →
      (chart.add path roles (carriers ++ unpacks)).node ⟨path, .nested block pin⟩ = some n := by
    intro pin n isNode
    have bound := lt_of_getElem? isNode
    refine add_role pin once (free.2 _ rfl) ?_ (by rw [getElem?_append_left bound, isNode])
    rw [← isAll, getElem?_append_left (by simpa using bound), getElem?_map,
      getElem?_range bound, map_some]
  have spread : ∀ {i n}, unpacks[i]? = some n →
      (chart.add path roles (carriers ++ unpacks)).node ⟨path, .spread block i⟩ = some n := by
    intro i n isNode
    have bound := lt_of_getElem? isNode
    refine add_role (carriers.length + i) once (free.2 _ rfl) ?_
      (by rw [getElem?_append_right (Nat.le_add_right _ _), Nat.add_sub_cancel_left, isNode])
    rw [← isAll]
    simp [bound]
  have fits : BlockFits bp (chart.add path roles (carriers ++ unpacks)) w.store path block
      (.nested (visible ++ unpacks) hidden none) := by
    refine ⟨free.1, fine, ?_, fun {pin n} found => ?_⟩
    · rw [outputRoles, known]
      dsimp only
      rw [method]
      dsimp only
      rw [isRoles, List.map_append, List.map_append, List.map_map, List.map_map]
      refine congrArg₂ _ (ext_getElem (by simp) fun pin bound _ => ?_) (ext_getElem (by simp)
        fun i bound _ => ?_)
      · rw [getElem_map, getElem_map, getElem_range]
        refine (carried ?_).symm
        rw [← isCarriers, getElem?_append_left (by simpa using bound), getElem?_eq_getElem]
      · rw [getElem_map, getElem_map, getElem_range]
        exact (spread (getElem?_eq_getElem _)).symm
    · rcases add_cases found with was | ⟨-, -, i, -, isNode⟩
      · cases (free.2 _ rfl).symm.trans was
      · have mem := mem_of_getElem? isNode
        rw [← isCarriers] at mem
        simp only [mem_append] at mem ⊢
        tauto
  refine ⟨BlockState.noConfusion, ⟨e, (adds.plain id).trans isExpansion⟩, _, .add _ _ _ _,
    Moves.of_block realizes site free inside length nodup once (fun role mem => ?_) (.refl _) adds
      (tidy_of_no_constant fun n mem form' v isForm computes => ?_) fits
      fun {i role' n} isRole isNode => ?_⟩
  · rw [← isAll] at mem
    rcases mem_append.mp mem with mem | mem <;> obtain ⟨_, -, rfl⟩ := mem_map.mp mem <;> rfl
  · rcases mem_append.mp mem with mem | mem <;> obtain ⟨i, isNode⟩ := mem_iff_getElem?.mp mem
    · cases isForm.symm.trans (carries isNode)
      cases computes
    · obtain ⟨_, -, isForm'⟩ := spreads isNode
      cases isForm.symm.trans isForm'
      cases computes
  · rcases role isRole isNode with ⟨pin, rfl, isNode⟩ | ⟨place, rfl, isNode⟩
    · have bound : pin < asm.block.outputs.length ∨ callee.outputPins.rest? = some pin := by
        rw [← isCarriers, getElem?_append] at isNode
        split at isNode
        · exact .inl (by omega)
        · cases hidden with
          | none => cases isNode
          | some carrier =>
            have last := lt_of_getElem? isNode
            rw [isRest rfl]
            exact .inr (congrArg some (by simp at last; omega))
      refine ⟨_, carries isNode, fun entry mem => ?_, ⟨id, site, rfl⟩,
        ⟨rfl, callee, _, nests, bound⟩, rfl,
        fun entry mem => ?_, fun {pin' target} found idle => ?_⟩
      · rw [mem_singleton.mp (show entry ∈ [(0, Pending.nestedOutput block pin)] from mem)]
        rfl
      · rw [mem_singleton.mp (show entry ∈ [(0, Pending.nestedOutput block pin)] from mem)]
        exact ⟨.nested block pin, rfl, rfl⟩
      · cases pin' with
        | zero => exact absurd (mem_singleton_self _) (idle (.nestedOutput block pin))
        | succ => cases found
    · obtain ⟨carrier, rfl, isForm⟩ := spreads isNode
      have bound := lt_of_getElem? isNode
      have shown := @carried visible.length carrier (by simp [← isCarriers])
      have isPins : bp.pins ⟨path, .spread block place⟩ =
          [.role (.nested block visible.length)] := by
        simp only [pins, known, method, isRest rfl, bind_some, toList_some, map_cons, map_nil]
      refine ⟨_, isForm, .of_idle rfl, ⟨id, site, rfl⟩, ⟨rfl, callee, _, nests, by omega⟩, ?_,
        fun entry mem => absurd mem not_mem_nil, fun {pin target} found _ => ?_⟩
      · rw [isPins]
        rfl
      · rw [isPins] at found
        cases pin with
        | zero =>
          cases found
          exact ⟨trivial, trivial, some carrier, rfl, shown.symm, rfl⟩
        | succ => cases found

/-- The surplus outputs of a block that is a circuit unpack a hidden node. -/
lemma surplus_ends {visible : List Handle} (fine : bp.BlockFine w.store path block)
    (surplus : visible.length < asm.block.outputs.length)
    (isRest : callee.outputPins.rest? = some visible.length)
    (isRoles : nestedRoles block callee asm.block.outputs.length =
      (range visible.length).map (.nested block) ++
        (range (asm.block.outputs.length - visible.length)).map (.spread block))
    (adds : Adds visible w.graph g) (nodup : visible.Nodup)
    (carries : ∀ {pin n}, visible[pin]? = some n → g.form? n =
      some ((make (.nested block pin) 1 (some id)).await 0 (.nestedOutput block pin))) : Ends (do
      let carrier ← addNestedOutput id block visible.length
      let unpacks ← (range (asm.block.outputs.length - visible.length)).mapM fun i => do
        let n ← addOwned (.unpack i) 1 id
        Edit.modifyGraph (·.connect n 0 (some carrier))
        return n
      return BlockState.nested (visible ++ unpacks) (some carrier) none) { w with graph := g }
      (Ready bp path id block chart w) Fail := by
  obtain ⟨carrier, g', ran', adds', isForm⟩ :=
    carrier_makes id block visible.length { w with graph := g } adds.nodes
    fun _ mem => absurd mem not_mem_nil
  have live : ∀ other ∈ [carrier], g'.contains other := fun other mem =>
    contains_iff_form.mpr (adds'.live other mem)
  obtain ⟨unpacks, g'', ran'', adds'', nodup'', forms⟩ := (spread_makes id carrier).mapM
    (range (asm.block.outputs.length - visible.length))
    (show ({ w with graph := g' } : Workspace).graph.nodes.WellFormed from adds'.nodes) live
  obtain ⟨length, forms⟩ := forall₂_range forms
  refine .bind (.of_run ran' (.bind (.of_run ran'' ?_)))
  have fresh : carrier ∉ visible := fun again => adds.disjoint adds' again (mem_singleton_self _)
  rw [← length] at isRoles
  refine nested_ready realizes site known inside method free visible unpacks
    (some carrier) fine isRoles (by omega)
    (fun _ => isRest) ((adds.trans adds').trans adds'') ?_ (fun {pin n} isNode => ?_)
    fun {i n} isNode =>
      ⟨carrier, rfl, forms isNode⟩
  · exact Nodup.append (Nodup.append nodup (nodup_singleton carrier) (disjoint_singleton.mpr fresh))
      nodup'' ((adds.trans adds').disjoint adds'')
  · rw [getElem?_append] at isNode
    split at isNode
    · exact adds''.form (adds'.form (carries isNode))
    · have last := lt_of_getElem? isNode
      obtain rfl : pin = visible.length := by simp at last; omega
      rw [Nat.sub_self] at isNode
      cases isNode
      exact adds''.form isForm

/-- The nodes of a block that is a circuit are made, or its links and arguments do not fit the
circuit. -/
lemma nestedOutputs_ends : (nestedOutputs id block callee asm.block asm.arguments).Ends w
      (Ready bp path id block chart w)
      fun _ w' => w' = w ∧ ∀ store, ¬bp.BlockFine store path block := by
  have fine : ∀ store, bp.BlockFine store path block ↔
      callee.inputPins.accepts asm.block.inputs.length ∧
        callee.outputPins.accepts asm.block.outputs.length ∧
        callee.argumentPins.accepts asm.arguments.length := by
    intro store
    constructor
    · intro fine
      have fine := fine asm known
      rw [method] at fine
      exact fine
    · intro accepts other found
      obtain rfl := some.inj (known.symm.trans found)
      rw [method]
      exact accepts
  refine checkPins_ends
    (fun inputs => checkPins_ends (fun outputs => checkPins_ends (fun args => ?_)
    fun rejects _ => ?_) fun rejects _ => ?_) fun rejects _ => ?_
  · have isFine := (fine w.store).mpr ⟨inputs, outputs, args⟩
    dsimp only
    generalize isFixed : (if callee.outputPins.isVariadic then callee.outputPins.fixed
      else asm.block.outputs.length) = fixed
    have isFixed' : fixedOutputs callee asm.block.outputs.length = fixed := isFixed
    obtain ⟨visible, g, ran, adds, nodup, rows⟩ := (carrier_makes id block).mapM
      (range (min fixed asm.block.outputs.length)) realizes.nodes
      fun _ mem => absurd mem not_mem_nil
    obtain ⟨length, forms⟩ := forall₂_range rows
    refine .bind (.of_run ran ?_)
    have roles : nestedRoles block callee asm.block.outputs.length =
        (range visible.length).map (nested block) ++ if callee.outputPins.isVariadic then
          (range (asm.block.outputs.length - fixed)).map (spread block) else [] := by
      rw [nestedRoles, isFixed', length]
    -- without surplus outputs there is one node for every output
    have plain : nestedRoles block callee asm.block.outputs.length =
        (range visible.length).map (nested block) →
        Ready bp path id block chart w (.nested visible none none) { w with graph := g } := by
      intro isRoles
      have nodes : visible ++ (none : Option Handle).toList ++ [] = visible := by simp
      have ready :=
        nested_ready realizes site known inside method free visible [] none isFine
          (by simpa using isRoles)
        (by simp [length, Nat.min_le_right]) (by simp) (nodes.symm ▸ adds) (nodes.symm ▸ nodup)
        (fun isNode => forms (by simpa using isNode)) (by simp)
      rwa [append_nil] at ready
    have variadic : callee.outputPins.rest? =
        if callee.outputPins.isVariadic then some (callee.outputPins.size - 1) else none := rfl
    cases isVariadic : callee.outputPins.isVariadic with
    | false =>
      rw [isVariadic, if_neg Bool.false_ne_true] at roles variadic
      rw [variadic]
      exact plain (by rw [roles, append_nil])
    | true =>
      rw [isVariadic, if_pos rfl] at roles variadic isFixed
      rw [variadic]
      dsimp only
      by_cases surplus : fixed < asm.block.outputs.length
      · rw [if_pos surplus]
        obtain rfl : visible.length = fixed := by omega
        have isRest : callee.outputPins.size - 1 = visible.length := by
          rw [← isFixed, Pins.fixed, isVariadic, if_pos rfl]
        rw [isRest] at variadic ⊢
        exact surplus_ends realizes site known inside method free isFine surplus variadic roles
          adds nodup forms
      · rw [if_neg surplus]
        refine plain ?_
        rw [roles, Nat.sub_eq_zero_of_le (Nat.le_of_not_lt surplus), range_zero,
          map_nil, append_nil]
  · exact ⟨rfl, fun store isFine => rejects ((fine store).mp isFine).2.2⟩
  · exact ⟨rfl, fun store isFine => rejects ((fine store).mp isFine).2.1⟩
  · exact ⟨rfl, fun store isFine => rejects ((fine store).mp isFine).1⟩

end

lemma expansion?_modifyExpansion (found : g.expansion? id = some e)
    (f : Expansion → Expansion) : (g.modifyExpansion id f).expansion? id = some (f e) := by
  rw [expansion?, modifyExpansion, Arena.get?_modify, if_pos rfl, show g.expansions.get? id =
    _ from found, map_some]

lemma setBlock_ends {state : BlockState} (site : chart.site path = some id)
    (inside : ∀ layer, bp.layer? path = some layer → block < layer.circuit.blocks.length)
    (ready : Ready bp path id block chart w state w') :
    (modifyAt id (·.setBlock block state)).Ends w'
      (fun _ w' => ∃ chart' e, Local path chart chart' ∧ Moves bp chart w chart' w' ∧
        w'.graph.expansion? id = some e ∧
        (e.stateOf block = .unmade → bp.assembly? path block = none)) Fail := by
  obtain ⟨made, ⟨_, found⟩, chart', isLocal, moves⟩ := ready
  obtain ⟨e, isExpansion, -⟩ := map_eq_some_iff.mp found
  have now := expansion?_modifyExpansion isExpansion (·.setBlock block state)
  refine .of_run (modifyAt_run isExpansion _) ⟨chart', _, isLocal, moves, now,
    fun unmade => absurd unmade ?_⟩
  obtain ⟨layer, e', isLayer, isExpansion', fits⟩ :=
    moves.realizes.expansion (moves.grows.site site)
  cases now.symm.trans isExpansion'
  have bound : block < e.blocks.size := by
    have size : (e.setBlock block state).blocks.size = layer.circuit.blocks.length := fits.size
    rw [setBlock, Array.size_setIfInBounds] at size
    rw [size]
    exact inside layer isLayer
  rw [stateOf_setBlock bound, if_pos rfl]
  exact made

/-- A block that a circuit has is made, or it cannot be made in any later store. -/
lemma materialize_ends (realizes : Realizes bp chart w) (site : chart.site path = some id)
    (block : Nat) :
    (materialize bp.library id block).Ends w
      (fun _ w' => ∃ chart' e, Local path chart chart' ∧ Moves bp chart w chart' w' ∧
        w'.graph.expansion? id = some e ∧
        (e.stateOf block = .unmade → bp.assembly? path block = none))
      (Never bp chart w (bp.BlockFine · path block)) := by
  obtain ⟨layer, e, isLayer, isExpansion, fits⟩ := realizes.expansion site
  refine expansionAt_ends isExpansion ?_
  cases state : e.stateOf block with
  | made | nested =>
    exact ⟨chart, e, .refl _ _, .refl realizes, isExpansion, fun unmade => by
      cases state.symm.trans unmade⟩
  | unmade =>
    have free := fits.blocks block
    rw [state] at free
    have eq : layer.block? block = e.block? block := by
      rw [Expansion.block?, Expansion.block?, fits.circuit]
    cases found : e.block? block with
    | none =>
      refine ⟨chart, e, .refl _ _, .refl realizes, isExpansion, fun _ => ?_⟩
      rw [assembly?, isLayer]
      show (layer.block? block).bind _ = none
      rw [eq, found]
      rfl
    | some descriptor =>
      dsimp only
      rw [specialize_congr fits.circuit fits.arguments]
      generalize isAssembly :
        (⟨id, descriptor, layer.specialize descriptor.arguments, bp.library.circuits⟩ :
        Assembly) = asm
      have known : bp.assembly? path block = some asm.unowned := by
        rw [assembly?, isLayer]
        show (layer.block? block).bind _ = _
        rw [eq, found, ← isAssembly]
        rfl
      have inside : ∀ layer', bp.layer? path = some layer' →
          block < layer'.circuit.blocks.length := by
        intro layer' isLayer'
        cases isLayer.symm.trans isLayer'
        rw [found] at eq
        exact lt_of_getElem? eq
      have isBlock : descriptor = asm.block := by rw [← isAssembly]
      have isArguments : layer.specialize descriptor.arguments = asm.arguments := by
        rw [← isAssembly]
      have isOwner : id = asm.owner := by rw [← isAssembly]
      rw [isBlock] at isArguments ⊢
      rw [isArguments, bp.follows.assembler?]
      cases isRecipe : bp.recipes.lookup asm.block.blockType with
      | some recipe =>
        have method : bp.method? asm.block.blockType = some (.recipe recipe) := by
          rw [method?, isRecipe]
        refine .bind ((recipe.assembler_ends asm realizes.nodes).imp (fun outs w' built => ?_)
          fun d w' failed => ?_)
        · obtain ⟨nodes, behaviors, built, isOutputs⟩ := built
          have length : outs.length = asm.block.outputs.length := by
            rw [← built.outputs, ← length_map (f := some), isOutputs, length_map]
          rw [if_neg (fun differs => differs length)]
          have moves :=
            built_moves realizes (isOwner ▸ site) known inside method free built isOutputs
          rw [← isOwner] at moves
          obtain ⟨_, e', -, isExpansion', -⟩ := realizes.instances site
          exact setBlock_ends site inside
            ⟨by simp, ⟨e', (built.adds.plain id).trans isExpansion'⟩, moves⟩
        · obtain ⟨more, leaves, sameGraph, never⟩ := failed
          obtain ⟨g, store⟩ := w'
          obtain rfl : g = w.graph := sameGraph
          refine ⟨chart, .of_store realizes more leaves, fun later more' fine => ?_⟩
          have fine := fine asm.unowned known
          rw [show bp.method? asm.unowned.block.blockType = _ from method] at fine
          obtain ⟨behaviors, answers⟩ := fine
          exact never later more' behaviors answers
      | none =>
        have method : bp.method? asm.unowned.block.blockType =
            (bp.library.circuit? asm.block.blockType).map .circuit := by
          rw [method?, show bp.recipes.lookup asm.unowned.block.blockType = _ from isRecipe]
          rfl
        cases isCallee : bp.library.circuit? asm.block.blockType <;> rw [isCallee] at method
        case none =>
          refine ⟨chart, .refl realizes, fun later _ fine => ?_⟩
          have fine := fine asm.unowned known
          rw [method] at fine
          exact fine
        case some callee =>
          refine .bind ((nestedOutputs_ends realizes site known inside method free).imp
            (fun state w' ends => ?_)
            fun d w' failed => ?_)
          · exact setBlock_ends site inside ends
          · obtain ⟨rfl, never⟩ := failed
            exact ⟨chart, .refl realizes, fun later _ => never later⟩

/-- A computation finds the node of a place, or what the node needs is there in no later store. -/
abbrev Finds (bp : Blueprint P) (path : Way) (chart : Chart) (w : Workspace) (Fine : Store → Prop)
    (place : Option Place) (find : Edit (Option Handle)) : Prop :=
  find.Ends w (fun n w' => ∃ chart', Moves bp chart w chart' w' ∧ Local path chart chart' ∧
    Fine w'.store ∧
    chart'.Leads place n) (Never bp chart w Fine)

lemma blockOutput_ends (realizes : Realizes bp chart w) (site : chart.site path = some id)
    (block pin : Nat) :
    Finds bp path chart w (bp.BlockFine · path block)
      ((bp.outputRoles path block)[pin]?.map (⟨path, ·⟩))
        (blockOutput bp.library id block pin) := by
  refine .bind ((materialize_ends realizes site block).post fun _ w' ends => ?_)
  obtain ⟨chart', e, isLocal, moves, isExpansion, unmade⟩ := ends
  refine expansionAt_ends isExpansion ?_
  obtain ⟨layer, e', -, isExpansion', fits⟩ := moves.realizes.expansion (moves.grows.site site)
  cases isExpansion.symm.trans isExpansion'
  -- the nodes of a block that is made are on the chart
  have leads : ∀ {outs carriers child}, Shown bp chart' w'.store path block outs carriers child →
      bp.BlockFine w'.store path block ∧
        chart'.Leads ((bp.outputRoles path block)[pin]?.map (⟨path, ·⟩))
          (w'.graph.live? outs[pin]?) := by
    intro outs carriers child shown
    refine ⟨shown.fine, ?_⟩
    have eq := congrArg (·[pin]?) shown.outputs
    simp only [getElem?_map] at eq
    cases isRole : (bp.outputRoles path block)[pin]? with
    | none =>
      rw [isRole, map_none, map_eq_none_iff] at eq
      rw [eq]
      rfl
    | some role =>
      rw [isRole, map_some] at eq
      obtain ⟨n, isNode, isPlaced⟩ := map_eq_some_iff.mp eq
      rw [isNode, isPlaced, live?_node moves.realizes]
      exact ⟨rfl, by rw [← isPlaced]; rfl⟩
  have fits' := fits.blocks block
  cases state : e.stateOf block with
  | made outs =>
    rw [state] at fits'
    exact ⟨chart', moves, isLocal, leads fits'⟩
  | nested outs hidden child =>
    rw [state] at fits'
    exact ⟨chart', moves, isLocal, leads fits'⟩
  | unmade =>
    have absent := unmade state
    refine ⟨chart', moves, isLocal, fun asm found => (by cases absent.symm.trans found), ?_⟩
    rw [outputRoles, absent]
    rfl

end Expand

end Blockflow
