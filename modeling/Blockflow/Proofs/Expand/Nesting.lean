import Blockflow.Proofs.Expand.Links

/-!
# Expanding nested circuits

An output of a nested circuit is a link of an instance that is made on first use. The instance is
made if the blueprint has one at the end of the way, which it has not if a circuit would contain
itself.
-/

namespace Blockflow

open Blueprint Chart Expansion

variable {P : Native → Prop} {bp : Blueprint P} {chart chart' : Chart} {w w' : Workspace}

/-- No output of any instance is being resolved. -/
def Graph.Quiet (g : Graph) : Prop := ∀ id e, g.expansion? id = some e → e.expanding = false

lemma Graph.Quiet.of_expansions {a b : Graph} (quiet : a.Quiet) (eq : b.expansions = a.expansions) :
    b.Quiet := by
  intro id e found
  rw [expansion?, eq] at found
  exact quiet id e found

lemma Chart.Grows.quiet (grows : chart.Grows w chart' w') (quiet : w.graph.Quiet) :
    w'.graph.Quiet := by
  intro id e' found
  cases expanding : e'.expanding with
  | false => rfl
  | true =>
    obtain ⟨e, was, isExpanding⟩ :=
      grows.expanding (Option.map_eq_some_iff.mpr ⟨e', found, rfl⟩) expanding
    obtain ⟨e, found', rfl⟩ := Option.map_eq_some_iff.mp was
    cases (quiet id e found').symm.trans isExpanding

/-- An instance differs from that of the blueprint in the call sites only. -/
lemma Expand.make_eq (c : Circuit) (parents : List CallSite) (args : List String) :
    make c parents args = (linkMap c).map fun links => blank c parents links args := by
  rw [make]
  cases linkMap c <;> rfl

namespace Blueprint

variable {path : Way} {block : Nat}

/-- An instance inside another one is that of a circuit of the library, and of none of those
around. -/
lemma layers_nested {layers : List Expansion} (found : bp.layers (path.inner block) = some layers) :
    ∃ child outer, layers = child :: outer ∧ bp.layers path = some outer ∧
      child.circuit ∈ bp.library.circuits ∧ child.circuit.name ∉ outer.map fun layer =>
      layer.circuit.name := by
  obtain ⟨outer, isOuter, found⟩ := Option.bind_eq_some_iff.mp found
  obtain ⟨around, -, found⟩ := Option.bind_eq_some_iff.mp found
  obtain ⟨callee, isCallee, found⟩ := Option.bind_eq_some_iff.mp found
  split at found
  · cases found
  next apart =>
    obtain ⟨made, isMade, eq⟩ := Option.bind_eq_some_iff.mp found
    refine ⟨made, outer, (Option.some.inj eq).symm, isOuter, ?_⟩
    have isCircuit : made.circuit = callee := by
      rw [Expand.make_eq] at isMade
      cases isLinks : linkMap callee with
      | error d =>
        rw [isLinks] at isMade
        cases isMade
      | ok links =>
        rw [isLinks] at isMade
        cases isMade
        rfl
    rw [isCircuit]
    refine ⟨List.mem_of_find?_eq_some isCallee, fun mem => apart ?_⟩
    obtain ⟨layer, among, eq⟩ := List.mem_map.mp mem
    exact List.any_eq_true.mpr ⟨layer, among, decide_eq_true eq⟩

lemma layers_of_layer? (found : bp.layer? path = some layer) :
    ∃ outer, bp.layers path = some (layer :: outer) := by
  obtain ⟨layers, isLayers, head⟩ := Option.bind_eq_some_iff.mp found
  cases layers with
  | nil => cases head
  | cons first outer =>
    cases head
    exact ⟨outer, isLayers⟩

/-- The instance of a block that is a circuit: the circuit is none of those around, and its links
are declared once. -/
lemma layer?_inner (isOuter : bp.layers path = some (around :: outer)) :
    bp.layer? (path.inner block) =
      (bp.library.circuit? ((around.block? block).getD default).blockType).bind fun callee =>
        if (around :: outer).any (·.circuit.name = callee.name) then none
        else
        (make callee []
          (around.specialize ((around.block? block).getD default).arguments)).toOption := by
  rw [layer?, layers, isOuter]
  show Option.bind (Option.bind (bp.library.circuit? ((around.block? block).getD default).blockType)
    _) List.head? = _
  rw [Option.bind_assoc]
  refine Option.bind_congr fun callee _ => ?_
  split
  · rfl
  · cases make callee [] (around.specialize ((around.block? block).getD default).arguments) <;> rfl

end Blueprint

namespace Expand

variable {path : Way} {id : Handle} {block : Nat} {e : Expansion} {outs : List Handle}
  {hidden : Option Handle}

section

variable (realizes : Realizes bp chart w) (site : chart.site path = some id)
include realizes site

lemma checkAncestors_run (parents : chart.Parents path sites) {layers : List Expansion}
    (isLayers : bp.layers path = some layers) (callee : Circuit) :
    (checkAncestors callee (id :: sites.map CallSite.expansion)).run w =
      if layers.any (·.circuit.name = callee.name) then
        (.error { problem := .recursiveExpansion callee.name }, w) else (.ok (), w) := by
  have step : ∀ {path id layer outer rest}, chart.site path = some id →
      bp.layers path = some (layer :: outer) →
      (checkAncestors callee (id :: rest)).run w =
        if layer.circuit.name =
          callee.name then (.error { problem := .recursiveExpansion callee.name }, w)
        else (checkAncestors callee rest).run w := by
    intro path id layer outer rest site isLayers
    obtain ⟨layer', e, isLayer, isExpansion, fits⟩ := realizes.expansion site
    obtain ⟨outer', isLayers'⟩ := layers_of_layer? isLayer
    cases isLayers.symm.trans isLayers'
    rw [checkAncestors, Effect.run_bind, expansionAt_run isExpansion]
    dsimp only
    rw [fits.circuit]
    split <;> rfl
  induction path generalizing id sites layers with
  | root root =>
    obtain rfl : sites = [] := parents
    obtain ⟨base, -, rfl⟩ := Option.map_eq_some_iff.mp isLayers
    rw [step site isLayers]
    by_cases eq : base.circuit.name = callee.name
    · simp [eq]
    · simp [eq, checkAncestors]
  | inner path block ih =>
    obtain ⟨around, rest, rfl, isAround, parents⟩ := parents
    obtain ⟨child, outer, rfl, isOuter, -⟩ := layers_nested isLayers
    rw [step site isLayers, List.map_cons, ih isAround parents isOuter]
    by_cases eq : child.circuit.name = callee.name
    · simp [eq]
    · simp [eq]

lemma nest_moves (isLayer : bp.layer? (path.inner block) = some layer)
    (isExpansion : w.graph.expansion? id = some e)
    (state : e.stateOf block = .nested outs hidden none) {links : List (String × LinkTarget)}
    {args : List String}
    (like : layer.circuit = c ∧ layer.arguments = args ∧ layer.links = links) {child : Expansion}
    (isChild : child = blank c (⟨id, block⟩ :: e.parents) links args) :
    Moves bp chart w (chart.nest (path.inner block) (w.graph.expansions.alloc child).1) { w with
        graph :=
          { w.graph with expansions := (w.graph.expansions.alloc child).2 }.modifyExpansion id
          (withChild block (w.graph.expansions.alloc child).1) } := by
  have isPlain : w.graph.plain? id = some { e with members := #[] } := by
    rw [Graph.plain?, isExpansion, Option.map_some]
  have nested := realizes.nest site isLayer isPlain state like isChild
  obtain ⟨layer', e', isLayer', isExpansion', fits⟩ := realizes.expansion site
  cases isExpansion.symm.trans isExpansion'
  have free : chart.site (path.inner block) = none := by
    have fits := fits.blocks block
    rw [state] at fits
    exact Shown.site fits
  obtain ⟨-, -, found, -⟩ := Arena.alloc_facts realizes.expansions child
  have unflagged : ∀ child e, (withChild block child e).expanding = e.expanding := by
    intro child e
    rw [withChild]
    split <;> rfl
  refine ⟨{ Chart.Grows.refl chart w with
    site := nest_grows free
    roots := fun _ => rfl
    expanding := fun {other e'} isNow isExpanding => ?_ }, nested, fun found absent => by
      cases absent.symm.trans found⟩
  · obtain ⟨e₁, isFound, rfl⟩ := Option.map_eq_some_iff.mp isNow
    have isFound : ((w.graph.expansions.alloc child).2.modify id
        (withChild block (w.graph.expansions.alloc child).1)).get? other = some e₁ := isFound
    rw [Arena.get?_modify] at isFound
    have earlier : ∀ {e : Expansion}, (w.graph.expansions.alloc child).2.get? other =
        some e → e.expanding →
        ∃ e, w.graph.plain? other = some e ∧ e.expanding := by
      intro e isNow isExpanding
      rw [found] at isNow
      split at isNow
      · cases isNow
        rw [isChild] at isExpanding
        cases isExpanding
      · exact ⟨{ e with members := #[] }, by
          rw [Graph.plain?, Graph.expansion?, isNow]; rfl, isExpanding⟩
    split at isFound
    next eq =>
      obtain ⟨e₀, isFirst, rfl⟩ := Option.map_eq_some_iff.mp isFound
      exact earlier (eq ▸ isFirst) ((unflagged _ e₀).symm.trans isExpanding)
    next => exact earlier isFound isExpanding

/-- An instance is made for a nested block, if the blueprint has one. -/
lemma expandNested_ends
    (isExpansion : w.graph.expansion? id = some e)
    (state : e.stateOf block = .nested outs hidden none) :
    (expandNested bp.library id block).Ends w
      (fun child w' => ∃ chart', Moves bp chart w chart' w' ∧
        chart'.site (path.inner block) = some child)
      fun _ w' => w' = w ∧ bp.layer? (path.inner block) = none := by
  obtain ⟨layer, e', isLayer, isExpansion', fits⟩ := realizes.expansion site
  cases isExpansion.symm.trans isExpansion'
  obtain ⟨outer, isLayers⟩ := layers_of_layer? isLayer
  have inner : bp.layer? (path.inner block) = _ := layer?_inner isLayers
  have descriptor : layer.block? block = e.block? block := by rw [block?, block?, fits.circuit]
  rw [descriptor, ← specialize_congr fits.circuit fits.arguments] at inner
  refine expansionAt_ends isExpansion ?_
  dsimp only
  split
  next isNone => exact .of_refusal rfl ⟨rfl, by rw [inner, isNone, Option.bind_none]⟩
  next callee isCallee =>
    rw [isCallee, Option.bind_some] at inner
    have checked := checkAncestors_run realizes site fits.parents isLayers callee
    split at checked
    next isAncestor => exact .bind (.of_refusal checked ⟨rfl, by rw [inner, if_pos isAncestor]⟩)
    next isNew =>
      rw [if_neg isNew, make_eq] at inner
      refine .bind (.of_run checked ?_)
      rw [make_eq]
      cases isLinks : linkMap callee with
      | error d =>
        rw [isLinks] at inner
        exact .of_refusal rfl ⟨rfl, inner⟩
      | ok links =>
        rw [isLinks] at inner
        have moves := nest_moves realizes site inner isExpansion state ⟨rfl, rfl, rfl⟩ rfl
        have kept : ∀ child, Graph.expansion?
            { w.graph with expansions := (w.graph.expansions.alloc child).2 } id =
            some e := by
          intro child
          obtain ⟨-, fresh, found, -⟩ := Arena.alloc_facts realizes.expansions child
          refine (found id).trans ((if_neg fun eq => fresh ?_).trans isExpansion)
          rw [← eq]
          exact .inl (Arena.contains_iff.mpr ⟨e, isExpansion⟩)
        refine .bind (.of_run rfl (.bind (.of_run rfl ?_)))
        exact .bind (.of_run (modifyAt_run (kept _) _) (.of_run rfl ⟨_, moves, if_pos rfl⟩))

lemma childOf_ends (isExpansion : w.graph.expansion? id = some e)
    (state : e.stateOf block = .nested outs hidden child)
    (isChild : chart.site (path.inner block) = child) :
    (childOf bp.library id block child).Ends w
      (fun child w' => ∃ chart', Moves bp chart w chart' w' ∧
        chart'.site (path.inner block) = some child)
      fun _ w' => w' = w ∧ bp.layer? (path.inner block) = none := by
  cases child with
  | none => exact expandNested_ends realizes site isExpansion state
  | some child =>
    obtain ⟨_, _, -, found, -⟩ := realizes.expansion isChild
    have contains : w.graph.expansions.contains child := Arena.contains_iff.mpr ⟨_, found⟩
    refine .of_run ?_ ⟨chart, .refl realizes, isChild⟩
    rw [childOf]
    show (if w.graph.expansions.contains child then pure child else
      expandNested bp.library id block : Edit _).run w = _
    rw [if_pos contains]
    rfl

end

/-! ## Outputs of nested circuits -/

/-- A computation finds what a pin reads, or the pin cannot be connected. -/
abbrev Supplies (bp : Blueprint P) (chart : Chart) (w : Workspace) (path : Way) (target : PinTarget)
    (find : Edit (Option Handle)) : Prop :=
  find.Ends w (fun n w' => ∃ chart', Moves bp chart w chart' w' ∧
    bp.TargetFine w'.store path target ∧
    chart'.Serves path target ∧ chart'.Leads (bp.targetSource path target) n)
    (Never bp chart w (bp.TargetFine · path target))

/-- The mark that an output of an instance is being resolved. -/
def mark (id : Handle) (expanding : Bool) (w : Workspace) : Workspace :=
  { w with graph := w.graph.modifyExpansion id fun e => { e with expanding } }

lemma plain?_mark (id other : Handle) (expanding : Bool) (w : Workspace) :
    (mark id expanding w).graph.plain? other =
      if other = id then (w.graph.plain? id).map fun e =>
      { e with expanding } else w.graph.plain? other :=
  Graph.plain?_modifyExpansion _ _ _ (fun _ => rfl) other

lemma mark_realizes (realizes : Realizes bp chart w) (id : Handle) (expanding : Bool) :
    Realizes bp chart (mark id expanding w) :=
  { realizes with
    expansions := realizes.expansions.modify id _
    instances := fun {path other} found => by
      obtain ⟨layer, e, isLayer, isExpansion, fits⟩ := realizes.instances found
      rw [plain?_mark]
      split
      next eq =>
        rw [← eq, isExpansion]
        exact ⟨layer, _, isLayer, rfl, { fits with }⟩
      next => exact ⟨layer, e, isLayer, isExpansion, fits⟩ }

/-- What happens while an instance is marked is a move once the mark is taken off. -/
lemma moves_unmark {id : Handle} (moves : Moves bp chart (mark id true w) chart' w') :
    Moves bp chart w chart' (mark id false w') where
  grows :=
    { moves.grows with
      expanding := fun {other e'} found isExpanding => by
        rw [plain?_mark] at found
        split at found
        · obtain ⟨e, -, rfl⟩ := Option.map_eq_some_iff.mp found
          cases isExpanding
        next differs =>
          obtain ⟨e, was, isExpanding'⟩ := moves.grows.expanding found isExpanding
          rw [plain?_mark, if_neg differs] at was
          exact ⟨e, was, isExpanding'⟩ }
  realizes := mark_realizes moves.realizes id false
  fresh := moves.fresh

lemma instanceOutput_ends {child : Handle} (realizes : Realizes bp chart w) (quiet : w.graph.Quiet)
    (site : chart.site (path.inner block) = some child) (pin : Nat) :
    Supplies bp chart w path (.nested block pin) (do
      let expansion ← expansionAt child
      if expansion.expanding then .refuse (.recursiveExpansion expansion.circuit.name)
      else match expansion.circuit.outputPins.name? pin with
        | none => return none
        | some name =>
          modifyAt child fun e => { e with expanding := true }
          let resolved ← (link bp.library child name).attempt
          modifyAt child fun e => { e with expanding := false }
          resolved) := by
  obtain ⟨layer, e, isLayer, isExpansion, fits⟩ := realizes.expansion site
  have serves : chart.Serves path (.nested block pin) := Option.isSome_iff_exists.mpr ⟨child, site⟩
  have idle : e.expanding = false := quiet child e isExpansion
  have src : bp.targetSource path (.nested block pin) =
      (layer.circuit.outputPins.name? pin).bind (bp.source (path.inner block)) := by
    rw [targetSource, nestedSource, isLayer, Option.bind_some]
  refine expansionAt_ends isExpansion ?_
  rw [idle, if_neg Bool.false_ne_true, fits.circuit]
  split
  next isNone =>
    refine .of_run rfl ⟨chart, .refl realizes, ⟨layer, isLayer, fun name isName => ?_⟩, serves, ?_⟩
    · cases isNone.symm.trans isName
    · rw [src, isNone]
      rfl
  next name isName =>
    rw [isName] at src
    refine .bind (.of_run (modifyAt_run isExpansion _) (.bind (.of_run rfl ?_)))
    have ends := link_ends (mark_realizes realizes child true) site name
    have unmark : ∀ {chart' w'}, Moves bp chart (mark child true w) chart' w' →
        (modifyAt child fun e => { e with expanding := false }).run w' =
          (.ok (), mark child false w') := by
      intro chart' w' moves
      obtain ⟨_, _, -, isExpansion', -⟩ := moves.realizes.expansion (moves.grows.site site)
      exact modifyAt_run isExpansion' _
    show Effect.Ends (modifyAt child (fun e => { e with expanding := false }) >>= fun _ =>
      (((link bp.library child name).run (mark child true w)).1 : Edit _))
      ((link bp.library child name).run (mark child true w)).2 _ _
    rcases outcome : (link bp.library child name).run (mark child true w) with ⟨d | n, w'⟩
    · obtain ⟨chart', moves, never⟩ := ends.of_error outcome
      refine .bind (.of_run (unmark moves)
        (.of_refusal rfl ⟨chart', moves_unmark moves, fun later more fine => ?_⟩))
      obtain ⟨layer', isLayer', fine⟩ := fine
      cases isLayer.symm.trans isLayer'
      exact never later more (fine name isName)
    · obtain ⟨chart', moves, -, fine, leads⟩ := ends.of_ok outcome
      refine .bind
        (.of_run (unmark moves) (.of_run rfl ⟨chart', moves_unmark moves, ⟨layer, isLayer, ?_⟩,
        serves.mono moves.grows.site, src ▸ leads⟩))
      intro name' isName'
      cases isName.symm.trans isName'
      exact fine

/-- An output of a nested circuit has its node, or it cannot be made in any later store. -/
lemma nestedOutput_ends (realizes : Realizes bp chart w) (quiet : w.graph.Quiet)
    (site : chart.site path = some id)
    (shown : chart.node ⟨path, .nested block pin⟩ = some carrier) :
    Supplies bp chart w path (.nested block pin) (nestedOutput bp.library id block pin) := by
  obtain ⟨layer, e, isLayer, isExpansion, fits⟩ := realizes.expansion site
  have fits := fits.blocks block
  refine expansionAt_ends isExpansion ?_
  cases state : e.stateOf block with
  | unmade =>
    rw [state] at fits
    cases (fits.2 (.nested block pin) rfl).symm.trans shown
  | made outs =>
    rw [state] at fits
    cases Shown.carriers fits shown
  | nested outs hidden child =>
    rw [state] at fits
    refine .bind ((childOf_ends realizes site isExpansion state fits.site).imp ?_ ?_)
    · rintro child w' ⟨chart', moves, isChild⟩
      refine (instanceOutput_ends moves.realizes (moves.grows.quiet quiet) isChild pin).imp ?_ ?_
      · rintro n w'' ⟨chart'', moves', fine⟩
        exact ⟨chart'', moves.trans moves', fine⟩
      · rintro d w'' ⟨chart'', moves', never⟩
        exact ⟨chart'', moves.trans moves', never⟩
    · rintro d w' ⟨rfl, isNone⟩
      refine ⟨chart, .refl realizes, fun later more fine => ?_⟩
      obtain ⟨layer', isLayer', -⟩ := fine
      cases isNone.symm.trans isLayer'

end Expand

end Blockflow
