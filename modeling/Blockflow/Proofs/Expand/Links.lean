import Blockflow.Proofs.Expand.Blocks

/-!
# Resolving links

A link is resolved to the node of the place to which the blueprint leads, or the blueprint says that
it cannot be resolved in any later store. The induction is on the way: an input of a nested circuit
is a link of the instance around.
-/

namespace Blockflow

open Blueprint Chart List Option

variable {P : Native → Prop} {bp : Blueprint P} {chart chart' chart'' : Chart}
  {w w' w'' : Workspace}

namespace Expand

variable {α : Type} {path : Way} {id : Handle} {e : Expansion} {Post : α → Workspace → Prop}
  {Fail : Diagnostic → Workspace → Prop}

/-- A computation finds the node of a link, or the link cannot be resolved. -/
def Resolves (bp : Blueprint P) (path : Way) (chart : Chart) (w : Workspace) (name : String)
    (resolve : Edit (Option Handle)) : Prop :=
  Finds bp path chart w (bp.LinkFine · path name) (bp.source path name) resolve

/-! ## Packs for variadic inputs -/

/-- A pack that reads the first of the links that it is to gather. -/
structure Packing (bp : Blueprint P) (path : Way) (owner : Handle)
    (links : List String) (done : Nat)
    (chart : Chart) (store : Store) (form : Form) : Prop where
  behavior : form.behavior = .pack
  owner : form.owner = some owner
  pending : form.pending = []
  length : form.inputs.length = links.length
  reads : ∀ {pin link}, links[pin]? = some link → pin < done → bp.LinkFine store path link ∧
    ∃ input, form.inputs[pin]? = some input ∧ chart.Leads (bp.source path link) input
  inputs : ∀ src, some src ∈ form.inputs → ∃ place, chart.node place = some src

namespace Packing

variable {owner : Handle} {links : List String} {done : Nat} {form : Form}

variable (packing : Packing bp path owner links done chart w.store form)
include packing

lemma stray : chart.Stray form :=
  ⟨⟨packing.behavior, packing.pending⟩, packing.inputs⟩

lemma later (grows : chart.Grows w chart' w') :
    Packing bp path owner links done chart' w'.store form :=
  { packing with
    reads := fun found before => by
      obtain ⟨fine, input, isInput, leads⟩ := packing.reads found before
      exact ⟨fine.mono grows.store, input, isInput, leads.mono grows.node⟩
    inputs := fun src mem => by
      obtain ⟨place, found⟩ := packing.inputs src mem
      exact ⟨place, grows.node found⟩ }

lemma connect {link : String} (isLink : links[done]? = some link)
    (fine : bp.LinkFine w.store path link)
    (leads : chart.Leads (bp.source path link) src) :
    Packing bp path owner links (done + 1) chart w.store (form.connect done src) := by
  have inside : done < form.inputs.length := by
    rw [packing.length]
    exact lt_of_getElem? isLink
  have inputs := Form.inputs_connect inside src
  refine ⟨packing.behavior, packing.owner, ?_, ?_, fun {pin link'} found before => ?_,
    fun n mem => ?_⟩
  · rw [Form.connect, packing.pending]
    rfl
  · rw [inputs, length_set, packing.length]
  · rw [inputs, getElem?_set]
    by_cases eq : done = pin
    · subst eq
      cases isLink.symm.trans found
      exact ⟨fine, src, by rw [if_pos rfl, if_pos inside], leads⟩
    · rw [if_neg eq]
      exact packing.reads found (by omega)
  · rw [inputs] at mem
    rcases mem_or_eq_of_mem_set mem with old | isSource
    · exact packing.inputs n old
    · rw [← isSource] at leads
      exact leads.placed

end Packing

variable {links : List String} {resolve : String → Edit (Option Handle)} {block : Nat}

lemma gather_ends {owner pack : Handle} {before : List String}
    {form : Form} (moves : Moves bp chart w chart' w') (isLocal : Local path chart chart')
    (absent : w.graph.form? pack = none)
    (unshown : ∀ place, chart'.node place ≠ some pack) (isForm : w'.graph.form? pack = some form)
    (packing : Packing bp path owner (before ++ links) before.length chart' w'.store form)
    (resolves : ∀ {chart'' w''}, Moves bp chart w chart'' w'' → ∀ link,
      Resolves bp path chart'' w'' link (resolve link)) :
    ((links.zipIdx before.length).forM fun (link, pin) => do
      let src ← resolve link
      Edit.modifyGraph (·.connect pack pin src)).Ends w'
      (fun _ w' => ∃ chart' form, Moves bp chart w chart' w' ∧ Local path chart chart' ∧
        (∀ place, chart'.node place ≠ some pack) ∧ w'.graph.form? pack = some form ∧
        Packing bp path owner (before ++ links) (before ++ links).length chart' w'.store form)
      fun _ w' => ∃ chart', Moves bp chart w chart' w' ∧
        ∃ link ∈ links, ∀ later, w'.store.Extends later → ¬bp.LinkFine later path link := by
  induction links generalizing before chart' w' form with
  | nil =>
    rw [append_nil] at packing ⊢
    exact ⟨chart', form, moves, isLocal, unshown, isForm, packing⟩
  | cons link links ih =>
    refine .bind
      (.bind ((resolves moves link).imp (fun src w'' found => ?_) fun d w'' failed => ?_))
    · obtain ⟨chart'', moves', isLocal', fine, leads⟩ := found
      have unshown' : ∀ place, chart''.node place ≠ some pack := by
        intro place shown
        rcases moves'.grows.new shown with was | absent'
        · exact unshown place was
        · cases absent'.symm.trans isForm
      have isForm' := moves'.grows.kept isForm
      have live := moves'.realizes.live?_eq leads
      have packed := (packing.later moves'.grows).connect (by simp) fine leads
      have moves'' := (moves.trans moves').connect absent unshown' isForm' live packed.stray
      have next : before.length + 1 = (before ++ [link]).length := by rw [length_append]; rfl
      have all : before ++ link :: links = before ++ [link] ++ links := by rw [append_assoc]; rfl
      rw [all, next] at packed
      rw [all, next]
      refine (ih moves'' (isLocal.trans isLocal') unshown' ?_ packed).imp (fun _ _ ends => ends)
        fun _ last failed => ?_
      · rw [Graph.form?_connect_live _ _ _ isForm' live, if_pos rfl]
      · obtain ⟨chart', moves', other, mem, never⟩ := failed
        exact ⟨chart', moves', other, mem_cons_of_mem _ mem, never⟩
    · obtain ⟨chart'', moves', never⟩ := failed
      exact ⟨chart'', moves.trans moves', link, mem_cons_self, never⟩

variable (realizes : Realizes bp chart w)
include realizes

/-- A pack for a variadic input is made, and takes up its role once all its links are resolved. -/
lemma newPack_ends (site : chart.site (path.inner block) = some id)
    (free : chart.node ⟨path.inner block, .rest⟩ = none)
    (isPins : bp.pins ⟨path.inner block, .rest⟩ = links.map .outer)
    (resolves : ∀ {chart' w'}, Moves bp chart w chart' w' → ∀ link,
      Resolves bp path chart' w' link (resolve link)) : Finds bp (path.inner block) chart w
      (fun store => ∀ link ∈ links, bp.LinkFine store path link) (some ⟨path.inner block, .rest⟩) do
        let pack ← addOwned .pack links.length id
        links.zipIdx.forM fun (link, pin) => do
          let src ← resolve link
          Edit.modifyGraph (·.connect pack pin src)
        modifyAt id fun e => { e with restPack := some pack }
        return some pack := by
  obtain ⟨pack, g, ran, adds, isForm⟩ := Makes.addOwned (fun _ : Unit => .pack) links.length id () w
    realizes.nodes fun _ mem => absurd mem not_mem_nil
  have only : ∀ other ∈ [pack], ∀ form, g.form? other = some form →
      form = .make .pack links.length (some id) := by
    intro other mem form isForm'
    obtain rfl := mem_singleton.mp mem
    exact some.inj (isForm'.symm.trans isForm)
  have absent : w.graph.form? pack = none := adds.fresh pack (mem_singleton_self _)
  have packing : Packing bp path id ([] ++ links) ([] : List String).length chart
      ({ w with graph := g } : Workspace).store (.make .pack links.length (some id)) :=
    ⟨rfl, rfl, rfl, length_replicate, fun _ before => absurd before (Nat.not_lt_zero _),
      fun _ mem => by
      cases (mem_replicate.mp mem).2⟩
  have moves : Moves bp chart w chart { w with graph := g } := by
    have adds' : Graph.Adds [pack] w.graph ({ w with graph := g } : Workspace).graph := adds
    refine ⟨.of_adds (.refl _) adds' (tidy_of_no_constant fun other mem form v found => ?_),
      realizes.adds adds, fun {other form} found absent' => ?_⟩
    · rw [only other mem form found]
      exact Behavior.noConfusion
    · by_cases isNew : other ∈ [pack]
      · rw [only other isNew form found]
        exact ⟨.of_idle rfl, .inr packing.stray⟩
      · cases absent'.symm.trans ((adds.kept other isNew).symm.trans found)
  have gathers := gather_ends moves (.refl _ _) absent (realizes.unshown absent) isForm packing resolves
  refine .bind (.of_run ran (.bind (gathers.imp (fun _ w' ends => ?_) fun _ w' failed => ?_)))
  · obtain ⟨chart', form, moves', isLocal, unshown, isForm', packed⟩ := ends
    rw [nil_append] at packed
    obtain ⟨layer, e', isLayer, isExpansion, fits⟩ :=
      moves'.realizes.expansion (moves'.grows.site site)
    refine .bind (.of_run (modifyAt_run isExpansion _) ?_)
    have free' : chart'.node ⟨path.inner block, .rest⟩ = none :=
      (isLocal ⟨path.inner block, .rest⟩ (Nat.lt_succ_self _)).trans free
    have shown : (chart'.add (path.inner block) [.rest] [pack]).node ⟨path.inner block, .rest⟩ =
        some pack :=
      add_role 0 (pairwise_singleton _ _) free' rfl rfl
    have others : ∀ role, role ≠ .rest →
        (chart'.add (path.inner block) [.rest] [pack]).node ⟨path.inner block, role⟩ =
        chart'.node ⟨path.inner block, role⟩ := fun role differs =>
      add_other (.inr fun mem => differs (mem_singleton.mp mem))
    refine ⟨_, .of_add ⟨fun _ => rfl, fun _ => rfl⟩ moves'.grows
      (fun other mem => mem_singleton.mp mem ▸ absent)
        (fun found absent' => (moves'.fresh found absent').imp_right .inr)
      (fun other mem => by rw [mem_singleton.mp mem]; exact ⟨_, shown⟩)
      (moves'.realizes.add (moves'.grows.site site) [.rest] [pack] _ (pairwise_singleton _ _)
        (fun other mem => by rw [mem_singleton.mp mem]; exact unshown) (fun _ => rfl)
        (fun layer e _ fits => ?_) fun place role other isRole isNode => ?_),
        isLocal.inner.trans (.add _ _ _ _),
      fun link mem => ?_, shown.symm, rfl⟩
    · exact { fits with
        parents := fits.parents.mono fun found => found
        blocks := fun block => (fits.blocks block).add fun role mem => by
          rw [mem_singleton.mp mem]
          intro isBlock
          cases isBlock
        params := fun place => (fits.params place).trans (others _ Role.noConfusion).symm
        anchors := fun place => (fits.anchors place).trans (others _ Role.noConfusion).symm
        rest := shown.symm
        argumentNodes :=
          fun place => (fits.argumentNodes place).trans (others _ Role.noConfusion).symm }
    · obtain rfl : place = 0 := Nat.lt_one_iff.mp (lt_of_getElem? isRole)
      cases isRole
      cases isNode
      refine ⟨form, isForm', ⟨id, moves'.grows.site site, packed.owner⟩, packed.behavior, ?_,
        fun entry mem => ?_,
        fun {pin target} found _ => ?_⟩
      · rw [packed.length, isPins, length_map]
      · rw [packed.pending] at mem
        cases mem
      · rw [isPins, getElem?_map] at found
        obtain ⟨link, isLink, rfl⟩ := map_eq_some_iff.mp found
        obtain ⟨fine, input, isInput, leads⟩ := packed.reads isLink (lt_of_getElem? isLink)
        exact ⟨fine, trivial, input, isInput, leads.mono add_grows⟩
    · obtain ⟨pin, isLink⟩ := mem_iff_getElem?.mp mem
      exact (packed.reads isLink (lt_of_getElem? isLink)).1
  · obtain ⟨chart', moves', link, mem, never⟩ := failed
    exact ⟨chart', moves', fun later more fine => never later more (fine link mem)⟩

/-- An input of a nested circuit has its node: the variadic one a pack, any other the node of a link
around. -/
lemma resolveInput_ends (site : chart.site (path.inner block) = some id)
    (around : chart.site path = some outer)
    (isLayer : bp.layer? (path.inner block) = some layer)
    (fits : InstanceFits bp chart w.store (path.inner block) layer e) (i : Nat)
    (resolves : ∀ {chart' w'}, Moves bp chart w chart' w' → ∀ link,
      Resolves bp path chart' w' link (resolve link)) : Finds bp (path.inner block) chart w
      (fun store => bp.InputFine path block i (bp.LinkFine store path))
        (bp.inputSource path block i (bp.source path))
      (resolveInput e id ⟨outer, block⟩ i resolve) := by
  have isRest : (e.circuit.inputPins.rest? == some i) = bp.isRest (path.inner block) i := by
    rw [isRest, isLayer, fits.circuit]
    rfl
  rw [resolveInput, isRest]
  obtain ⟨layer', caller, isLayer', isCaller, fits'⟩ := realizes.expansion around
  have isLinks : ((caller.block? block).map Block.inputs).getD [] = bp.linksOf path block := by
    rw [linksOf, isLayer', bind_some, Expansion.block?, Expansion.block?, fits'.circuit]
    cases layer'.circuit.blocks[block]? <;> rfl
  cases rest : bp.isRest (path.inner block) i with
  | false =>
    refine live?_ends (expansionAt_ends isCaller ?_)
    rw [isLinks]
    have inputFine : ∀ store, bp.InputFine path block i (bp.LinkFine store path) ↔
        ∀ link, (bp.linksOf path block)[i]? = some link → bp.LinkFine store path link := by
      intro store
      rw [InputFine, rest, if_neg Bool.false_ne_true]
    simp only [inputFine]
    rw [inputSource, rest]
    cases isLink : (bp.linksOf path block)[i]? with
    | none => exact ⟨chart, .refl realizes, .refl _ _, fun _ eq => (by cases eq), rfl⟩
    | some link =>
      refine (resolves (.refl realizes) link).imp (fun n w' found => ?_) fun d w' failed => ?_
      · obtain ⟨chart', moves, isLocal, fine, leads⟩ := found
        exact ⟨chart', moves, isLocal.inner, fun _ eq => some.inj eq ▸ fine, leads⟩
      · obtain ⟨chart', moves, never⟩ := failed
        exact ⟨chart', moves, fun later more fine => never later more (fine link rfl)⟩
  | true =>
    have inputFine : ∀ store, bp.InputFine path block i (bp.LinkFine store path) ↔
        ∀ link ∈ (bp.linksOf path block).drop i, bp.LinkFine store path link := by
      intro store
      rw [InputFine, rest, if_pos rfl]
    simp only [inputFine]
    rw [inputSource, rest]
    have isPins : bp.pins ⟨path.inner block, .rest⟩ =
        ((bp.linksOf path block).drop i).map .outer := by
      have isIndex : (bp.layer? (path.inner block)).bind (·.circuit.inputPins.rest?) = some i := by
        simpa [Blueprint.isRest] using rest
      simp only [pins, isIndex]
    refine live?_ends ?_
    rw [if_pos trivial, fits.rest, live?_node realizes]
    cases found : chart.node ⟨path.inner block, .rest⟩ with
    | some pack =>
      refine ⟨chart, .refl realizes, .refl _ _, fun link mem => ?_, found.symm, rfl⟩
      obtain ⟨form, -, fits⟩ := realizes.placed found
      obtain ⟨pin, isLink⟩ := mem_iff_getElem?.mp mem
      have isTarget : (bp.pins ⟨path.inner block, .rest⟩)[pin]? = some (.outer link) := by
        rw [isPins, getElem?_map, isLink, map_some]
      refine (fits.reads isTarget fun pending waits => ?_).1
      obtain ⟨target, isTarget', awaits⟩ := fits.waits _ waits
      cases isTarget.symm.trans isTarget'
      exact awaits
    | none =>
      refine expansionAt_ends isCaller ?_
      rw [isLinks]
      exact newPack_ends realizes site found isPins resolves

/-! ## Links -/

/-- A link is resolved in the instance that declares it, where it is known how inputs are. -/
lemma follow_ends (site : chart.site path = some id) (name : String)
    (input : Nat → Option Place) (fine : Store → Nat → Prop)
    (resolve : Expansion → Nat → Edit (Option Handle))
    (resolves : ∀ {layer e}, bp.layer? path = some layer → w.graph.expansion? id = some e →
      InstanceFits bp chart w.store path layer e → ∀ i,
        Finds bp path chart w (fine · i) (input i) (resolve e i)) : Finds bp path chart w
      (fun store => bp.FollowFine store path (fine store) name) (bp.follow path input name)
      (if name.isEmpty then return none else do
        let expansion ← expansionAt id
        match expansion.links.lookup name with
        | none =>
          .fail (Diagnostic.inCircuit { problem := .unresolvedLink name } expansion.circuit.name)
        | some (.argument i) => return some (← resolveArgument id i)
        | some (.output block pin) => blockOutput bp.library id block pin
        | some (.input i) => resolve expansion i) := by
  cases isEmpty : name.isEmpty with
  | true =>
    refine ⟨chart, .refl realizes, .refl _ _, fun filled => ?_, ?_⟩
    · cases isEmpty.symm.trans filled
    · rw [follow, if_pos isEmpty]
      rfl
  | false =>
    rw [follow, if_neg (isEmpty ▸ Bool.false_ne_true)]
    obtain ⟨layer, e, isLayer, isExpansion, fits⟩ := realizes.expansion site
    refine expansionAt_ends isExpansion ?_
    have target : bp.target? path name = e.links.lookup name := by
      rw [target?, isLayer, bind_some, fits.links]
    have followFine : ∀ {store}, bp.FollowFine store path (fine store) name ↔
        match e.links.lookup name with
        | none => False
        | some (.argument i) => bp.ArgumentFine store path i
        | some (.output block _) => bp.BlockFine store path block
        | some (.input i) => fine store i := by
      intro store
      rw [FollowFine, target]
      exact ⟨fun holds => holds isEmpty, fun holds _ => holds⟩
    simp only [followFine]
    rw [target]
    cases e.links.lookup name with
    | none => exact ⟨chart, .refl realizes, fun _ _ => not_false⟩
    | some target =>
      cases target with
      | argument i =>
        refine .bind ((resolveArgument_ends realizes site i).post fun n w' ends => ?_)
        obtain ⟨chart', moves, isLocal, shown, fine⟩ := ends
        exact ⟨chart', moves, isLocal, fine, shown.symm, rfl⟩
      | output block pin => exact blockOutput_ends realizes site block pin
      | input i => exact resolves isLayer isExpansion fits i

lemma resolveLink_ends (site : chart.site path = some id) (parents : chart.Parents path sites)
    (name : String) :
    Resolves bp path chart w name (resolveLink bp.library sites id name) := by
  induction path generalizing chart w id sites name with
  | root root =>
    obtain rfl : sites = [] := parents
    rw [resolveLink.eq_def]
    refine follow_ends realizes site name _ (fun _ _ => True) (fun e i => pure e.params[i]?)
      fun {layer e} isLayer isExpansion fits i => ?_
    refine ⟨chart, .refl realizes, .refl _ _, trivial, ?_⟩
    have count : bp.inputCount (.root root) = e.params.length := by
      rw [inputCount, isLayer, fits.paramCount]
      rfl
    rw [count]
    split
    next inside => exact ⟨fits.params i, by rw [getElem?_eq_getElem inside]; rfl⟩
    next outside => exact getElem?_eq_none (Nat.le_of_not_lt outside)
  | inner path block ih =>
    obtain ⟨outer, rest, rfl, around, parents⟩ := parents
    rw [resolveLink.eq_def]
    refine follow_ends realizes site name (fun i => bp.inputSource path block i (bp.source path))
      (fun store i => bp.InputFine path block i (bp.LinkFine store path))
      (fun e i => resolveInput e id ⟨outer, block⟩ i (resolveLink bp.library rest outer))
      fun {layer e} isLayer isExpansion fits i => ?_
    exact resolveInput_ends realizes site around isLayer fits i fun moves link =>
      ih moves.realizes (moves.grows.site around) (parents.mono moves.grows.site) link

lemma link_ends (site : chart.site path = some id) (name : String) :
    Resolves bp path chart w name (link bp.library id name) := by
  obtain ⟨layer, e, -, isExpansion, fits⟩ := realizes.expansion site
  refine .bind (.of_run rfl ?_)
  rw [isExpansion]
  exact resolveLink_ends realizes site fits.parents name

end Expand

end Blockflow
