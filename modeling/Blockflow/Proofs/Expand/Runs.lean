import Blockflow.Proofs.Expand.Instantiation

/-!
# Running a graph

A host instantiates circuits, previews values at their parameters and lets nodes be evaluated, in
any order. All this time the graph is an expanded one over the same blueprint: the circuits that are
instantiated are its roots. Nodes that ever showed a value stay ranked.
-/

namespace Blockflow

open Chart Graph List Native Operators Workspace

variable {known base : Heap} {bp : Blueprint (Reliable known)} {chart chart' chart'' : Chart}
  {w w' w'' : Workspace} {env : Environment} {order : List Handle}

/-- An expanded graph has grown out of another one without new roots and new previews. -/
structure Evolves (bp : Blueprint (Reliable known)) (ms : Methods) (base : Heap) (chart : Chart)
    (w : Workspace) (chart' : Chart) (w' : Workspace) : Prop where
  expanded : Expanded bp ms base chart' none w'
  within : chart.Within chart'
  roots : ∀ i, chart'.site (.root i) = chart.site (.root i)
  store : w.store.Extends w'.store
  previews : w'.graph.previews = w.graph.previews
  ranked : ∀ {order}, Ranked chart order w → ∃ order', Ranked chart' order' w'
  accounts : chart.Accounts w.graph → chart'.Accounts w'.graph

namespace Evolves

lemma refl (expanded : Expanded bp ms base chart none w) : Evolves bp ms base chart w chart w :=
  ⟨expanded, .refl _, fun _ => rfl, .refl _, rfl, fun ranked => ⟨_, ranked⟩,
    fun accounts => accounts⟩

lemma trans {ms : Methods} (first : Evolves bp ms base chart w chart' w')
    (second : Evolves bp ms base chart' w' chart'' w'') :
    Evolves bp ms base chart w chart'' w'' where
  expanded := second.expanded
  within := first.within.trans second.within
  roots i := (second.roots i).trans (first.roots i)
  store := first.store.trans second.store
  previews := second.previews.trans first.previews
  ranked ranked := by
    obtain ⟨order', ranked'⟩ := first.ranked ranked
    exact second.ranked ranked'
  accounts accounts := second.accounts (first.accounts accounts)

end Evolves

namespace Expanded

variable {id : Handle} {worklist : Worklist}

variable (serves : env.Serves bp)
include serves

lemma step (expanded : Expanded bp env.methods base chart none w)
    (popped : w.graph.worklist.pop? = some (id, worklist)) :
    ∃ chart', Evolves bp env.methods base chart w chart'
      (process env id { w with graph.worklist := worklist }) := by
  have busy := expanded.pop popped
  have kept : ∀ {order}, Ranked chart order w →
      Ranked chart order { w with graph.worklist := worklist } :=
    fun ranked => ranked.of_keeps (.of_nodes rfl) fun _ => rfl
  cases contains : w.graph.contains id with
  | false =>
    have skipped : process env id { w with graph.worklist := worklist } =
        { w with graph.worklist := worklist } := by
      exact if_pos
        (by rw [show Graph.contains { w.graph with worklist } id = false from contains]; rfl)
    rw [skipped]
    exact ⟨chart, busy.skip contains, .refl _, fun _ => rfl, .refl _, rfl,
      fun ranked => ⟨_, kept ranked⟩, fun accounts => accounts⟩
  | true =>
    obtain ⟨chart', ready, n, result, turn, more, expanded'⟩ := busy.turn serves contains
    refine ⟨chart', expanded', ⟨turn.advances.node, turn.advances.site⟩, turn.advances.roots, more,
      ?_, fun ranked => ?_,
      fun accounts => (turn.advances.accounts accounts).of_forms turn.form?⟩
    · rw [turn.graph, conclude_previews]
      exact turn.retains.previews
    · rcases (kept ranked).turn turn with same | ⟨-, next⟩
      · exact ⟨_, same⟩
      · exact ⟨_, next⟩

lemma step_evolves (evolved : ∃ chart', Evolves bp env.methods base chart w chart' u)
    (popped : u.graph.worklist.pop? = some (id, worklist)) :
    ∃ chart', Evolves bp env.methods base chart w chart'
      (process env id { u with graph.worklist := worklist }) := by
  obtain ⟨chart', evolves⟩ := evolved
  obtain ⟨chart'', evolves'⟩ := evolves.expanded.step serves popped
  exact ⟨chart'', evolves.trans evolves'⟩

lemma tick (expanded : Expanded bp env.methods base chart none w)
    (steps : Nat) : ∃ chart', Evolves bp env.methods base chart w chart' (w.tick env steps) :=
  tick_induction (step_evolves serves) steps ⟨chart, .refl expanded⟩

lemma settle (expanded : Expanded bp env.methods base chart none w)
    (limit : Nat) :
    ∃ chart', Evolves bp env.methods base chart w chart' (w.settle env limit).2 := by
  refine settle_induction (I := fun u => ∃ chart', Evolves bp env.methods base chart w chart' u)
    (step_evolves serves) ?_ limit ⟨chart, .refl expanded⟩
  rintro u limit ⟨chart', evolves⟩
  exact ⟨chart', { evolves with
    expanded := evolves.expanded.push _
    ranked := fun ranked => by
      obtain ⟨order, ranked'⟩ := evolves.ranked ranked
      exact ⟨order, ranked'.of_keeps (.of_nodes rfl) fun _ => rfl⟩ }⟩

end Expanded

/-! ## What a host does -/

/-- What a host does with a graph that was empty: it instantiates circuits, makes values out of what
is known and previews them, and lets nodes be evaluated. What it instantiated is listed, with the
roots that this made, and what it previewed, the latest first. -/
inductive Driven (env : Environment) (base : Heap) (store : Store) :
    List (String × List String) → List Root → List (Handle × Value) → Workspace → Prop where
  | start (fits : base.Fits store) : Driven env base store [] [] [] { store }
  | instantiate {requests : List (String × List String)} {roots : List Root}
      {previews : List (Handle × Value)}
      {w w' : Workspace} (driven : Driven env base store requests roots previews w) {name : String}
        {args : List String}
      {root : Root} (made : (Expand.instantiate env.library name args).run w = (.ok root, w')) :
      Driven env base store (requests ++ [(name, args)]) (roots ++ [root]) previews w'
  | preview {requests : List (String × List String)} {roots : List Root}
      {previews : List (Handle × Value)}
      {w : Workspace} (driven : Driven env base store requests roots previews w) (param : Handle)
        {make : Action Value}
      {v : Value} {after : Store} (tidy : Store.MakesTidy base make) (grows : Store.Grows make)
      (made : make.run w.store = (.ok v, after)) :
      Driven env base store requests roots ((param, v) :: previews)
        { graph := w.graph.setPreview param v, store := after }
  | tick {requests : List (String × List String)} {roots : List Root}
      {previews : List (Handle × Value)} {w : Workspace} (driven : Driven env base store requests roots previews w) (steps : Nat) :
      Driven env base store requests roots previews (w.tick env steps)
  | settle {requests : List (String × List String)} {roots : List Root}
      {previews : List (Handle × Value)}
      {w : Workspace} (driven : Driven env base store requests roots previews w) (limit : Nat) :
      Driven env base store requests roots previews (w.settle env limit).2

/-- A blueprint has the roots of all that is instantiated. -/
def Blueprint.HasRoots (bp : Blueprint (Reliable known)) (requests : List (String × List String)) :
    Prop :=
  ∀ (i : Nat) request, requests[i]? = some request →
    ∃ layer, bp.library.Founds request layer ∧ bp.bases[i]? = some layer

/-- An expanded graph with its roots and previews. -/
structure Hosted (bp : Blueprint (Reliable known)) (ms : Methods) (base : Heap) (roots : List Root)
    (previews : List (Handle × Value)) (chart : Chart) (w : Workspace) : Prop where
  expanded : Expanded bp ms base chart none w
  shows' : ∀ {i : Nat} {root}, roots[i]? = some root → chart.ShowsRoot bp i root
  free : ∀ i, roots.length ≤ i → chart.site (.root i) = none
  previews : ∀ id, w.graph.previews.lookup id = previews.lookup id

namespace Hosted

variable {requests : List (String × List String)} {roots : List Root}
  {previews : List (Handle × Value)}

lemma evolves {ms : Methods} (hosted : Hosted bp ms base roots previews chart w)
    (evolves : Evolves bp ms base chart w chart' w') :
    Hosted bp ms base roots previews chart' w' where
  expanded := evolves.expanded
  shows' isRoot := (hosted.shows' isRoot).mono evolves.within
  free i beyond := (evolves.roots i).trans (hosted.free i beyond)
  previews id := evolves.previews ▸ hosted.previews id

lemma empty (ms : Methods) (within : known.Within base) {store : Store} (fits : base.Fits store) :
    Hosted bp ms base [] [] .empty { store } :=
  ⟨.empty bp ms within fits, nofun, fun _ _ => rfl, fun _ => rfl⟩

end Hosted

lemma Ranked.empty (w : Workspace) : Ranked .empty [] w :=
  ⟨.nil, nofun, nofun, fun isOrder =>
    absurd isOrder.symm (append_ne_nil_of_right_ne_nil _ (cons_ne_nil _ _))⟩

namespace Driven

variable {store : Store} {requests : List (String × List String)} {roots : List Root}
  {previews : List (Handle × Value)}

variable (driven : Driven env base store requests roots previews w)
include driven

lemma exists_bases : ∃ bases, Forall₂ env.library.Founds requests bases := by
  induction driven with
  | start => exact ⟨[], .nil⟩
  | instantiate _ made ih =>
    obtain ⟨bases, founds⟩ := ih
    obtain ⟨layer, isLayer⟩ := Expand.instantiate_request made
    exact ⟨bases ++ [layer], rel_append founds (.cons isLayer .nil)⟩
  | preview _ _ _ _ _ ih => exact ih
  | tick _ _ ih => exact ih
  | settle _ _ ih => exact ih

lemma exists_blueprint (uniform : env.library.Uniform (Reliable known))
    (methods : env.methods.All (Reliable known)) :
    ∃ bp : Blueprint (Reliable known), env.Serves bp ∧ bp.HasRoots requests := by
  obtain ⟨bases, founds⟩ := driven.exists_bases
  obtain ⟨recipes, follows⟩ := uniform.follows
  refine ⟨⟨env.library, recipes, follows, bases⟩, ⟨rfl, methods⟩, fun i request isRequest => ?_⟩
  obtain ⟨base, isBase, found⟩ := forall₂_getElem? founds.flip isRequest
  exact ⟨base, found, isBase⟩

lemma length_roots : roots.length = requests.length := by
  induction driven with
  | start => rfl
  | instantiate _ _ ih => rw [length_append, length_append, ih]; rfl
  | preview _ _ _ _ _ ih => exact ih
  | tick _ _ ih => exact ih
  | settle _ _ ih => exact ih

/-- A graph that was driven is an expanded one, and all nodes that show values are ranked. -/
lemma hosted (serves : env.Serves bp) (within : known.Within base)
    (hasRoots : bp.HasRoots requests) :
    ∃ chart order, Hosted bp env.methods base roots previews chart w ∧ Ranked chart order w ∧
      store.Extends w.store ∧ chart.Accounts w.graph := by
  induction driven with
  | start fits =>
    exact ⟨.empty, [], .empty env.methods within fits, .empty _, .refl _, fun _ _ found => by
      cases found⟩
  | @instantiate requests roots previews w w' driven name args root made ih =>
    obtain ⟨chart, order, hosted, ranked, grown, accounts⟩ := ih fun i request isRequest =>
      hasRoots i request ((getElem?_append_left (lt_of_getElem? isRequest)).trans isRequest)
    have last : (requests ++ [(name, args)])[roots.length]? = some (name, args) := by
      rw [driven.length_roots, getElem?_append_right (Nat.le_refl _), Nat.sub_self]
      rfl
    obtain ⟨layer, isLayer, isBase⟩ := hasRoots _ _ last
    rw [← serves.library] at isLayer
    obtain ⟨root', g, chart', ran, within', roots', shows', expanded',
        ranked', previews', accounts'⟩ :=
      hosted.expanded.instantiate ranked (hosted.free _ (Nat.le_refl _)) isLayer isBase
    cases made.symm.trans ran
    refine ⟨chart', order,
      ⟨expanded', fun {i other} isRoot => ?_, fun i beyond => ?_, fun id => ?_⟩, ranked', grown, accounts' accounts⟩
    · rcases Nat.lt_or_ge i roots.length with inside | beyond
      · rw [getElem?_append_left inside] at isRoot
        exact (hosted.shows' isRoot).mono within'
      · rw [getElem?_append_right beyond] at isRoot
        obtain ⟨isFirst, rfl⟩ : i - roots.length = 0 ∧ root = other := by
          cases at' : i - roots.length with
          | zero =>
            rw [at'] at isRoot
            exact ⟨rfl, Option.some.inj isRoot⟩
          | succ k =>
            rw [at'] at isRoot
            cases isRoot
        obtain rfl : i = roots.length := by omega
        exact shows'
    · rw [length_append, length_singleton] at beyond
      exact (roots' i (by omega)).trans (hosted.free i (by omega))
    · exact previews' ▸ hosted.previews id
  | @preview requests roots previews w driven param make v after tidy grows made ih =>
    obtain ⟨chart, order, hosted, ranked, grown, accounts⟩ := ih hasRoots
    obtain ⟨coherent, coherent'⟩ := hosted.expanded.coherent.preview tidy made param
    have more : w.store.Extends after := by
      have more := grows.extends' w.store
      rwa [made] at more
    have expanded := (hosted.expanded.store more coherent).setPreview param coherent'
    refine ⟨chart, order, ⟨expanded, hosted.shows', hosted.free, fun id => ?_⟩,
      ranked.of_keeps (.setPreview w.graph param v) (form?_setPreview w.graph param v),
      grown.trans more, accounts.of_forms (form?_setPreview w.graph param v)⟩
    rw [lookup_setPreview, hosted.previews, lookup_cons]
  | tick driven steps ih =>
    obtain ⟨chart, order, hosted, ranked, grown, accounts⟩ := ih hasRoots
    obtain ⟨chart', evolves⟩ := hosted.expanded.tick serves steps
    obtain ⟨order', ranked'⟩ := evolves.ranked ranked
    exact ⟨chart', order', hosted.evolves evolves, ranked', grown.trans evolves.store,
      evolves.accounts accounts⟩
  | settle driven limit ih =>
    obtain ⟨chart, order, hosted, ranked, grown, accounts⟩ := ih hasRoots
    obtain ⟨chart', evolves⟩ := hosted.expanded.settle serves limit
    obtain ⟨order', ranked'⟩ := evolves.ranked ranked
    exact ⟨chart', order', hosted.evolves evolves, ranked', grown.trans evolves.store,
      evolves.accounts accounts⟩

end Driven

/-- The built-in natives and methods are reliable. -/
lemma builtin_reliable (known : Heap) (circuits : List Circuit) :
    (Library.builtin.insertAll circuits).Uniform (Reliable known) ∧
    (install {} {}).1.All (Reliable known) := by
  constructor
  · refine (Library.builtin_uniform fun native mem => ?_).insertAll circuits
    exact ⟨natives_pure native mem, natives_tidy native mem⟩
  · refine Methods.All.install (fun _ mem => absurd mem not_mem_nil) {}
      fun natives among native mem => ?_
    exact ⟨methods_pure natives among native mem, methods_tidy natives among native mem⟩

end Blockflow
