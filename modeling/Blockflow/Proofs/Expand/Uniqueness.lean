import Blockflow.Proofs.Expand.Runs

/-!
# What settled graphs show

What a node of a settled graph shows is determined by the blueprint and the previews if all that it
needs goes back to nodes that need nothing: two settled graphs over one blueprint show the same
there, whatever was expanded, evaluated and previewed in which order. All nodes that ever showed a
value are determined, since they are ranked. So no trace of the order is left in the outputs of the
roots.
-/

namespace Blockflow

open Chart Graph List Operators Option Store
open Value (Alike)

variable {known : Heap} {bp : Blueprint (Native.Reliable known)} {chart chart' : Chart}
  {w w' : Workspace}

/-- The node of a place reads the nodes of the places that the blueprint names, once it waits for
nothing. -/
lemma Chart.NodeFits.source {form : Form} (fits : NodeFits bp chart store place form)
    (idle : form.pending = []) {pin : Nat} {target : PinTarget}
    (isTarget : (bp.pins place)[pin]? = some target) :
    bp.TargetFine store place.path target ∧ ∃ input, form.inputs[pin]? = some input ∧
      chart.Leads (bp.targetSource place.path target) input := by
  obtain ⟨fine, -, reads⟩ := fits.reads isTarget fun pending mem => by
    rw [idle] at mem
    cases mem
  exact ⟨fine, reads⟩

/-! ## Two settled graphs -/

namespace Expanded

variable {ms : Methods} {base base' : Heap} {id : Handle} {place : Place}

variable (expanded : Expanded bp ms base chart none w) (settled : w.graph.isSettled)
include expanded settled

/-- A node of a settled graph is as the blueprint says of its place. -/
lemma settled_node (isNode : chart.node place = some id) :
    ∃ n, w.graph.node? id = some n ∧ NodeFits bp chart w.store place n.form ∧
      (n.pending ≠ [] → n.output = none ∧ ∀ entry ∈ n.pending, bp.Barred w.store place entry.1) ∧
      (n.pending = [] → UpToDateFor OutputAlike (Native.Reliable known) ms w id n) := by
  obtain ⟨form, isForm, fits⟩ := expanded.realizes.placed isNode
  obtain ⟨n, live, rfl⟩ := map_eq_some_iff.mp isForm
  exact ⟨n, live, fits, expanded.stuck isNode live nofun (expanded.sound.unqueued settled live),
    expanded.sound.current settled live⟩

/-- A node of a settled graph that shows a value waits for nothing, and its value is what it
computes. -/
lemma shown (isNode : chart.node place = some id) (isShown : w.graph.output? id = some v) :
    ∃ n made s t, w.graph.node? id = some n ∧ NodeFits bp chart w.store place n.form ∧
    n.pending = [] ∧
      (w.graph.evaluate ms id n).run s = (.ok (some made), t) ∧ t.Extends w.store ∧
      v.Alike made := by
  obtain ⟨n, live, fits, stuck, current⟩ := expanded.settled_node settled isNode
  have output : n.output = some v := by
    rw [output?, live] at isShown
    exact isShown
  have idle : n.pending = [] := by
    by_contra waits
    cases (stuck waits).1.symm.trans output
  obtain ⟨earlier, more, outcome⟩ := current idle
  cases ran : (w.graph.evaluate ms id n).run earlier with
  | mk result t =>
    rw [ran] at outcome more
    cases result with
    | error d => cases outcome.1.symm.trans output
    | ok made =>
      have alike : OutputAlike n.output made := outcome
      rw [output] at alike
      cases alike with
      | some alike => exact ⟨n, _, earlier, t, live, fits, idle, ran, more, alike⟩

end Expanded

/-- A node that is up to date shows what an evaluation that agrees with its own gave. -/
lemma UpToDateFor.alike (arePure : ms.Pure) {id : Handle} {n : Node}
    (current : UpToDateFor OutputAlike P ms w id n)
    (isPure : ∀ native, n.behavior = .op native → native.Pure)
    {first : Action (Option Value)} (agree : Agree OutputAlike first (w.graph.evaluate ms id n))
    {s t later : Store} {made : Value} (ran : first.run s = (.ok (some made), t))
    (more : t.Extends later)
    (more' : w.store.Extends later) : ∃ v, n.output = some v ∧ made.Alike v := by
  obtain ⟨earlier, known, outcome⟩ := current
  -- both evaluations are compared with one in the later store
  have now : SameOutcome OutputAlike _ _ := agree.agree s later (by rwa [ran])
  have again :=
    (evaluate_steady arePure w.graph id n isPure).agree earlier later (known.trans more')
  rw [ran] at now
  generalize ((w.graph.evaluate ms id n).run later).1 = result at now again
  generalize ((w.graph.evaluate ms id n).run earlier).1 = result' at again outcome
  cases now with
  | ok related =>
    cases related with
    | some related =>
      cases again with
      | ok related' =>
        cases related' with
        | some related' =>
          have shown : OutputAlike n.output (some _) := outcome
          generalize n.output = output at shown
          cases shown with
          | some alike => exact ⟨_, rfl, related.trans (related'.symm.trans alike.symm)⟩

namespace Expanded

variable {ms : Methods} {base base' : Heap}

section

variable (first : Expanded bp ms base chart none w) (second : Expanded bp ms base' chart' none w')
  (settled : w.graph.isSettled) (settled' : w'.graph.isSettled) {later : Store}
  (more : w.store.Extends later) (more' : w'.store.Extends later)

/-- The pins that a node needs read alike in two graphs, if the places that it needs show alike. -/
lemma reads_alike {id : Handle} {n n' : Node} {made : Value} {s t : Store}
    (live : w.graph.node? id = some n) (fits : NodeFits bp chart w.store place n.form)
    (fits' : NodeFits bp chart' w'.store place n'.form) (idle : n.pending = [])
    (idle' : n'.pending = [])
    (ran : (w.graph.evaluate ms id n).run s = (.ok (some made), t))
    (sources : ∀ src, w.graph.Needs id src → ∀ {place' src' v}, chart.node place' = some src →
      chart'.node place' = some src' → w.graph.output? src = some v →
        ∃ v', w'.graph.output? src' = some v' ∧ v.Alike v') :
      ∀ pin ∈ n.behavior.needs n.inputs.length,
      OutputAlike (w.graph.inputValue? n pin) (w'.graph.inputValue? n' pin) := by
  intro pin needed
  obtain ⟨src, isSource, shown⟩ := evaluate_needs ran needed
  obtain ⟨v, shown⟩ := isSome_iff_exists.mp shown
  have reads : n.form.inputs[pin]? = some (some src) := join_eq_some_iff.mp isSource
  obtain ⟨target, isTarget⟩ : ∃ target, (bp.pins place)[pin]? = some target := by
    have inside := lt_of_getElem? reads
    rw [fits.length] at inside
    exact ⟨_, getElem?_eq_getElem inside⟩
  obtain ⟨-, input, isInput, leads⟩ := fits.source idle isTarget
  cases reads.symm.trans isInput
  obtain ⟨-, input', isInput', leads'⟩ := fits'.source idle' isTarget
  cases at' : bp.targetSource place.path target with
  | none =>
    rw [at'] at leads
    cases leads
  | some place' =>
    rw [at'] at leads leads'
    obtain ⟨src', isSource'⟩ := isSome_iff_exists.mp leads'.2
    subst isSource'
    obtain ⟨v', shown', alike'⟩ :=
      sources src ⟨n, pin, live, needed, isSource⟩ leads.1.symm leads'.1.symm shown
    have isSource' : n'.source? pin = some src' := join_eq_some_iff.mpr isInput'
    rw [inputValue?, inputValue?, isSource, isSource']
    show OutputAlike (w.graph.output? src) (w'.graph.output? src')
    rw [shown, shown']
    exact .some alike'

include first second settled settled' more more' in
/-- What one settled graph shows at a place that is determined, another one shows too. -/
lemma shows_alike (arePure : ms.Pure)
    (previews : ∀ {path k id id'}, chart.node ⟨path, .param k⟩ = some id →
      chart'.node ⟨path, .param k⟩ = some id' →
      OutputAlike (w.graph.previews.lookup id) (w'.graph.previews.lookup id'))
    {id : Handle} (determined : Acc (fun src id => w.graph.Needs id src) id)
    {id' : Handle} {v : Value}
    (isNode : chart.node place = some id) (isNode' : chart'.node place = some id')
    (isShown : w.graph.output? id = some v) :
    ∃ v', w'.graph.output? id' = some v' ∧ v.Alike v' := by
  induction determined generalizing place id' v with
  | intro id _ ih =>
    obtain ⟨n, made, s, t, live, fits, idle, ran, earlier, alike⟩ :=
      first.shown settled isNode isShown
    obtain ⟨n', live', fits', stuck, current⟩ := second.settled_node settled' isNode'
    -- no pin is barred, since all of them are connected in the first graph
    have idle' : n'.pending = [] := by
      by_contra waits
      obtain ⟨-, barred⟩ := stuck waits
      obtain ⟨entry, mem⟩ := exists_mem_of_ne_nil _ waits
      obtain ⟨target, isTarget, -⟩ := fits'.waits entry mem
      obtain ⟨fine, -⟩ := fits.source idle isTarget
      exact barred entry mem target isTarget later more' (fine.mono more)
    have preview : ∀ i, n.behavior = .param i →
        OutputAlike (w.graph.previews.lookup id) (w'.graph.previews.lookup id') := by
      intro i isParam
      obtain ⟨path, role⟩ := place
      have suits : bp.Suits w.store ⟨path, role⟩ n.behavior := fits.suits
      rw [isParam] at suits
      obtain rfl := suits.param
      exact previews isNode isNode'
    have agree := evaluate_agree arePure (fits.suits.alike fits'.suits more more')
      (fun native computes => (first.sound.natives live computes).isPure)
        (fits'.length.trans fits.length.symm)
      (reads_alike live fits fits' idle idle' ran fun src needs => ih src needs) preview
    obtain ⟨v', output, alike'⟩ := (current idle').alike arePure
      (fun native computes => (second.sound.natives live' computes).isPure) agree ran
        (earlier.trans more) more'
    refine ⟨v', ?_, alike.trans alike'⟩
    rw [output?, live']
    exact output

end

end Expanded

namespace Hosted

variable {ms : Methods} {base : Heap} {roots : List Root} {previews : List (Handle × Value)}

lemma param (hosted : Hosted bp ms base roots previews chart w) {id : Handle}
    (shown : chart.node ⟨path, .param k⟩ = some id) :
    ∃ i root, path = .root i ∧ roots[i]? = some root ∧ root.params[k]? = some id := by
  obtain ⟨form, -, fits⟩ := hosted.expanded.realizes.placed shown
  obtain ⟨owner, site, -⟩ := fits.owner
  obtain ⟨layer, e, -, -, instanceFits⟩ := hosted.expanded.realizes.instances site
  have inside := lt_of_getElem? ((instanceFits.params k).trans shown)
  rw [instanceFits.paramCount] at inside
  cases path with
  | inner outer block => exact absurd inside (Nat.not_lt_zero k)
  | root i =>
    rcases Nat.lt_or_ge i roots.length with known | beyond
    · have isRoot := getElem?_eq_getElem known
      exact ⟨i, _, rfl, isRoot, (hosted.shows' isRoot).param hosted.expanded.realizes shown⟩
    · cases (hosted.free i beyond).symm.trans site

variable {base' : Heap} {roots' : List Root} {previews' : List (Handle × Value)}
  {order : List Handle} {later : Store}

/-- What a root of one settled graph shows, the same root of another one shows too. -/
lemma shows_alike (arePure : ms.Pure) (first : Hosted bp ms base roots previews chart w)
    (second : Hosted bp ms base' roots' previews' chart' w') (ranked : Ranked chart order w)
    (settled : w.graph.isSettled) (settled' : w'.graph.isSettled) (more : w.store.Extends later)
    (more' : w'.store.Extends later)
    (same : ∀ {i k : Nat} {root root' param param'}, roots[i]? = some root →
      roots'[i]? = some root' →
      root.params[k]? = some param → root'.params[k]? = some param' →
        OutputAlike (previews.lookup param) (previews'.lookup param'))
    {i k : Nat} {output output' : Handle} (isRoot : roots[i]? = some root)
    (isRoot' : roots'[i]? = some root') (isOutput : root.outputs[k]? = some output)
    (isOutput' : root'.outputs[k]? = some output') {v : Value}
    (shown : w.graph.output? output = some v) :
    ∃ v', w'.graph.output? output' = some v' ∧ v.Alike v' := by
  have isNode := (first.shows' isRoot).outputs isOutput
  obtain ⟨n, live, isValue⟩ := bind_eq_some_iff.mp shown
  have isRanked := ranked.shown isNode live (isSome_iff_exists.mpr ⟨v, isValue⟩)
  refine first.expanded.shows_alike second.expanded settled settled' more more' arePure ?_
    (ranked.accessible isRanked) isNode ((second.shows' isRoot').outputs isOutput') shown
  intro path k id id' isParam isParam'
  obtain ⟨i, root, rfl, isRoot, isParam⟩ := first.param isParam
  obtain ⟨_, root', atRoot, isRoot', isParam'⟩ := second.param isParam'
  cases atRoot
  rw [first.previews, second.previews]
  exact same isRoot isRoot' isParam isParam'

end Hosted

def RootsAlike (w w' : Workspace) : List Root → List Root → Prop :=
  Forall₂ fun root root' => Forall₂ (fun output output' =>
    OutputAlike (w.graph.output? output) (w'.graph.output? output')) root.outputs root'.outputs

/-- The outputs of graphs over one blueprint are compared one by one. -/
lemma Hosted.rootsAlike {roots roots' : List Root}
    {previews previews' : List (Handle × Value)} (first : Hosted bp ms base roots previews chart w)
    (second : Hosted bp ms base' roots' previews' chart' w') (count : roots.length = roots'.length)
    (alike : ∀ {i k : Nat} {root root' output output'}, roots[i]? = some root →
      roots'[i]? = some root' →
      root.outputs[k]? = some output → root'.outputs[k]? = some output' →
        OutputAlike (w.graph.output? output) (w'.graph.output? output')) :
      RootsAlike w w' roots roots' := by
  refine forall₂_iff_get.mpr ⟨count, fun i inside inside' => ?_⟩
  have isRoot := getElem?_eq_getElem inside
  have isRoot' := getElem?_eq_getElem inside'
  obtain ⟨layer, isLayer, -, outputs⟩ := (first.shows' isRoot).counts
  obtain ⟨layer', isLayer', -, outputs'⟩ := (second.shows' isRoot').counts
  cases isLayer.symm.trans isLayer'
  refine forall₂_iff_get.mpr ⟨outputs.trans outputs'.symm, fun k known known' => ?_⟩
  exact alike isRoot isRoot' (getElem?_eq_getElem known) (getElem?_eq_getElem known')

lemma outputAlike_of_shown {output output' : Option Value}
    (forth : ∀ v, output = some v → ∃ v', output' = some v' ∧ v.Alike v')
    (back : ∀ v, output' = some v → ∃ v', output = some v' ∧ v.Alike v') :
    OutputAlike output output' := by
  cases output with
  | some v =>
    obtain ⟨v', rfl, alike⟩ := forth v rfl
    exact .some alike
  | none =>
    cases output' with
    | none => exact .none
    | some v =>
      obtain ⟨_, shown, -⟩ := back v rfl
      cases shown

/-- However circuits are instantiated, values previewed and nodes evaluated in turns: once nothing
waits to be evaluated, the roots show what the last previews determine. Every assembler has to
follow a recipe, that is, the nodes that it makes are fixed by its block. Types are interned in one
table for all graphs, so both stores have a common later one. -/
theorem settled_order_irrelevant {env : Environment} {base base' : Heap}
    {requests : List (String × List String)}
    {roots roots' : List Root} {previews previews' : List (Handle × Value)}
    {store store' later : Store}
    (uniform : env.library.Uniform (Native.Reliable known))
    (methods : env.methods.All (Native.Reliable known))
    (within : known.Within base) (within' : known.Within base')
    (driven : Driven env base store requests roots previews w)
    (driven' : Driven env base' store' requests roots' previews' w')
    (settled : w.graph.isSettled = true) (settled' : w'.graph.isSettled = true)
    (same : ∀ {index k : Nat} {root root' param param'}, roots[index]? = some root →
      roots'[index]? = some root' →
      root.params[k]? = some param → root'.params[k]? = some param' →
        OutputAlike (previews.lookup param) (previews'.lookup param'))
    (more : w.store.Extends later) (more' : w'.store.Extends later) :
    RootsAlike w w' roots roots' := by
  obtain ⟨blueprint, serves, hasRoots⟩ := driven.exists_blueprint uniform methods
  obtain ⟨chart, order, hosted, ranked, -, -⟩ := driven.hosted serves within hasRoots
  obtain ⟨chart', order', hosted', ranked', -, -⟩ := driven'.hosted serves within' hasRoots
  refine hosted.rootsAlike hosted' (driven.length_roots.trans driven'.length_roots.symm) ?_
  intro index k root root' output output' isRoot isRoot' isOutput isOutput'
  refine outputAlike_of_shown (fun value shown => ?_) fun value shown => ?_
  · exact hosted.shows_alike serves.isPure hosted' ranked settled settled' more more' same isRoot
      isRoot' isOutput
      isOutput' shown
  · refine hosted'.shows_alike serves.isPure hosted ranked' settled' settled more' more ?_ isRoot'
      isRoot isOutput'
      isOutput shown
    intro index k root' root param' param isRoot' isRoot isParam' isParam
    exact (same isRoot isRoot' isParam isParam').symm

/-! ## A circuit that is expanded twice -/

def increment : Circuit where
  name := "increment"
  inputs := ["x"]
  outputs := ["y"]
  blocks := [{ blockType := "int", outputs := ["one"], arguments := ["1"] },
    { blockType := "add", inputs := ["x", "one"], outputs := ["y"] }]

def twice : Circuit where
  name := "twice"
  inputs := ["x"]
  outputs := ["z"]
  blocks := [{ blockType := "increment", inputs := ["x"], outputs := ["y"] },
    { blockType := "increment", inputs := ["y"], outputs := ["z"] }]

def twiceEnv : Environment :=
  { library := Library.builtin.insertAll [increment, twice], methods := (install {} {}).1 }

def twiceMade (store : Store) : Except Diagnostic Root × Workspace :=
  (Expand.instantiate twiceEnv.library "twice" []).run { store }

def twicePreview (n : Int) (w : Workspace) : Workspace :=
  { graph := w.graph.setPreview ⟨0, 0⟩ (int n w.store).1, store := (int n w.store).2 }

/-- The preview is set before anything is expanded. -/
def twiceAtOnce : Workspace :=
  ((twicePreview 5 (twiceMade (install {} {}).2).2).settle twiceEnv 100).2

/-- Another preview is set first, when a part is expanded, and taken back when a part of that is
evaluated. -/
def twiceInTurns : Workspace :=
  ((twicePreview 5 ((twicePreview 1 ((twiceMade twiceAtOnce.store).2.tick twiceEnv 3)).tick twiceEnv
    4)).settle twiceEnv 100).2

lemma twiceMade_ok (made : (twiceMade store).1.toOption.map Root.params = some [⟨0, 0⟩]) :
    ∃ root, (twiceMade store).1 = .ok root ∧ root.params = [⟨0, 0⟩] := by
  cases result : (twiceMade store).1 with
  | error d =>
    rw [result] at made
    cases made
  | ok root =>
    rw [result] at made
    exact ⟨root, rfl, some.inj made⟩

lemma int_alike (n : Int) (eq : s.types.base = t.types.base) : (int n s).1.Alike (int n t).1 := by
  show Value.bare ⟨s.types.primitive .i64, [], [], _, _⟩ =
    Value.bare ⟨t.types.primitive .i64, [], [], _, _⟩
  rw [Value.bare, Value.bare, TypeTable.primitive, TypeTable.primitive, eq]

theorem twice_order_irrelevant : ∃ base base' roots roots' previews previews',
    Driven twiceEnv base (Operators.install {} {}).2 [("twice", [])] roots previews twiceAtOnce ∧
      Driven twiceEnv base' twiceAtOnce.store [("twice", [])] roots' previews' twiceInTurns ∧
      twiceAtOnce.graph.isSettled = true ∧ twiceInTurns.graph.isSettled = true ∧
      (twiceAtOnce.graph.output? ⟨1, 0⟩).bind Value.int? = some 7 ∧
      RootsAlike twiceAtOnce twiceInTurns roots roots' := by
  obtain ⟨base, fits⟩ := exists_heap {}
  obtain ⟨uniform, methods⟩ := builtin_reliable base [increment, twice]
  have made : (twiceMade (install {} {}).2).1.toOption.map Root.params = some [⟨0, 0⟩] := by
    decide +kernel
  have made' : (twiceMade twiceAtOnce.store).1.toOption.map Root.params = some [⟨0, 0⟩] := by
    decide +kernel
  obtain ⟨root, isRoot, params⟩ := twiceMade_ok made
  obtain ⟨root', isRoot', params'⟩ := twiceMade_ok made'
  have previewed : ∀ {base store requests roots previews w} (n : Int),
      Driven twiceEnv base store requests roots previews w →
      Driven twiceEnv base store requests roots ((⟨0, 0⟩, (int n w.store).1) :: previews)
        (twicePreview n w) :=
    fun n driven => driven.preview ⟨0, 0⟩ (int_tidy n) (int_agree n).grows rfl
  have driven : Driven twiceEnv base (install {} {}).2 [("twice", [])] [root] _ twiceAtOnce :=
    (previewed 5 ((Driven.start fits).instantiate (Prod.ext isRoot rfl))).settle 100
  -- the second run starts in the store that the first one left
  obtain ⟨blueprint, serves, hasRoots⟩ := driven.exists_blueprint uniform methods
  obtain ⟨chart, order, hosted, -, -, -⟩ := driven.hosted serves (.refl base) hasRoots
  obtain ⟨base', within, fits', -⟩ := hosted.expanded.coherent
  have driven' : Driven twiceEnv base' twiceAtOnce.store [("twice", [])] [root'] _ twiceInTurns :=
    (previewed 5
      ((previewed 1 (((Driven.start fits').instantiate (Prod.ext isRoot' rfl)).tick 3)).tick
        4)).settle 100
  obtain ⟨_, _, -, -, more, -⟩ := driven'.hosted serves within hasRoots
  have settled : twiceAtOnce.graph.isSettled = true := by decide +kernel
  have settled' : twiceInTurns.graph.isSettled = true := by decide +kernel
  refine ⟨base, base', _, _, _, _, driven, driven', settled, settled', by decide +kernel, ?_⟩
  refine settled_order_irrelevant uniform methods
    (.refl base) within driven driven' settled settled' ?_ more (.refl _)
  intro index k other other' param param' isRoot isRoot' isParam isParam'
  obtain rfl : root = other := mem_singleton.mp (mem_of_getElem? isRoot) |>.symm
  obtain rfl : root' = other' := mem_singleton.mp (mem_of_getElem? isRoot') |>.symm
  rw [params] at isParam
  rw [params'] at isParam'
  obtain rfl := mem_singleton.mp (mem_of_getElem? isParam)
  obtain rfl := mem_singleton.mp (mem_of_getElem? isParam')
  refine .some (int_alike 5 ?_)
  decide +kernel

end Blockflow
