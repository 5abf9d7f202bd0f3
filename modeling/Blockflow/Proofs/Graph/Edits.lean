import Blockflow.Proofs.Graph.Nodes
import Blockflow.Proofs.Literal.Agreement
import Mathlib.Logic.Relation

/-!
# Edits

Expanding circuits changes a graph in a few ways only: nodes are added, pins are connected or left
to be connected, expansions change, and the store grows. A library conforms if its assemblers do
nothing else. Whatever these changes keep is kept by every expansion.
-/

namespace Blockflow

open Effect Graph Edit

/-- What an edit may do: the nodes that it may make, and those that it may wire, by the workspace
that it starts from. -/
structure EditRules where
  Makes : Behavior → Prop
  Wires : Workspace → Handle → Prop

/-- One change by an edit that began at `start`. -/
inductive EditStep (rules : EditRules) (start : Workspace) : Workspace → Workspace → Prop where
  | store {w : Workspace} {store : Store} (extends' : w.store.Extends store) :
      EditStep rules start w { w with store }
  | addNode {w : Workspace} {b : Behavior} (makes : rules.Makes b) (inputs : Nat)
      (owner : Option Handle) :
      EditStep rules start w { w with graph := (w.graph.addNode b inputs owner).2 }
  | connect {w : Workspace} {id : Handle} (wires : rules.Wires start id) (pin : Nat)
      (src : Option Handle) : EditStep rules start w { w with graph := w.graph.connect id pin src }
  | addPending {w : Workspace} {id : Handle} (wires : rules.Wires start id) (pin : Nat)
      (pending : Pending) : EditStep rules start w
        { w with graph := w.graph.addPending id pin pending }
  | expansions {w : Workspace} (expansions : Arena Expansion) :
      EditStep rules start w { w with graph := { w.graph with expansions } }

/-- Any number of changes. -/
def Edits (rules : EditRules) (start : Workspace) : Workspace → Workspace → Prop :=
  Relation.ReflTransGen (EditStep rules start)

lemma Library.assemblers_insertAll (lib : Library) (circuits : List Circuit) :
    (lib.insertAll circuits).assemblers = lib.assemblers := by
  induction circuits generalizing lib with
  | nil => rfl
  | cons c circuits ih => exact ih (lib.insert c)

/-- The assemblers of a library keep to the rules. -/
def Library.Conforms (lib : Library) (rules : EditRules) : Prop :=
  ∀ entry ∈ lib.assemblers, ∀ asm w, w.graph.nodes.WellFormed →
    Edits rules w w ((entry.2 asm).run w).2

lemma Library.Conforms.insertAll {lib : Library} (conforms : lib.Conforms rules)
    (circuits : List Circuit) : (lib.insertAll circuits).Conforms rules := by
  rw [Conforms, lib.assemblers_insertAll]
  exact conforms

/-- What nodes inside circuits compute: nothing is a parameter, and natives have the property
`P`. -/
def Behavior.Inner (P : Native → Prop) : Behavior → Prop
  | .param _ => False
  | .op native => P native
  | _ => True

/-- The rules under which circuits are expanded: the nodes that expansion makes by itself are
allowed, and nodes that were not there at the start may be wired. -/
structure EditRules.Expanding (rules : EditRules) : Prop where
  const : ∀ v, rules.Makes (.const v)
  pack : rules.Makes .pack
  unpack : ∀ i, rules.Makes (.unpack i)
  nested : ∀ block pin, rules.Makes (.nested block pin)
  wires : ∀ {start id}, ¬start.graph.contains id → rules.Wires start id
  earlier : ∀ {start later id}, (∀ id, start.graph.contains id → later.graph.contains id) →
    rules.Wires later id → rules.Wires start id

/-! ## What edits keep -/

namespace Edits

variable {rules : EditRules} {start w w' : Workspace}

lemma step_contains (wf : w.graph.nodes.WellFormed) (step : EditStep rules start w w') :
    w'.graph.nodes.WellFormed ∧ ∀ id, w.graph.contains id → w'.graph.contains id := by
  cases step with
  | store | expansions => exact ⟨wf, fun _ live => live⟩
  | @connect id _ pin src =>
    have keeps := Keeps.connect w.graph id pin src
    exact ⟨keeps.wellFormed wf, fun id => (keeps.contains_iff id).mpr⟩
  | @addPending id _ pin pending =>
    have keeps := Keeps.addPending w.graph id pin pending
    exact ⟨keeps.wellFormed wf, fun id => (keeps.contains_iff id).mpr⟩
  | @addNode b _ inputs owner =>
    refine ⟨(addNode_facts wf b inputs owner).1, fun id live => ?_⟩
    obtain ⟨n, live⟩ := contains_iff.mp live
    exact contains_iff.mpr ⟨n, addNode_keeps wf b inputs owner live⟩

lemma contains (wf : w.graph.nodes.WellFormed) (edits : Edits rules start w w') :
    w'.graph.nodes.WellFormed ∧ ∀ id, w.graph.contains id → w'.graph.contains id := by
  induction edits with
  | refl => exact ⟨wf, fun _ live => live⟩
  | tail _ step ih =>
    have kept := step_contains ih.1 step
    exact ⟨kept.1, fun id live => kept.2 id (ih.2 id live)⟩

lemma inside (lawful : rules.Expanding) (wf : start.graph.nodes.WellFormed)
    (before : Edits rules start start w) (edits : Edits rules w w w') :
    Edits rules start start w' := by
  have wires : ∀ {id}, rules.Wires w id → rules.Wires start id :=
    lawful.earlier (before.contains wf).2
  refine before.trans
    (Relation.ReflTransGen.mono (p := EditStep rules start) (fun a b step => ?_) _ _ edits)
  cases step with
  | store extends' => exact .store extends'
  | addNode makes inputs owner => exact .addNode makes inputs owner
  | connect own pin src => exact .connect (wires own) pin src
  | addPending own pin pending => exact .addPending (wires own) pin pending
  | expansions expansions => exact .expansions expansions

lemma wires_addNode (lawful : rules.Expanding) (wf : start.graph.nodes.WellFormed)
    (edits : Edits rules start start w)
    (b : Behavior) (inputs : Nat) (owner : Option Handle) :
    rules.Wires start (w.graph.addNode b inputs owner).1 := by
  obtain ⟨wf', live⟩ := edits.contains wf
  obtain ⟨-, fresh, -⟩ := addNode_facts wf' b inputs owner
  exact lawful.wires fun was => fresh (.inl (live _ was))

lemma addPendingLink {id : Handle} (wires : rules.Wires start id) (w : Workspace) (pin : Nat)
    (name : String) :
    Edits rules start w { w with graph := w.graph.addPendingLink id pin name } := by
  rw [Graph.addPendingLink]
  split
  · exact .refl
  · exact .single (.addPending wires pin (.link name))

end Edits

/-- A computation that keeps to the rules, as a part of an edit that began at `start`. -/
def Editing (rules : EditRules) (start : Workspace) {α : Type} (edit : Edit α) : Prop :=
  edit.Keeps (Edits rules start start)

namespace Editing

variable {rules : EditRules} {start : Workspace} {α β : Type} {edit : Edit α} {id : Handle}

lemma of_edits (edits : ∀ w, Edits rules start start w → Edits rules start w (edit.run w).2) :
    Editing rules start edit := Keeps.of_after fun w earlier => earlier.trans (edits w earlier)

lemma of_step (step : ∀ w, EditStep rules start w (edit.run w).2) :
    Editing rules start edit := .of_edits fun w _ => .single (step w)

lemma edits (editing : Editing rules w edit) :
    Edits rules w w (edit.run w).2 := Keeps.after editing .refl

lemma graph : Editing rules start graph := fun _ edits => edits

lemma connect (wires : rules.Wires start id) (pin : Nat) (src : Option Handle) :
    Editing rules start (modifyGraph (·.connect id pin src)) :=
  .of_step fun _ => .connect wires pin src

lemma addPending (wires : rules.Wires start id) (pin : Nat) (pending : Pending) :
    Editing rules start (modifyGraph (·.addPending id pin pending)) :=
  .of_step fun _ => .addPending wires pin pending

lemma addPendingLink (wires : rules.Wires start id) (pin : Nat) (name : String) :
    Editing rules start (modifyGraph (·.addPendingLink id pin name)) :=
  .of_edits fun w _ => .addPendingLink wires w pin name

lemma addNode (lawful : rules.Expanding) (wf : start.graph.nodes.WellFormed)
    (makes : rules.Makes b) (inputs : Nat) (owner : Option Handle)
    (rest : ∀ id, rules.Wires start id → Editing rules start (next id)) :
    Editing rules start (onGraph (·.addNode b inputs owner) >>= next) := fun _ earlier =>
  .bind
    (rest _ (earlier.wires_addNode lawful wf b inputs owner)
      _ (earlier.tail (.addNode makes inputs owner)))

lemma modifyExpansion (id : Handle) (f : Expansion → Expansion) :
    Editing rules start (modifyGraph (·.modifyExpansion id f)) := .of_step fun _ => .expansions _

lemma allocExpansion (e : Expansion) : Editing rules start (onGraph fun g =>
    ((g.expansions.alloc e).1,
      { g with expansions := (g.expansions.alloc e).2 })) :=
  .of_step fun _ => .expansions _

end Editing

/-! ## What finding nodes keeps -/

lemma Edit.onStore_ends {w : Workspace} {Post : α → Workspace → Prop}
    {Fail : Diagnostic → Workspace → Prop}
    (post : ∀ a store, action.run w.store = (.ok a, store) → Post a { w with store })
    (fail : ∀ d store, action.run w.store = (.error d, store) → Fail d { w with store }) :
    (onStore action).Ends w Post Fail := by
  have ran : (onStore action).run w =
      ((action.run w.store).1, { w with store := (action.run w.store).2 }) := rfl
  rw [Ends, ran]
  rcases outcome : action.run w.store with ⟨d | a, store⟩
  · exact fail d store outcome
  · exact post a store outcome

/-- A change of an expansion that leaves its circuit, its place, its blocks and its nodes alone. -/
structure Expansion.Minor (f : Expansion → Expansion) : Prop where
  circuit : ∀ e, (f e).circuit = e.circuit
  parents : ∀ e, (f e).parents = e.parents
  blocks : ∀ e, (f e).blocks = e.blocks
  members : ∀ e, (f e).members = e.members
  params : ∀ e, (f e).params = e.params
  anchors : ∀ e, (f e).anchors = e.anchors

namespace Expand

variable {α : Type} {lib : Library} {w : Workspace} {id : Handle} {e : Expansion} {Post : α →
  Workspace → Prop}
  {Fail : Diagnostic → Workspace → Prop}

lemma expansionAt_eq (id : Handle) (w : Workspace) :
    (expansionAt id).run w = (match w.graph.expansion? id with
      | some e => pure e
      | none => refuse .expansionGone : Edit Expansion).run w := rfl

lemma expansionAt_run (found : w.graph.expansion? id = some e) :
    (expansionAt id).run w = (.ok e, w) := by
  rw [expansionAt_eq, found]
  rfl

lemma expansionAt_ends (found : w.graph.expansion? id = some e)
    (ends : (next e).Ends w Post Fail) : (expansionAt id >>= next).Ends w Post Fail :=
  .bind (.of_run (expansionAt_run found) ends)

lemma live?_ends (ends : (next (w.graph.live? n)).Ends w Post Fail) :
    (live? n >>= next).Ends w Post Fail :=
  .bind (.of_run rfl ends)

lemma expansionAt_gone (gone : w.graph.expansion? id = none) :
    (expansionAt id).run w = (.error { problem := .expansionGone }, w) := by
  rw [expansionAt_eq, gone]
  rfl

lemma argumentValue_agree (e : Expansion) (i : Nat) :
    Store.Agree Value.Alike (argumentValue e i) (argumentValue e i) := by
  rw [argumentValue]
  split
  · refine (Store.Agree.mapM Literal.parseAuto_agree _).bind (fun a b alike => Store.pack_agree ?_)
      (fun vs => .pack vs) fun vs => .pack vs
    rw [Value.AllAlike]
    induction alike with
    | nil => rfl
    | cons first _ ih =>
      rw [List.map_cons, List.map_cons, ih, show Value.bare _ = Value.bare _ from first]
  · split
    · exact Literal.parseAuto_agree _
    · exact .fail _ _

/-- What finding the nodes of links keeps: all the ways in which it changes a workspace do, where
`Own` are the nodes that may be wired. -/
structure Invariant (lib : Library) (Own : Handle → Prop) (I : Workspace → Prop) : Prop where
  store : ∀ {w} {store : Store}, I w → w.store.Extends store → I { w with store }
  addNode : ∀ {w owner e b} inputs, I w → w.graph.expansion? owner = some e →
    (b = .pack ∨ ∃ v, b = .const v) →
    I { w with graph := (w.graph.addNode b inputs (some owner)).2 } ∧
      Own (w.graph.addNode b inputs (some owner)).1
  connect : ∀ {w id} pin src, I w → Own id → I { w with graph := w.graph.connect id pin src }
  note : ∀ {w id f}, I w → Expansion.Minor f → I { w with graph := w.graph.modifyExpansion id f }
  materialize : ∀ id block, (materialize lib id block).Keeps I
  childOf : ∀ {w id e block outs hidden child}, I w → w.graph.expansion? id = some e →
    e.stateOf block = .nested outs hidden child →
    (childOf lib id block child).Ends w (fun _ => I) fun _ => I

namespace Invariant

variable {Own : Handle → Prop} {I : Workspace → Prop}

/-- What follows the look-up of an expansion knows that it is there. -/
lemma lookUp {next : Expansion → Edit α} (holds : I w) (rest : ∀ e, w.graph.expansion? id = some e →
    (next e).Ends w (fun _ => I) fun _ => I) :
    (expansionAt id >>= next).Ends w (fun _ => I) fun _ => I := by
  cases found : w.graph.expansion? id with
  | some e => exact expansionAt_ends found (rest e found)
  | none => exact .bind (.of_refusal (expansionAt_gone found) holds)

variable (invariant : Invariant lib Own I)
include invariant

lemma modifyAt (id : Handle) (minor : Expansion.Minor f) : (modifyAt id f).Keeps I := by
  show ((expansionAt id >>= fun _ => pure ()) >>=
    fun _ => modifyGraph (·.modifyExpansion id f)).Keeps I
  rw [bind_assoc]
  exact fun w holds => lookUp holds fun _ _ => invariant.note holds minor

lemma resolveArgument (id : Handle) (i : Nat) : (resolveArgument id i).Keeps I := by
  refine fun w holds => lookUp holds fun e live => live?_ends ?_
  split
  · exact holds
  · have grows := (argumentValue_agree e i).grows.extends' w.store
    refine .bind (onStore_ends (fun v store ran => ?_) fun d store ran => ?_) <;> rw [ran] at grows
    · obtain ⟨made, -⟩ := invariant.addNode 0 (invariant.store holds grows) live (.inr ⟨v, rfl⟩)
      refine .bind (.of_run rfl (.bind (invariant.modifyAt id ?_ _ made)))
      constructor <;> exact fun _ => rfl
    · exact invariant.store holds grows

lemma resolveInput (expansion : Expansion) (live : w.graph.expansion? id = some e) (holds : I w)
    (site : CallSite)
    (i : Nat) (resolving : ∀ name, (resolve name).Keeps I) :
    (resolveInput expansion id site i resolve).Ends w (fun _ => I) fun _ => I := by
  refine live?_ends ?_
  split
  · exact holds
  · refine lookUp holds fun caller _ => ?_
    dsimp only
    split
    · obtain ⟨made, own⟩ := invariant.addNode _ holds live (.inl rfl)
      refine .bind
        (.of_run rfl
          (Keeps.bind (.forM ?_ _) (fun _ => (invariant.modifyAt id ?_).bind fun _ => .pure _)
        _ made))
      · exact fun (link, pin) => (resolving link).bind fun src _ holds =>
          invariant.connect pin src holds own
      · constructor <;> exact fun _ => rfl
    · split
      · exact resolving _ w holds
      · exact holds

lemma blockOutput (id : Handle) (block pin : Nat) : (blockOutput lib id block pin).Keeps I := by
  refine (invariant.materialize id block).bind fun _ w holds => lookUp holds fun e _ => ?_
  split <;> exact holds

lemma resolveLink (sites : List CallSite) (id : Handle) (name : String) :
    (resolveLink lib sites id name).Keeps I := by
  rw [resolveLink.eq_def]
  dsimp only
  split
  · exact .pure _
  refine fun w holds => lookUp holds fun e live => ?_
  split
  · exact holds
  · exact (invariant.resolveArgument id _).bind (fun _ => .pure _) w holds
  · exact invariant.blockOutput id _ _ w holds
  · match sites with
    | [] => exact holds
    | site :: outer =>
      exact invariant.resolveInput e live holds site _ (resolveLink outer site.expansion)

lemma link (id : Handle) (name : String) : (link lib id name).Keeps I :=
  fun w holds => .bind (.of_run rfl (invariant.resolveLink _ id name w holds))

lemma nestedOutput (id : Handle) (block pin : Nat) : (nestedOutput lib id block pin).Keeps I := by
  refine fun w holds => lookUp holds fun e live => ?_
  split
  next outs hidden child nested =>
    refine .bind ((invariant.childOf holds live nested).imp (fun child w holds => lookUp holds
      fun inner _ => ?_)
      fun _ _ holds => holds)
    split
    · exact holds
    · split
      · exact holds
      · refine (invariant.modifyAt child ?_).bind (fun _ => (invariant.link child _).attempt.bind
          fun resolved =>
          (invariant.modifyAt child ?_).bind fun _ => .ofExcept resolved) w holds <;>
            constructor <;> exact fun _ => rfl
  · exact holds

end Invariant

end Expand

namespace Expand

variable {rules : EditRules} {start : Workspace} {lib : Library}

lemma expansionAt_editing (id : Handle) : Editing rules start (expansionAt id) := by
  refine .bind Editing.graph fun g => ?_
  split
  · exact .pure _
  · exact .fail _

lemma modifyAt_editing (id : Handle) (f : Expansion → Expansion) :
    Editing rules start (modifyAt id f) :=
  .bind (.bind (expansionAt_editing id) fun _ => .pure _) fun _ => Editing.modifyExpansion id f

section

variable (lawful : rules.Expanding) (wf : start.graph.nodes.WellFormed)
include lawful wf

lemma addNestedOutput_editing (id : Handle) (block pin : Nat) :
    Editing rules start (addNestedOutput id block pin) :=
  .addNode lawful wf (lawful.nested block pin) 1 (some id) fun _ wires =>
    .bind (Editing.addPending wires 0 _) fun _ => .pure _

lemma nestedOutputs_editing (id : Handle) (block : Nat) (callee : Circuit) (descriptor : Block)
    (args : List String) : Editing rules start (nestedOutputs id block callee descriptor args) := by
  rw [nestedOutputs]
  dsimp only
  generalize (if callee.outputPins.isVariadic then callee.outputPins.fixed
    else descriptor.outputs.length) = fixed
  refine .bind (.ofExcept _) fun _ => .bind (.ofExcept _) fun _ => .bind (.ofExcept _) fun _ =>
    .bind (.mapM (addNestedOutput_editing lawful wf id block) _) fun outs => ?_
  split
  · split
    · refine .bind (addNestedOutput_editing lawful wf id block _) fun carrier =>
        .bind (.mapM ?_ _) fun unpacks =>
        .pure _
      exact fun i => Editing.addNode lawful wf (lawful.unpack i) 1 (some id) fun _ wires =>
        .bind (Editing.connect wires 0 _) fun _ => .pure _
    · exact .pure _
  · exact .pure _

variable (conforms : lib.Conforms rules)
include conforms

lemma materialize_editing (id : Handle) (block : Nat) :
    Editing rules start (materialize lib id block) := by
  refine .bind (expansionAt_editing id) fun e => ?_
  split
  next descriptor _ _ =>
    split
    next assemble found =>
      have assembles : Editing rules start
          (assemble ⟨id, descriptor, e.specialize descriptor.arguments, lib.circuits⟩) := by
        intro w earlier
        have edits := conforms _ (lookup_mem found)
          ⟨id, descriptor, e.specialize descriptor.arguments, lib.circuits⟩ w
            (earlier.contains wf).1
        refine .intro (fun _ _ ran => ?_) fun _ _ ran => ?_ <;> rw [ran] at edits <;>
          exact Edits.inside lawful wf earlier edits
      refine .bind assembles fun outs => ?_
      split
      · exact .fail _
      · exact modifyAt_editing id _
    next =>
      split
      · exact .bind (nestedOutputs_editing lawful wf id block _ descriptor _) fun state =>
          modifyAt_editing id _
      · exact .fail _
  · exact .pure _

omit lawful wf conforms in
lemma checkAncestors_editing (callee : Circuit) (ids : List Handle) :
    Editing rules start (checkAncestors callee ids) := by
  induction ids with
  | nil => exact .pure ()
  | cons id outer ih =>
    refine .bind (expansionAt_editing id) fun e => ?_
    split
    · exact .fail _
    · exact ih

omit lawful wf conforms in
lemma expandNested_editing (id : Handle) (block : Nat) :
    Editing rules start (expandNested lib id block) := by
  refine .bind (expansionAt_editing id) fun e => ?_
  dsimp only
  split
  · exact .fail _
  · exact .bind (checkAncestors_editing _ _) fun _ => .bind (.ofExcept _) fun child =>
      .bind (Editing.allocExpansion child) fun childId =>
        .bind (modifyAt_editing id _) fun _ => .pure _

omit lawful wf conforms in
lemma childOf_editing (id : Handle) (block : Nat) (child : Option Handle) :
    Editing rules start (childOf lib id block child) := by
  cases child with
  | none => exact expandNested_editing id block
  | some child =>
    refine .bind Editing.graph fun g => ?_
    split
    · exact .pure _
    · exact expandNested_editing id block

lemma editing_invariant : Invariant lib (rules.Wires start) (Edits rules start start) where
  store holds more := holds.tail (.store more)
  addNode inputs holds _ isInner := by
    refine ⟨holds.tail (.addNode ?_ inputs _), Edits.wires_addNode lawful wf holds _ inputs _⟩
    rcases isInner with rfl | ⟨v, rfl⟩
    · exact lawful.pack
    · exact lawful.const v
  connect pin src holds own := holds.tail (.connect own pin src)
  note holds _ := holds.tail (.expansions _)
  materialize := materialize_editing lawful wf conforms
  childOf holds _ _ := childOf_editing _ _ _ _ holds

end

end Expand

namespace Workspace

section

variable {env : Environment} {w : Workspace}

lemma tick_settled (settled : w.graph.isSettled) (steps : Nat) : w.tick env steps = w := by
  have none := (Worklist.pop?_eq_none _).mpr ((Worklist.isEmpty_iff _).mp settled)
  cases steps with
  | zero => rfl
  | succ steps => rw [tick, none]

lemma tick_add (steps more : Nat) :
    w.tick env (steps + more) = (w.tick env steps).tick env more := by
  induction steps generalizing w with
  | zero => rw [Nat.zero_add, tick]
  | succ steps ih =>
    rw [Nat.add_right_comm, tick, tick]
    cases popped : w.graph.worklist.pop? with
    | none =>
      have settled := (Worklist.isEmpty_iff _).mpr ((Worklist.pop?_eq_none _).mp popped)
      exact (tick_settled settled more).symm
    | some entry => exact ih

/-- Batches of any size come to the same as one batch of the whole budget. -/
lemma settleRounds_eq (positive : 0 < batch) (enough : budget ≤ rounds) :
    settleRounds env batch rounds budget w =
      ((w.tick env budget).graph.isSettled, w.tick env budget) := by
  induction rounds generalizing budget w with
  | zero =>
    obtain rfl := Nat.le_zero.mp enough
    rw [settleRounds]
    split
    next settled => rw [tick, settled]
    next waits => rw [if_pos rfl, tick, eq_false_of_ne_true waits]
  | succ rounds ih =>
    rw [settleRounds]
    split
    next settled => rw [tick_settled settled, settled]
    next waits =>
      split
      next none => rw [none, tick, eq_false_of_ne_true waits]
      next some =>
        have spent : min batch budget + (budget - min batch budget) = budget :=
          Nat.add_sub_of_le (Nat.min_le_right _ _)
        rw [ih (by omega), ← tick_add, spent]

lemma settle_eq (limit : Nat) : w.settle env limit =
    if (w.tick env limit).graph.isSettled then (true, w.tick env limit)
    else (false, { w.tick env limit with
      graph.diagnostics :=
        (w.tick env limit).graph.diagnostics.push { problem := .notSettled limit } }) := by
  rw [settle, settleRounds_eq (by rw [maxBatch]; omega) (Nat.le_refl _)]
  cases (w.tick env limit).graph.isSettled <;> rfl

variable {I : Workspace → Prop} (step : ∀ {w id worklist}, I w →
  w.graph.worklist.pop? = some (id, worklist) →
  I (process env id { w with graph.worklist := worklist }))
include step

/-- What holds after the evaluation of any node of the worklist holds after any number of them. -/
lemma tick_induction (steps : Nat) (holds : I w) : I (w.tick env steps) := by
  induction steps generalizing w with
  | zero => exact holds
  | succ steps ih =>
    rw [tick]
    split
    · exact holds
    next popped => exact ih (step holds popped)

lemma settle_induction (giveUp : ∀ {w} limit, I w →
    I { w with graph.diagnostics := w.graph.diagnostics.push { problem := .notSettled limit } })
    (limit : Nat)
    (holds : I w) : I (w.settle env limit).2 := by
  rw [settle_eq]
  split
  · exact tick_induction step limit holds
  · exact giveUp _ (tick_induction step limit holds)

end

lemma evaluate_eq (env : Environment) (id : Handle) (w : Workspace) : (evaluate env id).run w =
      (match w.graph.node? id with
      | none => pure none
      | some n => onStore (w.graph.evaluate env.methods id n) : Edit (Option Value)).run w := rfl

lemma resolvePins_cons (env : Environment) (id owner : Handle) (pin : Nat) (pending : Pending)
    (rest : List (Nat × Pending)) (w : Workspace) :
    resolvePins env id owner ((pin, pending) :: rest) w =
      (match ((resolvePin env id owner pin pending).run w).1 with
        | .ok () =>
          (resolvePins env id owner rest ((resolvePin env id owner pin pending).run w).2).1
        | .error d => .error d,
      (resolvePins env id owner rest ((resolvePin env id owner pin pending).run w).2).2) := rfl

lemma resolvePending_eq (env : Environment) (id : Handle) (w : Workspace) :
    resolvePending env id w =
      match w.graph.node? id with
      | none => (.ok (), w)
      | some n =>
        match n.pending, n.owner with
        | [], _ => (.ok (), w)
        | _, none => (.error { problem := .unownedLinks }, w)
        | pending, some owner => resolvePins env id owner pending w := by
  show (match w.graph.node? id with
    | none => _
    | some n => _ : StateM Workspace (Except Diagnostic Unit)) w = _
  cases w.graph.node? id with
  | none => rfl
  | some n =>
    dsimp only
    rcases n.pending with _ | ⟨entry, rest⟩ <;> rcases n.owner with _ | owner <;> rfl

variable {rules : EditRules} {env : Environment} {w : Workspace} (lawful : rules.Expanding)
  (conforms : env.library.Conforms rules)
include lawful conforms

/-- Connecting a pending pin edits; if it succeeds, the pin is connected last. -/
lemma resolvePin_edits (wf : w.graph.nodes.WellFormed) (id owner : Handle) (pin : Nat)
    (pending : Pending) : ∃ w', Edits rules w w w' ∧
      ((∃ d, (resolvePin env id owner pin pending).run w = (.error d, w')) ∨
        ∃ src, (resolvePin env id owner pin pending).run w =
          (.ok (), { w' with graph := w'.graph.connect id pin src })) := by
  have resolves : ∀ find : Edit (Option Handle), Editing rules w find → ∃ w', Edits rules w w w' ∧
      ((∃ d, ((find >>= fun src => modifyGraph (·.connect id pin src)).mapFailure
          (·.atPin pin)).run w = (.error d, w')) ∨
        ∃ src, ((find >>= fun src => modifyGraph (·.connect id pin src)).mapFailure
          (·.atPin pin)).run w = (.ok (), { w' with graph := w'.graph.connect id pin src })) := by
    intro find editing
    have edits := editing.edits
    simp only [mapFailure, run_bind]
    rcases outcome : find.run w with ⟨d | src, w'⟩ <;> rw [outcome] at edits
    · exact ⟨w', edits, .inl ⟨d.atPin pin, rfl⟩⟩
    · exact ⟨w', edits, .inr ⟨src, rfl⟩⟩
  cases pending with
  | link name => exact resolves _ ((Expand.editing_invariant lawful wf conforms).link owner name)
  | nestedOutput block output =>
    exact resolves _ ((Expand.editing_invariant lawful wf conforms).nestedOutput owner block output)

/-- What edits and connections of a node keep is kept when its pending pins are connected. -/
lemma resolvePending_keeps {I : Workspace → Prop} (wf : ∀ w, I w → w.graph.nodes.WellFormed)
    (edits : ∀ w w', I w → Edits rules w w w' → I w') {id : Handle}
    (connect : ∀ w pin src, I w → I { w with graph := w.graph.connect id pin src }) (holds : I w) :
    I (resolvePending env id w).2 := by
  have pins : ∀ owner pending w, I w → I (resolvePins env id owner pending w).2 := by
    intro owner pending
    induction pending with
    | nil => exact fun _ holds => holds
    | cons entry rest ih =>
      obtain ⟨pin, pending⟩ := entry
      intro w holds
      refine ih _ ?_
      obtain ⟨w', edited, ⟨d, ran⟩ | ⟨src, ran⟩⟩ :=
        resolvePin_edits lawful conforms (wf w holds) id owner pin pending
      · show I ((resolvePin env id owner pin pending).run w).2
        rw [ran]
        exact edits w w' holds edited
      · show I ((resolvePin env id owner pin pending).run w).2
        rw [ran]
        exact connect w' pin src (edits w w' holds edited)
  rw [resolvePending_eq]
  split
  · exact holds
  · split
    · exact holds
    · exact holds
    · exact pins _ _ w holds

end Workspace

end Blockflow
